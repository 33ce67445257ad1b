import FastTransfer.Server.WsRelay
import FastTransfer.Server.RelaySessions

/-!
# Whose messages a relay connection gets

The relay loops of `HandleRelayWS` with the messages they carry. A turn of a
loop is the body of the `for` of `wsRelay`; the loops of different handlers take
their turns in any order. Two connections share a pair when their keys are
equal, and the key is the room and the index put together with a colon.
-/

namespace FastTransfer.Server

/-- The body of the loop of `wsRelay`, and whether the loop goes on. -/
def relayTurn (reader : Reading) (dst : Destination) : Bool × Destination :=
  match dst.nextWriter reader.message.type with
  | none => (false, dst)
  | some writer =>
      match copyBuffer writer reader.reads reader.failed with
      | (false, writer) => (false, writer.close.getD writer)
      | (true, writer) =>
          match writer.close with
          | none => (false, writer)
          | some dst => (true, dst)

/-- The loop is its turns. -/
theorem wsRelay_cons (reader : Reading) (src : List Reading) (dst : Destination) :
    wsRelay (reader :: src) dst =
      if (relayTurn reader dst).1 then wsRelay src (relayTurn reader dst).2
      else (relayTurn reader dst).2 := by
  rw [wsRelay, relayTurn]
  cases hnext : dst.nextWriter reader.message.type with
  | none => rfl
  | some writer =>
      cases hcopy : copyBuffer writer reader.reads reader.failed with
      | mk copied writer =>
          cases copied with
          | false => simp [hcopy]
          | true => cases hclose : writer.close <;> simp [hcopy, hclose]

/-- A message that a relay loop has taken from one connection for another. -/
structure Forwarded where
  source : Nat
  destination : Nat
  message : Message
  deriving DecidableEq

/-- The relay hub with the traffic on its connections. -/
structure RelayTraffic where
  hub : RelayWSHub := {}
  /-- What has arrived on each connection and has not been read. -/
  incoming : Nat → List Reading := fun _ => []
  destinations : Nat → Destination
  forwarded : List Forwarded := []

namespace RelayTraffic

open RelayWSHub

/-- The loop that the handler `h` runs takes a turn: it reads one whole message and
forwards it in the same step. So no other loop comes between the `NextReader` of a
message and the `Close` of its writer, also where two loops have one connection. -/
def turn (x : RelayTraffic) (h : Nat) : Option RelayTraffic := do
  let handler ← x.hub.handlers[h]?
  match handler.pc with
  | .relaying p (some src) (some dst) =>
      match x.incoming src with
      | [] => none
      | reader :: rest =>
          let (goesOn, writer) := relayTurn reader (x.destinations dst)
          some
            { hub := if goesOn then x.hub else x.hub.goto h handler (.relayed p)
              incoming := Function.update x.incoming src rest
              destinations := Function.update x.destinations dst writer
              forwarded := x.forwarded ++ [⟨src, dst, reader.message⟩] }
  | _ => none

/-- A step of the hub, of the network or of a relay loop. -/
inductive Action where
  | hub (a : RelayWSHub.Action)
  /-- A message arrives on a connection. -/
  | arrive (c : Nat) (reader : Reading)
  | turn (h : Nat)

/-- One step of the hub with its messages. -/
def step (x : RelayTraffic) : Action → Option RelayTraffic
  | .hub a => (RelayWSHub.step x.hub a).map fun s => { x with hub := s }
  | .arrive c reader =>
      some { x with incoming := Function.update x.incoming c (x.incoming c ++ [reader]) }
  | .turn h => x.turn h

/-- Connections connect with these queries only. -/
def Within (queries : Set Query) (_ : RelayTraffic) : Action → Prop
  | .hub (.connect q) => q ∈ queries
  | .hub (.handle _) | .arrive _ _ | .turn _ => True

end RelayTraffic

/-! ## Keys -/

/-- The room of one request is that of the other with a colon and some text
added, and the text begins the index of the other. -/
def Ambiguous (r r' : Request) : Prop :=
  ∃ text, r'.room = r.room ++ ":" ++ text ∧ r.idx = text ++ ":" ++ r'.idx

theorem append_cons_eq_append_cons {α : Type} {c : α} {as bs as' bs' : List α}
    (h : as ++ c :: bs = as' ++ c :: bs') :
    (as = as' ∧ bs = bs') ∨ (∃ l, as' = as ++ c :: l ∧ bs = l ++ c :: bs') ∨
      ∃ l, as = as' ++ c :: l ∧ bs' = l ++ c :: bs := by
  rcases List.append_eq_append_iff.mp h with ⟨l, rfl, hl⟩ | ⟨l, rfl, hl⟩
  · cases l with
    | nil => exact .inl ⟨by simp, (List.cons.inj hl).2⟩
    | cons x l =>
        obtain ⟨rfl, rfl⟩ := List.cons.inj hl
        exact .inr (.inl ⟨l, rfl, rfl⟩)
  · cases l with
    | nil => exact .inl ⟨by simp, (List.cons.inj hl).2.symm⟩
    | cons x l =>
        obtain ⟨rfl, rfl⟩ := List.cons.inj hl
        exact .inr (.inr ⟨l, rfl, rfl⟩)

/-- Requests have the same key if they ask for the same, or are ambiguous. -/
theorem key_eq_iff {r r' : Request} :
    r.key = r'.key ↔ (r.room = r'.room ∧ r.idx = r'.idx) ∨ Ambiguous r r' ∨ Ambiguous r' r := by
  constructor
  · intro h
    have hlist : r.room.toList ++ ':' :: r.idx.toList = r'.room.toList ++ ':' :: r'.idx.toList := by
      simpa [Request.key, String.toList_append] using congrArg String.toList h
    rcases append_cons_eq_append_cons hlist with ⟨hroom, hidx⟩ | ⟨l, hroom, hidx⟩ | ⟨l, hroom, hidx⟩
    · exact .inl ⟨String.toList_inj.mp hroom, String.toList_inj.mp hidx⟩
    · refine .inr (.inl ⟨String.ofList l, ?_, ?_⟩)
      · apply String.toList_inj.mp
        simpa [String.toList_append] using hroom
      · apply String.toList_inj.mp
        simpa [String.toList_append] using hidx
    · refine .inr (.inr ⟨String.ofList l, ?_, ?_⟩)
      · apply String.toList_inj.mp
        simpa [String.toList_append] using hroom
      · apply String.toList_inj.mp
        simpa [String.toList_append] using hidx
  · rintro (⟨hroom, hidx⟩ | ⟨text, hroom, hidx⟩ | ⟨text, hroom, hidx⟩)
    · rw [Request.key, Request.key, hroom, hidx]
    · rw [Request.key, Request.key, hroom, hidx]
      simp only [String.append_assoc]
    · rw [Request.key, Request.key, hroom, hidx]
      simp only [String.append_assoc]

theorem Ambiguous.room_ne {r r' : Request} (h : Ambiguous r r') : r.room ≠ r'.room := by
  obtain ⟨text, hroom, -⟩ := h
  intro heq
  have hlen := congrArg String.length (heq.trans hroom)
  have hcolon : ":".length = 1 := rfl
  rw [String.length_append, String.length_append] at hlen
  omega

/-! ## The handlers of a pair -/

namespace RelayWSHub

section Steps

variable {s t : RelayWSHub} {h : Nat} {handler : Handler}

theorem Member.of_handlers {p : Nat} {role : Role} {c : Nat} (hc : Member s p role c)
    (ht : t.handlers = s.handlers) : Member t p role c := by
  rwa [Member, ht]

/-- A step gets the handler its pair, or leaves it with the one it has. -/
theorem Steps.pair (hstep : Steps s h handler t) :
    (handler.pc = .upgraded ∧ t = (s.getOrCreatePair handler.request.key).2.goto h handler
        (.gotPair (s.getOrCreatePair handler.request.key).1)) ∨
      ∃ pc, t.handlers = s.handlers.set h { handler with pc } ∧
        Pc.pair pc = Pc.pair handler.pc ∧
        (∀ q, Pc.joined handler.pc = some q → Pc.joined pc = some q) ∧
        (∀ key q, t.pairs key = some q → s.pairs key = some q) ∧
        ∀ p src dst, pc = .relaying p src dst → ∃ pair, s.heap[p]? = some pair ∧
          src = pair.slot handler.request.role ∧ dst = pair.slot handler.request.role.opposite := by
  cases hstep with
  | getPair hpc => exact .inl ⟨hpc, rfl⟩
  | store hpc hpair =>
      exact .inr ⟨_, rfl, by rw [hpc]; rfl, by simp [hpc, Pc.joined], fun _ _ => id, by simp⟩
  | @close p pair hpc hpair =>
      refine .inr ⟨_, rfl, ?_, ?_, fun _ _ => id, ?_⟩
      · rw [hpc]
        split <;> rfl
      · rw [hpc]
        split <;> exact fun _ => id
      · split <;> simp
  | wait hpc | relayEnd hpc | closeConn hpc =>
      exact .inr ⟨_, rfl, by rw [hpc]; rfl, by rw [hpc]; exact fun _ => id, fun _ _ => id, by simp⟩
  | @relay p pair hpc hpair =>
      cases hrole : handler.request.role with
      | sender =>
          refine .inr ⟨_, rfl, by rw [hpc]; rfl, by rw [hpc]; exact fun _ => id, fun _ _ => id, ?_⟩
          rintro q src dst ⟨⟩
          exact ⟨pair, hpair, rfl, rfl⟩
      | receiver =>
          refine .inr ⟨_, rfl, by rw [hpc]; rfl, by rw [hpc]; exact fun _ => id, fun _ _ => id, ?_⟩
          rintro q src dst ⟨⟩
          exact ⟨pair, hpair, rfl, rfl⟩
  | removePair hpc =>
      refine .inr ⟨_, rfl, by rw [hpc]; rfl, by rw [hpc]; exact fun _ => id, ?_, by simp⟩
      intro key q hq
      simp only [RelayWSHub.goto, RelayWSHub.removePair, Function.update_apply] at hq
      split_ifs at hq
      exact hq

/-- A connection stays in the pair that it was stored in. -/
theorem Member.step {p : Nat} {role : Role} {c : Nat} {a : Action} (hc : Member s p role c)
    (hstep : step s a = some t) : Member t p role c := by
  cases a with
  | connect q =>
      obtain ⟨request, -, rfl⟩ := Option.map_eq_some_iff.mp hstep
      obtain ⟨handler, hc, hrest⟩ := hc
      exact ⟨handler, Tally.getElem?_concat_of_some hc, hrest⟩
  | handle h =>
      obtain ⟨handler, hh, hsteps⟩ := steps_of_handle hstep
      rcases hsteps.pair with ⟨hpc, rfl⟩ | ⟨pc, ht, -, hjoined, -⟩
      · have hh' := hh
        rw [← handlers_getOrCreatePair s handler.request.key] at hh'
        have hc' := hc.of_handlers (handlers_getOrCreatePair s handler.request.key)
        exact hc'.goto hh' (by simp [hpc, Pc.joined])
      · exact (hc.goto hh hjoined).of_handlers ht

end Steps

/-- **What every run keeps**: each pair belongs to one key, and a loop goes from
a connection of its handler's role to one of the other role. -/
structure Keyed (keyOf : Nat → String) (s : RelayWSHub) : Prop where
  mapped : ∀ (key : String) (p : Nat), s.pairs key = some p → key = keyOf p
  shared : ∀ handler ∈ s.handlers, ∀ p ∈ Pc.pair handler.pc, handler.request.key = keyOf p
  ends : ∀ handler ∈ s.handlers, ∀ p src dst, handler.pc = .relaying p src dst →
    (∀ c ∈ src, Member s p handler.request.role c) ∧
      ∀ d ∈ dst, Member s p handler.request.role.opposite d

theorem keyed_empty (keyOf : Nat → String) : Keyed keyOf {} where
  mapped := by simp
  shared := by simp
  ends := by simp

section Steps

variable {keyOf : Nat → String} {s t : RelayWSHub} {h : Nat} {handler : Handler}

theorem Keyed.connect (hs : Keyed keyOf s) (request : Request) :
    Keyed keyOf { s with handlers := s.handlers ++ [{ request }] } where
  mapped := hs.mapped
  shared handler hh p hp := by
    rcases List.mem_append.mp hh with hh | hh
    · exact hs.shared handler hh p hp
    · obtain rfl := List.mem_singleton.mp hh
      cases hp
  ends handler hh p src dst hpc := by
    have hmember : ∀ {role c}, Member s p role c →
        Member { s with handlers := s.handlers ++ [{ request }] } p role c := by
      rintro role c ⟨handler, hc, hrest⟩
      exact ⟨handler, Tally.getElem?_concat_of_some hc, hrest⟩
    rcases List.mem_append.mp hh with hh | hh
    · obtain ⟨hsrc, hdst⟩ := hs.ends handler hh p src dst hpc
      exact ⟨fun c hc => hmember (hsrc c hc), fun d hd => hmember (hdst d hd)⟩
    · obtain rfl := List.mem_singleton.mp hh
      cases hpc

/-- A handler goes on with a pair of its key. -/
theorem Keyed.set (hs : Keyed keyOf s) {pc : Pc}
    (ht : t.handlers = s.handlers.set h { handler with pc })
    (hpairs : ∀ key p, t.pairs key = some p → s.pairs key = some p)
    (hpair : ∀ p ∈ Pc.pair pc, handler.request.key = keyOf p)
    (hmember : ∀ {p role c}, Member s p role c → Member t p role c)
    (hends : ∀ p src dst, pc = .relaying p src dst →
      (∀ c ∈ src, Member s p handler.request.role c) ∧
        ∀ d ∈ dst, Member s p handler.request.role.opposite d) :
    Keyed keyOf t where
  mapped key p hp := hs.mapped key p (hpairs key p hp)
  shared := by
    rw [ht]
    exact Tally.forall_mem_set hs.shared hpair
  ends := by
    rw [ht]
    have hall := Tally.forall_mem_set (i := h) (x := { handler with pc }) hs.ends hends
    intro handler' hh p src dst hpc
    obtain ⟨hsrc, hdst⟩ := hall handler' hh p src dst hpc
    exact ⟨fun c hc => hmember (hsrc c hc), fun d hd => hmember (hdst d hd)⟩

/-- A pair that is new in the heap gets the key it is created under. -/
theorem Keyed.getOrCreatePair (hs : Keyed keyOf s) (hj : Joined s) (key : String) :
    ∃ keyOf', Keyed keyOf' (s.getOrCreatePair key).2 ∧
      key = keyOf' (s.getOrCreatePair key).1 := by
  rw [RelayWSHub.getOrCreatePair]
  split
  next p hkey => exact ⟨keyOf, hs, hs.mapped key p hkey⟩
  next hkey =>
    have hold : ∀ p < s.heap.length,
        Function.update keyOf s.heap.length key p = keyOf p :=
      fun p hp => Function.update_of_ne (Nat.ne_of_lt hp) _ _
    refine ⟨Function.update keyOf s.heap.length key, ⟨?_, ?_, hs.ends⟩, by simp⟩
    · intro key' p hp
      simp only [Function.update_apply] at hp
      split_ifs at hp with heq
      · obtain rfl := Option.some.inj hp
        rw [Function.update_self, heq]
      · rw [hold p (hj.mapped key' p hp)]
        exact hs.mapped key' p hp
    · intro handler hh p hp
      obtain ⟨c, hc⟩ := List.mem_iff_getElem?.mp hh
      obtain ⟨pair, hpair, -⟩ := hj.known c handler p hc hp
      rw [hold p (List.getElem?_eq_some_iff.mp hpair).1]
      exact hs.shared handler hh p hp

theorem Keyed.step {a : Action} (hs : Keyed keyOf s) (hj : Joined s)
    (hstep : step s a = some t) : ∃ keyOf', Keyed keyOf' t := by
  have hmember : ∀ {p role c}, Member s p role c → Member t p role c := fun hc => hc.step hstep
  cases a with
  | connect q =>
      obtain ⟨request, -, rfl⟩ := Option.map_eq_some_iff.mp hstep
      exact ⟨keyOf, hs.connect request⟩
  | handle h =>
      obtain ⟨handler, hh, hsteps⟩ := steps_of_handle hstep
      rcases hsteps.pair with ⟨hpc, rfl⟩ | ⟨pc, ht, hpair, -, hpairs, hends⟩
      · obtain ⟨keyOf', hs', hkey⟩ := hs.getOrCreatePair hj handler.request.key
        refine ⟨keyOf', hs'.set rfl (fun _ _ => id) ?_ ?_ (by simp)⟩
        · intro p hp
          obtain rfl := Option.some.inj hp
          exact hkey
        · intro p role c hc
          exact hmember (hc.of_handlers (handlers_getOrCreatePair s handler.request.key).symm)
      · refine ⟨keyOf, hs.set ht hpairs ?_ hmember ?_⟩
        · intro p hp
          exact hs.shared handler (List.mem_of_getElem? hh) p (hpair ▸ hp)
        · intro p src dst hpc
          obtain ⟨pair, hp, rfl, rfl⟩ := hends p src dst hpc
          exact ⟨fun c hc => hj.slots p pair _ c hp hc, fun d hd => hj.slots p pair _ d hp hd⟩

/-- A handler keeps its request, and a new one has that of its query. -/
theorem request_of_step {a : Action} (hstep : step s a = some t) :
    ∀ handler ∈ t.handlers, (∃ old ∈ s.handlers, old.request = handler.request) ∨
      ∃ q, a = .connect q ∧ q.request = some handler.request := by
  cases a with
  | connect q =>
      obtain ⟨request, hq, rfl⟩ := Option.map_eq_some_iff.mp hstep
      intro handler hh
      rcases List.mem_append.mp hh with hh | hh
      · exact .inl ⟨handler, hh, rfl⟩
      · obtain rfl := List.mem_singleton.mp hh
        exact .inr ⟨q, rfl, hq⟩
  | handle h =>
      obtain ⟨handler, hh, hsteps⟩ := steps_of_handle hstep
      have hset : ∃ pc, t.handlers = s.handlers.set h { handler with pc } := by
        rcases hsteps.pair with ⟨-, rfl⟩ | ⟨pc, ht, -⟩
        · exact ⟨_, by rw [RelayWSHub.goto, handlers_getOrCreatePair]⟩
        · exact ⟨pc, ht⟩
      obtain ⟨pc, ht⟩ := hset
      rw [ht]
      apply Tally.forall_mem_set
      · exact fun old hold => .inl ⟨old, hold, rfl⟩
      · exact .inl ⟨handler, List.mem_of_getElem? hh, rfl⟩

end Steps

end RelayWSHub

/-! ## Isolation -/

namespace RelayTraffic

open RelayWSHub

/-- Messages go between connections of the two roles that asked for the same
room and index, and only such connections share a pair. -/
structure Isolated (x : RelayTraffic) : Prop where
  messages : ∀ f ∈ x.forwarded, ∃ src ∈ x.hub.handlers[f.source]?,
    ∃ dst ∈ x.hub.handlers[f.destination]?, src.request.role = dst.request.role.opposite ∧
      src.request.room = dst.request.room ∧ src.request.idx = dst.request.idx
  pairs : ∀ handler ∈ x.hub.handlers, ∀ handler' ∈ x.hub.handlers, ∀ p ∈ Pc.pair handler.pc,
    p ∈ Pc.pair handler'.pc →
      handler.request.room = handler'.request.room ∧ handler.request.idx = handler'.request.idx

/-- What every run with the queries keeps. -/
structure Carried (queries : Set Query) (x : RelayTraffic) : Prop where
  joined : Joined x.hub
  keyed : ∃ keyOf, Keyed keyOf x.hub
  asked : ∀ handler ∈ x.hub.handlers, ∃ q ∈ queries, q.request = some handler.request
  messages : ∀ f ∈ x.forwarded, ∃ p role, Member x.hub p role f.source ∧
    Member x.hub p role.opposite f.destination

section Steps

variable {queries : Set Query} {x y : RelayTraffic}

theorem Carried.hub (hx : Carried queries x) {a : RelayWSHub.Action} {s : RelayWSHub}
    (hok : Within queries x (.hub a)) (hstep : RelayWSHub.step x.hub a = some s) :
    Carried queries { x with hub := s } where
  joined := hx.joined.step hstep
  keyed := by
    obtain ⟨keyOf, hkeyed⟩ := hx.keyed
    exact hkeyed.step hx.joined hstep
  asked handler hh := by
    rcases request_of_step hstep handler hh with ⟨old, hold, hrequest⟩ | ⟨q, rfl, hq⟩
    · rw [← hrequest]
      exact hx.asked old hold
    · exact ⟨q, hok, hq⟩
  messages f hf := by
    obtain ⟨p, role, hsrc, hdst⟩ := hx.messages f hf
    exact ⟨p, role, hsrc.step hstep, hdst.step hstep⟩

/-- A turn hands on a message of the handler's source to its destination. -/
theorem turn_eq {h : Nat} (hturn : x.turn h = some y) :
    ∃ (handler : Handler) (p src dst : Nat) (reader : Reading),
      x.hub.handlers[h]? = some handler ∧ handler.pc = .relaying p (some src) (some dst) ∧
        y.forwarded = x.forwarded ++ [⟨src, dst, reader.message⟩] ∧
        (y.hub = x.hub ∨ RelayWSHub.step x.hub (.handle h) = some y.hub) := by
  obtain ⟨handler, hh, hturn⟩ := Option.bind_eq_some_iff.mp hturn
  split at hturn
  next p src dst hpc =>
    split at hturn
    next => cases hturn
    next reader rest hincoming =>
      generalize relayTurn reader (x.destinations dst) = r at hturn
      obtain ⟨goesOn, writer⟩ := r
      obtain rfl := Option.some.inj hturn
      refine ⟨handler, p, src, dst, reader, hh, hpc, rfl, ?_⟩
      cases goesOn with
      | true => exact .inl rfl
      | false =>
          refine .inr ?_
          simp [RelayWSHub.step, handleRelayWS, hh, hpc]
  next => cases hturn

theorem Carried.turn (hx : Carried queries x) {h : Nat} (hturn : x.turn h = some y) :
    Carried queries y := by
  obtain ⟨handler, p, src, dst, reader, hh, hpc, hforwarded, hhub⟩ := turn_eq hturn
  obtain ⟨keyOf, hkeyed⟩ := hx.keyed
  obtain ⟨hsrc, hdst⟩ := hkeyed.ends handler (List.mem_of_getElem? hh) p _ _ hpc
  have hy : Carried queries { x with hub := y.hub } := by
    rcases hhub with heq | hstep
    · rwa [heq]
    · have hok : Within queries x (.hub (.handle h)) := trivial
      exact hx.hub hok hstep
  have hmember : ∀ {p role c}, Member x.hub p role c → Member y.hub p role c := by
    intro p role c hc
    rcases hhub with heq | hstep
    · rwa [heq]
    · exact hc.step hstep
  refine ⟨hy.joined, hy.keyed, hy.asked, fun f hf => ?_⟩
  rw [hforwarded] at hf
  rcases List.mem_append.mp hf with hf | hf
  · exact hy.messages f hf
  · obtain rfl := List.mem_singleton.mp hf
    exact ⟨p, _, hmember (hsrc src rfl), hmember (hdst dst rfl)⟩

theorem Carried.step (hx : Carried queries x) {a : Action} (hok : Within queries x a)
    (hstep : step x a = some y) : Carried queries y := by
  cases a with
  | hub a =>
      obtain ⟨s, hs, rfl⟩ := Option.map_eq_some_iff.mp hstep
      exact hx.hub hok hs
  | arrive c reader =>
      obtain rfl := Option.some.inj hstep
      exact ⟨hx.joined, hx.keyed, hx.asked, hx.messages⟩
  | turn h => exact hx.turn hstep

/-- Without ambiguous requests a key stands for one room and one index. -/
theorem Carried.isolated (hx : Carried queries x)
    (hkeys : ∀ q ∈ queries, ∀ q' ∈ queries, ∀ r ∈ q.request, ∀ r' ∈ q'.request, ¬ Ambiguous r r') :
    Isolated x := by
  obtain ⟨keyOf, hkeyed⟩ := hx.keyed
  have hpairs : ∀ handler ∈ x.hub.handlers, ∀ handler' ∈ x.hub.handlers,
      ∀ p ∈ Pc.pair handler.pc, p ∈ Pc.pair handler'.pc →
        handler.request.room = handler'.request.room ∧
          handler.request.idx = handler'.request.idx := by
    intro handler hh handler' hh' p hp hp'
    have hkey : handler.request.key = handler'.request.key :=
      (hkeyed.shared handler hh p hp).trans (hkeyed.shared handler' hh' p hp').symm
    obtain ⟨q, hq, hr⟩ := hx.asked handler hh
    obtain ⟨q', hq', hr'⟩ := hx.asked handler' hh'
    rcases key_eq_iff.mp hkey with hsame | hambiguous | hambiguous
    · exact hsame
    · exact absurd hambiguous (hkeys q hq q' hq' _ hr _ hr')
    · exact absurd hambiguous (hkeys q' hq' q hq _ hr' _ hr)
  refine ⟨fun f hf => ?_, hpairs⟩
  obtain ⟨p, role, ⟨src, hsrc, hrole, hp⟩, ⟨dst, hdst, hrole', hp'⟩⟩ := hx.messages f hf
  obtain ⟨hroom, hidx⟩ := hpairs src (List.mem_of_getElem? hsrc) dst (List.mem_of_getElem? hdst) p
    (Pc.pair_of_joined hp) (Pc.pair_of_joined hp')
  refine ⟨src, hsrc, dst, hdst, ?_, hroom, hidx⟩
  rw [hrole, hrole', Role.opposite_opposite]

end Steps

theorem carried_start (queries : Set Query) (destinations : Nat → Destination) :
    Carried queries { destinations } where
  joined := joined_empty
  keyed := ⟨fun _ => "", keyed_empty _⟩
  asked := by simp
  messages := by simp

/-- The handlers of two requests with the same key get the same pair. -/
theorem shares_pair {q q' : Query} {r r' : Request} (hq : q.request = some r)
    (hq' : q'.request = some r') (hkey : r.key = r'.key) (destinations : Nat → Destination) :
    ∃ x, Runs.run step { destinations }
        [.hub (.connect q), .hub (.connect q'), .hub (.handle 0), .hub (.handle 1)] = some x ∧
      x.hub.handlers = [⟨r, .gotPair 0⟩, ⟨r', .gotPair 0⟩] := by
  simp [Runs.run, step, RelayWSHub.step, hq, hq', handleRelayWS, getOrCreatePair, goto, hkey]

/-- **Isolation**: whatever the requests, and in any order of the steps of their
handlers and of the turns of their loops, exactly if no two of them are
ambiguous. -/
theorem isolated_iff (queries : Set Query) (destinations : Nat → Destination) :
    (∀ x, Runs.ReachWhen step (Within queries) { destinations } x → Isolated x) ↔
      ∀ q ∈ queries, ∀ q' ∈ queries, ∀ r ∈ q.request, ∀ r' ∈ q'.request, ¬ Ambiguous r r' := by
  constructor
  · intro h q hq q' hq' r hr r' hr' hambiguous
    obtain ⟨x, hrun, hhandlers⟩ := shares_pair hr hr' (key_eq_iff.mpr (.inr (.inl hambiguous)))
      destinations
    have hreach : Runs.ReachWhen step (Within queries) { destinations } _ :=
      Runs.reachWhen_of_run _ hrun (by simp [Runs.Meets, Within, hq, hq'])
    have hroom := ((h x hreach).pairs ⟨r, .gotPair 0⟩ (by simp [hhandlers]) ⟨r', .gotPair 0⟩
      (by simp [hhandlers]) 0 rfl rfl).1
    exact hambiguous.room_ne hroom
  · intro hkeys x hx
    have hcarried : Carried queries x := by
      apply hx.invariant (carried_start queries destinations)
      exact fun u a v hu hok hstep => hu.step hok hstep
    exact hcarried.isolated hkeys

/-- A message of three bytes, read in one piece. -/
def wholeReading : Reading where
  message := ⟨.binary, [1, 2, 3]⟩
  reads := [[1, 2, 3]]
  reads_prefix := List.prefix_rfl
  reads_all _ := rfl

/-- A sender of the room `a:b` with index `c`, and a receiver of the room `a`
with index `b:c`. -/
def colonRun : List Action :=
  [.hub (.connect ⟨"a:b", "sender", "c"⟩), .hub (.connect ⟨"a", "receiver", "b:c"⟩),
    .hub (.handle 0), .hub (.handle 0), .hub (.handle 1), .hub (.handle 1), .hub (.handle 1),
    .hub (.handle 0), .hub (.handle 0), .arrive 0 wholeReading, .turn 0]

/-- The receiver gets the message of a sender of another room. -/
theorem not_isolated_colon :
    ∃ x, Runs.run step { destinations := fun _ => { opsLeft := none } } colonRun = some x ∧
      x.forwarded = [⟨0, 1, wholeReading.message⟩] ∧
      (x.destinations 1).delivered = [wholeReading.message] ∧
      x.hub.handlers.map (·.request.room) = ["a:b", "a"] ∧ ¬ Isolated x := by
  refine ⟨_, rfl, rfl, rfl, rfl, fun h => ?_⟩
  obtain ⟨src, hsrc, dst, hdst, -, hroom, -⟩ := h.messages _ (List.mem_singleton_self _)
  obtain rfl := Option.some.inj hsrc
  obtain rfl := Option.some.inj hdst
  exact absurd hroom (by decide)

end RelayTraffic

end FastTransfer.Server
