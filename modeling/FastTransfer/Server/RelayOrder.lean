import FastTransfer.Server.RelayIsolation

/-!
# The relay keeps the order

Between two connections that have a pair to themselves the relay is a channel:
the peer gets the messages of the source in their order, each once, and none is
left out as long as the peer's connection works. The loops of all pairs take their
turns in any order. A message that the source could not send to its end is
forwarded as far as it was read, so here every message is read whole.
-/

namespace FastTransfer.Server

open RelayWSHub

/-! ## One turn of a loop -/

/-- The connection carries out no operation any more. -/
def Destination.Dead (dst : Destination) : Prop := ¬ Allows dst.opsLeft 1

section Turn

variable {m : Reading} {dst : Destination}

/-- A turn is a run of the loop on one message. -/
theorem relayTurn_snd (m : Reading) (dst : Destination) :
    (relayTurn m dst).2 = wsRelay [m] dst := by
  rw [wsRelay_cons]
  split <;> rfl

theorem relayTurn_of_allows (hm : m.failed = false) (h : Allows dst.opsLeft m.ops) :
    (relayTurn m dst).2.delivered = dst.delivered ++ [m.message] := by
  rw [relayTurn_snd, wsRelay_of_allows h, hm, Destination.took, m.reads_all hm]
  rfl

/-- A connection that fails within a turn has failed for good. -/
theorem relayTurn_of_fails (h : ¬ Allows dst.opsLeft m.ops) :
    (relayTurn m dst).2.delivered = dst.delivered ∧ (relayTurn m dst).2.Dead := by
  rw [relayTurn_snd]
  exact wsRelay_fails h []

theorem not_allows_of_dead (h : dst.Dead) (m : Reading) : ¬ Allows dst.opsLeft m.ops := by
  intro hops
  apply h
  intro n hn
  have hle := hops n hn
  rw [Reading.ops] at hle
  omega

end Turn

namespace RelayTraffic

/-! ## What a connection sends and gets -/

/-- What arrives on a connection in a run. -/
def arrivals (c : Nat) : List Action → List Reading
  | [] => []
  | .arrive c' reader :: as => if c' = c then reader :: arrivals c as else arrivals c as
  | _ :: as => arrivals c as

/-- The messages that the loops have taken from a connection. -/
def takenFrom (x : RelayTraffic) (c : Nat) : List Message :=
  (x.forwarded.filter (·.source = c)).map (·.message)

/-- The messages that the loops have taken for a connection. -/
def takenFor (x : RelayTraffic) (d : Nat) : List Message :=
  (x.forwarded.filter (·.destination = d)).map (·.message)

/-- A connection has got what was taken for it, or a first part and has failed. -/
structure InOrder (x : RelayTraffic) (d : Nat) : Prop where
  isPrefix : (x.destinations d).delivered <+: x.takenFor d
  all : (x.destinations d).delivered = x.takenFor d ∨ (x.destinations d).Dead

/-- **What every run keeps** in which all messages are read whole. -/
structure Ordered (x : RelayTraffic) : Prop where
  whole : ∀ c, ∀ reader ∈ x.incoming c, reader.failed = false
  inOrder : ∀ d, InOrder x d

section Steps

variable {x y : RelayTraffic} {c d h : Nat}

theorem arrivals_cons (c : Nat) (a : Action) (as : List Action) :
    arrivals c (a :: as) = arrivals c [a] ++ arrivals c as := by
  cases a with
  | hub | turn => rfl
  | arrive c' reader =>
      simp only [arrivals]
      split <;> rfl

/-- A turn, with the message that it takes. -/
theorem turn_taken (hturn : x.turn h = some y) :
    ∃ (handler : Handler) (p src dst : Nat) (reader : Reading) (rest : List Reading),
      x.hub.handlers[h]? = some handler ∧ handler.pc = .relaying p (some src) (some dst) ∧
        x.incoming src = reader :: rest ∧
        y.incoming = Function.update x.incoming src rest ∧
        y.destinations =
          Function.update x.destinations dst (relayTurn reader (x.destinations dst)).2 ∧
        y.forwarded = x.forwarded ++ [⟨src, dst, reader.message⟩] := by
  obtain ⟨handler, hh, hturn⟩ := Option.bind_eq_some_iff.mp hturn
  split at hturn
  next p src dst hpc =>
    split at hturn
    next => cases hturn
    next reader rest hincoming =>
      obtain rfl := Option.some.inj hturn
      exact ⟨handler, p, src, dst, reader, rest, hh, hpc, hincoming, rfl, rfl, rfl⟩
  next => cases hturn

/-- What has arrived on a connection has been taken or waits, in this order. -/
theorem takenFrom_step {a : Action} (hstep : step x a = some y) (c : Nat) :
    y.takenFrom c ++ messages (y.incoming c) =
      x.takenFrom c ++ messages (x.incoming c) ++ messages (arrivals c [a]) := by
  cases a with
  | hub a =>
      obtain ⟨s, hs, rfl⟩ := Option.map_eq_some_iff.mp hstep
      exact (List.append_nil _).symm
  | arrive c' reader =>
      obtain rfl := Option.some.inj hstep
      simp only [takenFrom, arrivals]
      by_cases hc : c' = c
      · subst hc
        rw [Function.update_self, if_pos rfl, messages, List.map_append, List.append_assoc]
        rfl
      · rw [Function.update_of_ne (Ne.symm hc), if_neg hc]
        exact (List.append_nil _).symm
  | turn h =>
      obtain ⟨-, -, src, dst, reader, rest, -, -, hin, hin', -, hforwarded⟩ := turn_taken hstep
      rw [takenFrom, hforwarded, hin', List.filter_append, List.map_append]
      by_cases hc : src = c
      · subst hc
        simp [takenFrom, hin, messages, arrivals]
      · rw [Function.update_of_ne (Ne.symm hc)]
        simp [takenFrom, hc, arrivals, messages]

theorem takenFrom_run {as : List Action} (hrun : Runs.run step x as = some y) (c : Nat) :
    y.takenFrom c ++ messages (y.incoming c) =
      x.takenFrom c ++ messages (x.incoming c) ++ messages (arrivals c as) := by
  induction as generalizing x with
  | nil =>
      obtain rfl := Option.some.inj hrun
      exact (List.append_nil _).symm
  | cons a as ih =>
      obtain ⟨z, hstep, hrest⟩ := Option.bind_eq_some_iff.mp hrun
      rw [ih hrest, takenFrom_step hstep, arrivals_cons c a as, messages, messages, messages,
        messages, List.map_append]
      simp only [List.append_assoc]

theorem InOrder.congr (hx : InOrder x d) (hdestinations : y.destinations = x.destinations)
    (hforwarded : y.forwarded = x.forwarded) : InOrder y d := by
  have htaken : y.takenFor d = x.takenFor d := by rw [takenFor, hforwarded, takenFor]
  refine ⟨?_, ?_⟩
  · rw [hdestinations, htaken]
    exact hx.isPrefix
  · rw [hdestinations, htaken]
    exact hx.all

/-- One more message is taken for a connection. -/
theorem InOrder.taken (hx : InOrder x d) {reader : Reading} (hwhole : reader.failed = false)
    (hdst : y.destinations d = (relayTurn reader (x.destinations d)).2)
    (htaken : y.takenFor d = x.takenFor d ++ [reader.message]) : InOrder y d := by
  by_cases hallows : Allows (x.destinations d).opsLeft reader.ops
  · have hlive : (x.destinations d).delivered = x.takenFor d := by
      apply hx.all.resolve_right
      exact fun hdead => not_allows_of_dead hdead reader hallows
    have hall : (y.destinations d).delivered = y.takenFor d := by
      rw [hdst, relayTurn_of_allows hwhole hallows, htaken, hlive]
    exact ⟨hall ▸ List.prefix_rfl, .inl hall⟩
  · obtain ⟨hsame, hdead⟩ := relayTurn_of_fails hallows
    rw [← hdst] at hsame hdead
    refine ⟨?_, .inr hdead⟩
    rw [hsame, htaken]
    exact hx.isPrefix.trans (List.prefix_append _ _)

theorem Ordered.step {a : Action} (hx : Ordered x) (hstep : step x a = some y)
    (hwhole : ∀ c, ∀ reader ∈ arrivals c [a], reader.failed = false) : Ordered y := by
  cases a with
  | hub a =>
      obtain ⟨s, hs, rfl⟩ := Option.map_eq_some_iff.mp hstep
      exact ⟨hx.whole, fun d => (hx.inOrder d).congr rfl rfl⟩
  | arrive c' reader =>
      obtain rfl := Option.some.inj hstep
      refine ⟨fun c reader' hin => ?_, fun d => (hx.inOrder d).congr rfl rfl⟩
      simp only at hin
      by_cases hc : c = c'
      · subst hc
        rw [Function.update_self, List.mem_append] at hin
        rcases hin with hin | hin
        · exact hx.whole c reader' hin
        · obtain rfl := List.mem_singleton.mp hin
          exact hwhole c reader' (by simp [arrivals])
      · rw [Function.update_of_ne hc] at hin
        exact hx.whole c reader' hin
  | turn h =>
      obtain ⟨-, -, src, dst, reader, rest, -, -, hin, hin', hdst, hforwarded⟩ := turn_taken hstep
      refine ⟨fun c reader' hmem => ?_, fun d => ?_⟩
      · rw [hin'] at hmem
        by_cases hc : c = src
        · subst hc
          rw [Function.update_self] at hmem
          exact hx.whole c reader' (by simp [hin, hmem])
        · rw [Function.update_of_ne hc] at hmem
          exact hx.whole c reader' hmem
      · by_cases hd : d = dst
        · subst hd
          apply (hx.inOrder d).taken (hx.whole src reader (by simp [hin]))
          · rw [hdst, Function.update_self]
          · simp [takenFor, hforwarded]
        · have hsame : y.destinations d = x.destinations d := by
            rw [hdst, Function.update_of_ne hd]
          have htaken : y.takenFor d = x.takenFor d := by
            simp [takenFor, hforwarded, Ne.symm hd]
          refine ⟨?_, ?_⟩
          · rw [hsame, htaken]
            exact (hx.inOrder d).isPrefix
          · rw [hsame, htaken]
            exact (hx.inOrder d).all

theorem Ordered.run {as : List Action} (hx : Ordered x)
    (hrun : Runs.run RelayTraffic.step x as = some y)
    (hwhole : ∀ c, ∀ reader ∈ arrivals c as, reader.failed = false) : Ordered y := by
  induction as generalizing x with
  | nil =>
      obtain rfl := Option.some.inj hrun
      exact hx
  | cons a as ih =>
      obtain ⟨z, hstep, hrest⟩ := Option.bind_eq_some_iff.mp hrun
      have hsplit : ∀ c, ∀ reader, reader ∈ arrivals c [a] ∨ reader ∈ arrivals c as →
          reader.failed = false := by
        intro c reader hmem
        apply hwhole c reader
        rwa [arrivals_cons, List.mem_append]
      have hz := hx.step hstep fun c reader hmem => hsplit c reader (.inl hmem)
      exact ih hz hrest fun c reader hmem => hsplit c reader (.inr hmem)

/-! ## A pair with two connections -/

/-- The connections `who` have been stored in the pair `p`, and no others. -/
structure PairOf (x : RelayTraffic) (p : Nat) (who : Role → Nat) : Prop where
  member : ∀ role, Member x.hub p role (who role)
  only : ∀ role c, Member x.hub p role c → c = who role

/-- A connection is stored in one pair, in one role. -/
theorem member_unique {s : RelayWSHub} {p q : Nat} {role role' : Role}
    (hc : Member s p role c) (hc' : Member s q role' c) : p = q ∧ role = role' := by
  obtain ⟨handler, hh, rfl, hp⟩ := hc
  obtain ⟨handler', hh', rfl, hq⟩ := hc'
  obtain rfl := Option.mem_unique hh hh'
  exact ⟨Option.mem_unique hp hq, rfl⟩

/-- What is taken from one of the two is taken for the other. -/
theorem PairOf.taken {p : Nat} {who : Role → Nat} (hpair : PairOf x p who)
    {queries : Set Query} (hx : Carried queries x) (role : Role) :
    x.takenFor (who role.opposite) = x.takenFrom (who role) := by
  rw [takenFor, takenFrom]
  congr 1
  apply List.filter_congr
  intro f hf
  obtain ⟨q, role', hsrc, hdst⟩ := hx.messages f hf
  apply decide_eq_decide.mpr
  constructor
  · intro heq
    rw [heq] at hdst
    obtain ⟨rfl, hrole⟩ := member_unique hdst (hpair.member role.opposite)
    rw [Role.opposite_injective hrole] at hsrc
    exact hpair.only role _ hsrc
  · intro heq
    rw [heq] at hsrc
    obtain ⟨rfl, rfl⟩ := member_unique hsrc (hpair.member role)
    exact hpair.only role'.opposite _ hdst

/-- A loop of the two that has no turn to take has taken all there is. -/
theorem PairOf.idle {p : Nat} {who : Role → Nat} (hpair : PairOf x p who)
    {queries : Set Query} (hx : Carried queries x) {role : Role} {src dst : Nat}
    (hrelays : Relays x.hub (who role) (some src) (some dst)) (hturn : x.turn (who role) = none) :
    x.incoming (who role) = [] := by
  obtain ⟨handler, q, hh, hpc⟩ := hrelays
  obtain ⟨keyOf, hkeyed⟩ := hx.keyed
  obtain ⟨hends, -⟩ := hkeyed.ends handler (List.mem_of_getElem? hh) q _ _ hpc
  obtain ⟨handler', hh', hrole, hp⟩ := hpair.member role
  obtain rfl := Option.mem_unique hh hh'
  rw [hpc] at hp
  obtain rfl := Option.some.inj hp
  obtain rfl : src = who role := by
    apply hpair.only role
    exact hrole ▸ hends src rfl
  cases hin : x.incoming (who role) with
  | nil => rfl
  | cons reader rest => simp [turn, hh, hpc, hin] at hturn

end Steps

/-- **The relay is a channel**, in every run in which the messages are read whole,
whatever the requests and the order of the steps. What has arrived on a connection
has been taken by a loop or waits, in its order and once. Of two connections that
have a pair to themselves each gets a first part of what has arrived on the other
one; as long as it works, all but what waits, and when the loop has no turn left,
all. -/
theorem relay_keeps_order (destinations : Nat → Destination)
    (hfresh : ∀ d, (destinations d).delivered = []) (as : List Action) (x : RelayTraffic)
    (hrun : Runs.run step { destinations } as = some x)
    (hwhole : ∀ c, ∀ reader ∈ arrivals c as, reader.failed = false) :
    (∀ c, x.takenFrom c ++ messages (x.incoming c) = messages (arrivals c as)) ∧
      ∀ p who, PairOf x p who → ∀ role,
        (x.destinations (who role.opposite)).delivered <+: messages (arrivals (who role) as) ∧
        (¬ (x.destinations (who role.opposite)).Dead →
          (x.destinations (who role.opposite)).delivered ++ messages (x.incoming (who role)) =
            messages (arrivals (who role) as) ∧
          ∀ src dst, Relays x.hub (who role) (some src) (some dst) → x.turn (who role) = none →
            (x.destinations (who role.opposite)).delivered =
              messages (arrivals (who role) as)) := by
  have hall : ∀ c, x.takenFrom c ++ messages (x.incoming c) = messages (arrivals c as) :=
    fun c => takenFrom_run hrun c
  have hordered : Ordered x := by
    apply Ordered.run _ hrun hwhole
    refine ⟨fun c reader hin => absurd hin List.not_mem_nil, fun d => ⟨?_, .inl (hfresh d)⟩⟩
    rw [hfresh d]
    exact List.nil_prefix
  have hcarried : Carried Set.univ x := by
    apply (Runs.reach_of_run as hrun).invariant (carried_start Set.univ destinations)
    intro u a v hu hstep
    refine hu.step ?_ hstep
    rcases a with (q | h) | ⟨c, reader⟩ | h <;> trivial
  refine ⟨hall, fun p who hpair role => ?_⟩
  have htaken := hpair.taken hcarried role
  obtain ⟨hfirst, hlive⟩ := hordered.inOrder (who role.opposite)
  rw [htaken] at hfirst hlive
  refine ⟨hfirst.trans ⟨_, hall (who role)⟩, fun hworks => ?_⟩
  have hsame := hlive.resolve_right hworks
  have hdelivered := hall (who role)
  rw [← hsame] at hdelivered
  refine ⟨hdelivered, fun src dst hrelays hturn => ?_⟩
  rw [hpair.idle hcarried hrelays hturn] at hdelivered
  simpa [messages] using hdelivered

def firstTwo : Role → Nat
  | .sender => 0
  | .receiver => 1

/-- A sender and a receiver, and two messages for the receiver. -/
def inOrderRun : List Action :=
  [.hub (.connect ⟨"room", "sender", ""⟩), .hub (.connect ⟨"room", "receiver", "0"⟩),
    .hub (.handle 0), .hub (.handle 0), .hub (.handle 1), .hub (.handle 1), .hub (.handle 1),
    .hub (.handle 0), .arrive 0 wholeReading, .hub (.handle 0), .arrive 0 wholeReading, .turn 0,
    .turn 0]

def inOrderEnd : Option RelayTraffic :=
  Runs.run step { destinations := fun _ => { opsLeft := none } } inOrderRun

theorem whole_inOrderRun (c : Nat) : ∀ reader ∈ arrivals c inOrderRun, reader.failed = false := by
  intro reader hmem
  by_cases hc : 0 = c
  · subst hc
    have hmem' : reader ∈ [wholeReading, wholeReading] := hmem
    obtain rfl : reader = wholeReading := by simpa using hmem'
    rfl
  · simp [inOrderRun, arrivals, hc] at hmem

theorem pairOf_two {x : RelayTraffic} {sender receiver : Handler}
    (hhandlers : x.hub.handlers = [sender, receiver]) (hsender : sender.request.role = .sender)
    (hreceiver : receiver.request.role = .receiver) (hp : Pc.joined sender.pc = some 0)
    (hp' : Pc.joined receiver.pc = some 0) : PairOf x 0 firstTwo where
  member role := by
    cases role
    · exact ⟨sender, by rw [hhandlers]; rfl, hsender, hp⟩
    · exact ⟨receiver, by rw [hhandlers]; rfl, hreceiver, hp'⟩
  only role c hc := by
    obtain ⟨handler, hh, rfl, -⟩ := hc
    rw [hhandlers] at hh
    match c with
    | 0 =>
        obtain rfl := Option.some.inj hh
        rw [hsender]
        rfl
    | 1 =>
        obtain rfl := Option.some.inj hh
        rw [hreceiver]
        rfl
    | c + 2 => cases hh

theorem relay_keeps_order_two : ∃ x, inOrderEnd = some x ∧
    (x.destinations 1).delivered = [wholeReading.message, wholeReading.message] := by
  have hsome : inOrderEnd.isSome = true := by decide +kernel
  have hhandlers : inOrderEnd.map (·.hub.handlers) =
      some [⟨⟨"room", .sender, "0"⟩, .relaying 0 (some 0) (some 1)⟩,
        ⟨⟨"room", .receiver, "0"⟩, .released 0⟩] := by decide +kernel
  have hlive : inOrderEnd.map (fun x => (x.destinations 1).opsLeft) = some none := by
    decide +kernel
  have hturn : (inOrderEnd.bind (·.turn 0)).isNone = true := by decide +kernel
  obtain ⟨x, hx⟩ := Option.isSome_iff_exists.mp hsome
  rw [hx] at hhandlers hlive hturn
  have hhandlers : x.hub.handlers = _ := Option.some.inj hhandlers
  obtain ⟨-, hpairs⟩ := relay_keeps_order (fun _ => { opsLeft := none }) (fun _ => rfl) inOrderRun
    x hx whole_inOrderRun
  obtain ⟨-, hworks⟩ := hpairs 0 firstTwo (pairOf_two hhandlers rfl rfl rfl rfl) .sender
  have hnot : ¬ (x.destinations 1).Dead := by
    rw [Destination.Dead, (Option.some.inj hlive : (x.destinations 1).opsLeft = none)]
    simp [Allows]
  have hrelays : Relays x.hub 0 (some 0) (some 1) := ⟨_, 0, by rw [hhandlers]; rfl, rfl⟩
  exact ⟨x, hx, (hworks hnot).2 0 1 hrelays (Option.isNone_iff_eq_none.mp hturn)⟩

end RelayTraffic

end FastTransfer.Server
