import FastTransfer.Lib.Runs
import FastTransfer.Lib.Tally
import Mathlib.Logic.Function.Basic

/-!
# Candidates and descriptions

`handleOffer`, `handleAnswer` and `addIceCandidate` of `web/static/js/transfer.js`.
A call runs to its first await, and goes on when the promise that it awaits is
settled; other calls may run in between, and may reach the same connection.

A candidate is one that `new RTCIceCandidate` accepts; a description is one that
`_fixSDP` and `new RTCSessionDescription` accept. An index is a number.
-/

namespace FastTransfer.Web.Candidates

variable {κ : Type*}

/-- What an `RTCPeerConnection` has been given. -/
inductive Given (κ : Type*) where
  | remoteDescription
  | iceCandidate (candidate : κ)
  deriving DecidableEq

/-- An element of `connections`. -/
structure Connection (κ : Type*) where
  index : Nat
  remoteDescriptionSet : Bool := false
  pendingCandidates : List κ := []
  /-- What `pc` has been given, in order. -/
  pc : List (Given κ) := []
  deriving DecidableEq

/-- The types of session descriptions. -/
inductive SdpType where
  | offer
  | answer
  deriving DecidableEq

/-- The awaits of `handleOffer` and `handleAnswer`. A `for` loop reads its array
as it goes, but nothing is added to either array once its loop has begun: the
connection is in `connections` by then, and described. So a loop is the rest of
what it found. -/
inductive Awaits (κ : Type*) where
  | remoteDescription
  | globalPending (rest : List κ)
  | pending (rest : List κ)
  | createAnswer
  | localDescription
  deriving DecidableEq

/-- A call, at its await or over. -/
inductive Call (κ : Type*) where
  /-- `handleOffer` or `handleAnswer`, with its `payload.index` and `conn`. -/
  | handle (type : SdpType) (index conn : Nat) (awaits : Awaits κ)
  /-- `addIceCandidate` at its await. -/
  | addIceCandidate
  | returned
  deriving DecidableEq

/-- The fields of a `TransferEngine` that negotiation uses, and the calls on it. -/
structure Engine (κ : Type*) where
  /-- The connections that were made; other fields have places in this list. -/
  heap : List (Connection κ) := []
  /-- `connections`, where `none` is `null`. -/
  connections : List (Option Nat) := []
  /-- `_globalPendingIce`; no entries at first. -/
  globalPendingIce : Nat → Option (List κ) := fun _ => none
  calls : List (Call κ) := []

namespace Engine

/-- `connections[index]`, unless it is `null` or `undefined`. -/
def connection (e : Engine κ) (index : Nat) : Option Nat := e.connections[index]?.join

/-- A write to connection `p`. -/
def modify (e : Engine κ) (p : Nat) (f : Connection κ → Connection κ) : Engine κ :=
  { e with heap := e.heap.modify p f }

/-- `conn.pc.addIceCandidate`. -/
def give (e : Engine κ) (p : Nat) (c : κ) : Engine κ :=
  e.modify p fun conn => { conn with pc := conn.pc ++ [.iceCandidate c] }

/-- The loop over `conn.pendingCandidates` and what follows it, to the next await. -/
def applyPending (e : Engine κ) (type : SdpType) (index p : Nat) : List κ → Engine κ × Call κ
  | c :: rest => (e.give p c, .handle type index p (.pending rest))
  | [] =>
      (e.modify p fun conn => { conn with pendingCandidates := [] },
        match type with
        | .offer => .handle type index p .createAnswer
        | .answer => .returned)

/-- From the start of the loop over `conn.pendingCandidates`. -/
def afterGlobal (e : Engine κ) (type : SdpType) (index p : Nat) : Engine κ × Call κ :=
  e.applyPending type index p ((e.heap[p]?.map (·.pendingCandidates)).getD [])

/-- The loop over `_globalPendingIce[index]` and what follows it, to the next await. -/
def applyGlobal (e : Engine κ) (type : SdpType) (index p : Nat) : List κ → Engine κ × Call κ
  | c :: rest => (e.give p c, .handle type index p (.globalPending rest))
  | [] =>
      { e with globalPendingIce := Function.update e.globalPendingIce index none }.afterGlobal
        type index p

/-- `conn.pc.setRemoteDescription` has succeeded, and `remoteDescriptionSet` is set. -/
def describe (e : Engine κ) (p : Nat) : Engine κ :=
  e.modify p fun conn =>
    { conn with remoteDescriptionSet := true, pc := conn.pc ++ [.remoteDescription] }

/-- What follows that, to the next await. -/
def described (e : Engine κ) (type : SdpType) (index p : Nat) : Engine κ × Call κ :=
  match type, e.globalPendingIce index with
  | .offer, some candidates => e.applyGlobal type index p candidates
  | .offer, none | .answer, _ => e.afterGlobal type index p

/-- The promise that a call awaits is fulfilled or rejected. The loops catch what
`addIceCandidate` throws; nothing else is caught. -/
def settled (e : Engine κ) (type : SdpType) (index p : Nat) (fulfilled : Bool) :
    Awaits κ → Engine κ × Call κ
  | .remoteDescription =>
      if fulfilled then (e.describe p).described type index p else (e, .returned)
  | .globalPending rest => e.applyGlobal type index p rest
  | .pending rest => e.applyPending type index p rest
  | .createAnswer =>
      (e, if fulfilled then .handle type index p .localDescription else .returned)
  | .localDescription => (e, .returned)

/-- `handleOffer` to its first await. -/
def handleOffer (e : Engine κ) (index : Nat) : Engine κ :=
  { e with
    heap := e.heap ++ [{ index }]
    connections :=
      (e.connections ++ List.replicate (index + 1 - e.connections.length) none).set index
        (some e.heap.length)
    calls := e.calls ++ [.handle .offer index e.heap.length .remoteDescription] }

/-- `handleAnswer` to its first await. -/
def handleAnswer (e : Engine κ) (index : Nat) : Engine κ :=
  match e.connection index with
  | none => e
  | some p => { e with calls := e.calls ++ [.handle .answer index p .remoteDescription] }

/-- `addIceCandidate` to its await, if it gets there. -/
def addIceCandidate (e : Engine κ) (index : Nat) : Option κ → Engine κ
  | none => e
  | some c =>
      match e.connection index with
      | none =>
          { e with
            globalPendingIce :=
              Function.update e.globalPendingIce index
                (some ((e.globalPendingIce index).getD [] ++ [c])) }
      | some p =>
          if e.heap[p]?.any (·.remoteDescriptionSet) then
            { e.give p c with calls := e.calls ++ [.addIceCandidate] }
          else
            e.modify p fun conn =>
              { conn with pendingCandidates := conn.pendingCandidates ++ [c] }

/-- Call number `n` goes on to its next await. -/
def resume (e : Engine κ) (n : Nat) (call : Call κ) : Engine κ :=
  { e with calls := e.calls.set n call }

end Engine

/-- A call is made, or what a call awaits is settled. -/
inductive Action (κ : Type*) where
  | handleOffer (index : Nat)
  | handleAnswer (index : Nat)
  | addIceCandidate (index : Nat) (candidate : Option κ)
  /-- What call number `n` awaits is settled. -/
  | settle (n : Nat) (fulfilled : Bool)
  deriving DecidableEq

/-- One step of the engine. -/
def step (e : Engine κ) : Action κ → Option (Engine κ)
  | .handleOffer index => some (e.handleOffer index)
  | .handleAnswer index => some (e.handleAnswer index)
  | .addIceCandidate index candidate => some (e.addIceCandidate index candidate)
  | .settle n fulfilled =>
      match e.calls[n]? with
      | some (.handle type index p awaits) =>
          let x := e.settled type index p fulfilled awaits
          some (x.1.resume n x.2)
      | some .addIceCandidate => some (e.resume n .returned)
      | some .returned | none => none

/-- An engine with the connections that `createOffer` has made: none on the
receiver's side. -/
def start (n : Nat) : Engine κ where
  heap := (List.range n).map fun i => { index := i }
  connections := (List.range n).map some

/-! ## What a step can change -/

/-- The index that a description call is about. -/
def Call.index : Call κ → Option Nat
  | .handle _ index _ _ => some index
  | .addIceCandidate | .returned => none

namespace Engine

/-- The calls of `handleOffer` and `handleAnswer` for an index that have not returned. -/
def callsOf (e : Engine κ) (i : Nat) : List (Call κ) :=
  e.calls.filter fun call => call.index = some i

/-- The index of connection `p`. -/
def owner (e : Engine κ) (p : Nat) : Option Nat := e.heap[p]?.map (·.index)

/-- The connections that an index leads to are connections of that index. -/
structure Owned (e : Engine κ) : Prop where
  placed : ∀ i p, e.connection i = some p → e.owner p = some i
  called : ∀ type i p w, .handle type i p w ∈ e.calls → e.owner p = some i

/-- What can change while a call runs that has connection `p` and index `j`. -/
structure Within (j p : Nat) (e e' : Engine κ) : Prop where
  connections : e'.connections = e.connections
  calls : e'.calls = e.calls
  heap : ∀ q, q ≠ p → e'.heap[q]? = e.heap[q]?
  owner : ∀ q, e'.owner q = e.owner q
  globals : ∀ k, k ≠ j → e'.globalPendingIce k = e.globalPendingIce k

section Within

variable {e e' e'' : Engine κ} {j p q : Nat} {conn : Connection κ}
  {f : Connection κ → Connection κ} {type : SdpType}

theorem heap_modify_self (h : e.heap[p]? = some conn) :
    (e.modify p f).heap[p]? = some (f conn) := by
  rw [modify, List.getElem?_modify_eq, h]
  rfl

theorem heap_modify_ne (h : q ≠ p) : (e.modify p f).heap[q]? = e.heap[q]? := by
  show (e.heap.modify p f)[q]? = _
  rw [List.getElem?_modify_ne f _ h.symm]

theorem Within.refl (e : Engine κ) : Within j p e e :=
  ⟨rfl, rfl, fun _ _ => rfl, fun _ => rfl, fun _ _ => rfl⟩

theorem Within.trans (h : Within j p e e') (h' : Within j p e' e'') : Within j p e e'' where
  connections := h'.connections.trans h.connections
  calls := h'.calls.trans h.calls
  heap q hq := (h'.heap q hq).trans (h.heap q hq)
  owner q := (h'.owner q).trans (h.owner q)
  globals k hk := (h'.globals k hk).trans (h.globals k hk)

theorem within_modify (hf : ∀ conn, (f conn).index = conn.index) :
    Within j p e (e.modify p f) where
  connections := rfl
  calls := rfl
  heap _ hq := heap_modify_ne hq
  owner q := by
    by_cases hq : q = p
    · subst hq
      cases h : e.heap[q]? with
      | none =>
          rw [Engine.owner, Engine.owner, modify, List.getElem?_modify_eq, h]
          rfl
      | some conn =>
          rw [Engine.owner, Engine.owner, heap_modify_self h, h]
          exact congrArg some (hf conn)
    · rw [Engine.owner, Engine.owner, heap_modify_ne hq]
  globals _ _ := rfl

theorem within_give (c : κ) : Within j p e (e.give p c) := within_modify fun _ => rfl

theorem within_describe (e : Engine κ) : Within j p e (e.describe p) := within_modify fun _ => rfl

theorem within_update (cs : Option (List κ)) :
    Within j p e { e with globalPendingIce := Function.update e.globalPendingIce j cs } where
  connections := rfl
  calls := rfl
  heap _ _ := rfl
  owner _ := rfl
  globals _ hk := Function.update_of_ne hk _ _

/-- A call goes on: it keeps to its connection and its index, to the next await. -/
structure GoesOn (type : SdpType) (j p : Nat) (e : Engine κ) (x : Engine κ × Call κ) : Prop where
  within : Within j p e x.1
  call : x.2 = .returned ∨ ∃ w, x.2 = .handle type j p w

theorem GoesOn.after {x : Engine κ × Call κ} (h : Within j p e e')
    (h' : GoesOn type j p e' x) : GoesOn type j p e x :=
  ⟨h.trans h'.within, h'.call⟩

theorem goesOn_applyPending (e : Engine κ) (type : SdpType) (j p : Nat) (cs : List κ) :
    GoesOn type j p e (e.applyPending type j p cs) := by
  cases cs with
  | nil =>
      refine ⟨within_modify fun _ => rfl, ?_⟩
      cases type with
      | offer => exact .inr ⟨_, rfl⟩
      | answer => exact .inl rfl
  | cons c rest => exact ⟨within_give c, .inr ⟨_, rfl⟩⟩

theorem goesOn_applyGlobal (e : Engine κ) (type : SdpType) (j p : Nat) (cs : List κ) :
    GoesOn type j p e (e.applyGlobal type j p cs) := by
  cases cs with
  | nil => exact .after (within_update none) (goesOn_applyPending _ _ _ _ _)
  | cons c rest => exact ⟨within_give c, .inr ⟨_, rfl⟩⟩

theorem goesOn_described (e : Engine κ) (type : SdpType) (j p : Nat) :
    GoesOn type j p e (e.described type j p) := by
  unfold described
  split
  · exact goesOn_applyGlobal _ _ _ _ _
  · exact goesOn_applyPending _ _ _ _ _
  · exact goesOn_applyPending _ _ _ _ _

theorem goesOn_settled (e : Engine κ) (type : SdpType) (j p : Nat) (fulfilled : Bool)
    (w : Awaits κ) : GoesOn type j p e (e.settled type j p fulfilled w) := by
  cases w with
  | remoteDescription =>
      cases fulfilled with
      | true => exact .after (within_describe e) (goesOn_described _ type j p)
      | false => exact ⟨.refl e, .inl rfl⟩
  | globalPending rest => exact goesOn_applyGlobal e type j p rest
  | pending rest => exact goesOn_applyPending e type j p rest
  | createAnswer =>
      cases fulfilled with
      | true => exact ⟨.refl e, .inr ⟨_, rfl⟩⟩
      | false => exact ⟨.refl e, .inl rfl⟩
  | localDescription => exact ⟨.refl e, .inl rfl⟩

end Within

end Engine

open Engine

/-- What a step can do. -/
inductive Steps (e : Engine κ) : Action κ → Engine κ → Prop where
  | handleOffer (index : Nat) : Steps e (.handleOffer index) (e.handleOffer index)
  | handleAnswer (index : Nat) : Steps e (.handleAnswer index) (e.handleAnswer index)
  | addIceCandidate (index : Nat) (candidate : Option κ) :
      Steps e (.addIceCandidate index candidate) (e.addIceCandidate index candidate)
  | handle {n index p : Nat} {type : SdpType} {w : Awaits κ} (fulfilled : Bool)
      (h : e.calls[n]? = some (.handle type index p w)) :
      Steps e (.settle n fulfilled)
        ((e.settled type index p fulfilled w).1.resume n (e.settled type index p fulfilled w).2)
  | added {n : Nat} (fulfilled : Bool) (h : e.calls[n]? = some .addIceCandidate) :
      Steps e (.settle n fulfilled) (e.resume n .returned)

theorem steps_of_step {e e' : Engine κ} {a : Action κ} (h : step e a = some e') :
    Steps e a e' := by
  cases a with
  | handleOffer index =>
      obtain rfl := Option.some.inj h
      exact .handleOffer index
  | handleAnswer index =>
      obtain rfl := Option.some.inj h
      exact .handleAnswer index
  | addIceCandidate index candidate =>
      obtain rfl := Option.some.inj h
      exact .addIceCandidate index candidate
  | settle n fulfilled =>
      rw [step] at h
      split at h
      · obtain rfl := Option.some.inj h
        exact .handle fulfilled ‹_›
      · obtain rfl := Option.some.inj h
        exact .added fulfilled ‹_›
      · cases h
      · cases h

/-- The index that a step is about. -/
def Action.index (e : Engine κ) : Action κ → Option Nat
  | .handleOffer index | .handleAnswer index | .addIceCandidate index _ => some index
  | .settle n _ => e.calls[n]?.bind Call.index

/-- Nothing that belongs to an index has changed. -/
structure Untouched (i : Nat) (e e' : Engine κ) : Prop where
  connection : e'.connection i = e.connection i
  heap : ∀ p, e.owner p = some i → e'.heap[p]? = e.heap[p]?
  globals : e'.globalPendingIce i = e.globalPendingIce i
  calls : e'.callsOf i = e.callsOf i

section Steps

variable {e e' : Engine κ} {a : Action κ} {i j p : Nat}

theorem connection_handleOffer_self (e : Engine κ) (i : Nat) :
    (e.handleOffer i).connection i = some e.heap.length := by
  rw [Engine.connection, handleOffer, List.getElem?_set_self]
  · rfl
  · rw [List.length_append, List.length_replicate]
    omega

theorem connection_handleOffer_ne (e : Engine κ) (h : i ≠ j) :
    (e.handleOffer j).connection i = e.connection i := by
  rw [Engine.connection, handleOffer, List.getElem?_set_ne h.symm, List.getElem?_append]
  split_ifs with hi
  · rfl
  · rw [List.getElem?_replicate, Engine.connection, List.getElem?_eq_none (Nat.le_of_not_lt hi)]
    split_ifs
    · rfl
    · rfl

theorem heap_handleOffer_self (e : Engine κ) (j : Nat) :
    (e.handleOffer j).heap[e.heap.length]? = some { index := j } :=
  List.getElem?_concat_length

theorem heap_handleOffer_of_owner (h : e.owner p = some i) :
    (e.handleOffer j).heap[p]? = e.heap[p]? := by
  obtain ⟨conn, hconn, -⟩ := Option.map_eq_some_iff.mp h
  exact (Tally.getElem?_concat_of_some hconn).trans hconn.symm

theorem callsOf_push {call : Call κ} (hcall : call.index ≠ some i) :
    { e with calls := e.calls ++ [call] }.callsOf i = e.callsOf i := by
  refine (List.filter_append _ _).trans ?_
  rw [List.filter_cons_of_neg (by simpa using hcall)]
  exact List.append_nil _

theorem callsOf_resume {n : Nat} {old call : Call κ} (h : e.calls[n]? = some old)
    (hold : old.index ≠ some i) (hcall : call.index ≠ some i) :
    (e.resume n call).callsOf i = e.callsOf i :=
  Tally.filter_set_of_not h (decide_eq_false hold) (decide_eq_false hcall)

theorem Engine.Within.untouched (h : Within j p e e') (hp : e.owner p = some j) (hij : i ≠ j) :
    Untouched i e e' where
  connection := by rw [Engine.connection, Engine.connection, h.connections]
  heap q hq := by
    apply h.heap q
    intro heq
    rw [heq, hp] at hq
    exact hij (Option.some.inj hq).symm
  globals := h.globals i hij
  calls := by rw [callsOf, callsOf, h.calls]

theorem untouched_addIceCandidate (hown : Owned e) (hij : i ≠ j) (candidate : Option κ) :
    Untouched i e (e.addIceCandidate j candidate) := by
  cases candidate with
  | none => exact ⟨rfl, fun _ _ => rfl, rfl, rfl⟩
  | some c =>
      rw [addIceCandidate]
      split
      · exact ⟨rfl, fun _ _ => rfl, Function.update_of_ne hij _ _, rfl⟩
      · have hp := hown.placed j _ ‹_›
        split_ifs
        · have hgive := (within_give (e := e) (j := j) c).untouched hp hij
          exact ⟨hgive.connection, hgive.heap, hgive.globals,
            (callsOf_push (by simp [Call.index])).trans hgive.calls⟩
        · exact Engine.Within.untouched (within_modify fun _ => rfl) hp hij

/-- **A step about another index changes nothing.** -/
theorem Steps.untouched (h : Steps e a e') (hown : Owned e) (ha : a.index e ≠ some i) :
    Untouched i e e' := by
  cases h with
  | handleOffer j =>
      have hij : i ≠ j := fun heq => ha (congrArg some heq.symm)
      exact ⟨connection_handleOffer_ne e hij, fun p hp => heap_handleOffer_of_owner hp, rfl,
        callsOf_push ha⟩
  | handleAnswer j =>
      show Untouched i e (Engine.handleAnswer e j)
      rw [Engine.handleAnswer]
      split
      · exact ⟨rfl, fun _ _ => rfl, rfl, rfl⟩
      · exact ⟨rfl, fun _ _ => rfl, rfl, callsOf_push ha⟩
  | addIceCandidate j candidate =>
      exact untouched_addIceCandidate hown (fun heq => ha (congrArg some heq.symm)) candidate
  | @handle n j p type w fulfilled hcall =>
      have hj : some j ≠ some i := by simpa [Action.index, hcall, Call.index] using ha
      have hgoes := goesOn_settled e type j p fulfilled w
      have hframe := hgoes.within.untouched (hown.called type j p w (List.mem_of_getElem? hcall))
        fun heq => hj (congrArg some heq.symm)
      refine ⟨hframe.connection, hframe.heap, hframe.globals, ?_⟩
      rw [← hgoes.within.calls] at hcall
      refine (callsOf_resume hcall hj ?_).trans hframe.calls
      rcases hgoes.call with hreturned | ⟨w', hnext⟩
      · rw [hreturned]
        exact nofun
      · rw [hnext]
        exact hj
  | @added n fulfilled hcall =>
      exact ⟨rfl, fun _ _ => rfl, rfl, callsOf_resume hcall nofun nofun⟩

theorem Engine.Owned.within (hown : Owned e) (h : Within j p e e') : Owned e' where
  placed i q hq := by
    rw [Engine.connection, h.connections] at hq
    exact (h.owner q).trans (hown.placed i q hq)
  called type i q w hcall := by
    rw [h.calls] at hcall
    exact (h.owner q).trans (hown.called type i q w hcall)

theorem Engine.Owned.push (hown : Owned e) {call : Call κ}
    (hcall : ∀ type i p w, call = .handle type i p w → e.owner p = some i) :
    Owned { e with calls := e.calls ++ [call] } where
  placed := hown.placed
  called type i p w hmem := by
    rcases List.mem_append.mp hmem with hold | hnew
    · exact hown.called type i p w hold
    · exact hcall type i p w (List.mem_singleton.mp hnew).symm

theorem Engine.Owned.resume (hown : Owned e) (n : Nat) {call : Call κ}
    (hcall : ∀ type i p w, call = .handle type i p w → e.owner p = some i) :
    Owned (e.resume n call) where
  placed := hown.placed
  called type i p w hmem := by
    rcases List.mem_or_eq_of_mem_set hmem with hold | hnew
    · exact hown.called type i p w hold
    · exact hcall type i p w hnew.symm

theorem owned_handleOffer (hown : Owned e) (j : Nat) : Owned (e.handleOffer j) where
  placed i p hp := by
    by_cases hij : i = j
    · subst hij
      rw [connection_handleOffer_self] at hp
      obtain rfl := Option.some.inj hp
      rw [Engine.owner, heap_handleOffer_self]
      rfl
    · rw [connection_handleOffer_ne e hij] at hp
      have howner := hown.placed i p hp
      rw [Engine.owner, heap_handleOffer_of_owner howner]
      exact howner
  called type i p w hmem := by
    rcases List.mem_append.mp hmem with hold | hnew
    · have howner := hown.called type i p w hold
      rw [Engine.owner, heap_handleOffer_of_owner howner]
      exact howner
    · cases List.mem_singleton.mp hnew
      rw [Engine.owner, heap_handleOffer_self]
      rfl

theorem owned_addIceCandidate (hown : Owned e) (j : Nat) (candidate : Option κ) :
    Owned (e.addIceCandidate j candidate) := by
  cases candidate with
  | none => exact hown
  | some c =>
      rw [addIceCandidate]
      split
      · exact ⟨hown.placed, hown.called⟩
      · split_ifs
        · exact (hown.within (within_give (j := j) c)).push nofun
        · exact hown.within (within_modify (j := j) fun _ => rfl)

/-- **Ownership is kept.** -/
theorem Steps.owned (h : Steps e a e') (hown : Owned e) : Owned e' := by
  cases h with
  | handleOffer j => exact owned_handleOffer hown j
  | handleAnswer j =>
      show Owned (Engine.handleAnswer e j)
      rw [Engine.handleAnswer]
      split
      · exact hown
      · apply hown.push
        rintro _ _ _ _ ⟨⟩
        exact hown.placed j _ ‹_›
  | addIceCandidate j candidate => exact owned_addIceCandidate hown j candidate
  | @handle n j p type w fulfilled hcall =>
      have hgoes := goesOn_settled e type j p fulfilled w
      have hp := hown.called type j p w (List.mem_of_getElem? hcall)
      apply (hown.within hgoes.within).resume
      intro type' i q w' heq
      rcases hgoes.call with hreturned | ⟨w'', hnext⟩
      · rw [hreturned] at heq
        cases heq
      · rw [hnext] at heq
        cases heq
        exact (hgoes.within.owner p).trans hp
  | @added n fulfilled hcall => exact hown.resume n nofun

end Steps

end FastTransfer.Web.Candidates
