import Mathlib.Logic.Function.Basic
import FastTransfer.Lib.Runs
import FastTransfer.Lib.Tally

/-!
# The pairing of WebSocket relay connections

`HandleRelayWS` of `internal/handlers/relay_ws.go`, for any number of
connections with any query strings. A step runs one handler up to its next
operation on shared data: the map of pairs, the fields of a pair under its
lock, the `ready` channel, the connection. A relay loop may return at any time.
Connections are numbered in the order in which they are accepted; the handler
of a connection has the same number.
-/

namespace FastTransfer.Server

/-- The role of a client, or of a connection. -/
inductive Role where
  | sender
  | receiver
  deriving DecidableEq

/-- The role of the peer. -/
def Role.opposite : Role → Role
  | .sender => .receiver
  | .receiver => .sender

@[simp] theorem Role.opposite_opposite (role : Role) : role.opposite.opposite = role := by
  cases role <;> rfl

@[simp] theorem Role.opposite_ne (role : Role) : role.opposite ≠ role := by
  cases role <;> decide

theorem Role.eq_or_eq_opposite (role role' : Role) : role' = role ∨ role' = role.opposite := by
  cases role <;> cases role' <;> first | exact .inl rfl | exact .inr rfl

/-- What holds for a role and for the opposite one holds for both. -/
theorem Role.forall_of_opposite {p : Role → Prop} {role : Role} (hself : p role)
    (hother : p role.opposite) (role' : Role) : p role' := by
  rcases role.eq_or_eq_opposite role' with rfl | rfl
  · exact hself
  · exact hother

theorem Role.opposite_injective {role role' : Role} (h : role.opposite = role'.opposite) :
    role = role' := by
  cases role <;> cases role' <;> first | rfl | cases h

/-! Places for both roles, in a pair of relay connections or in a room. -/

theorem Role.both_isSome {α : Type} (places : Role → Option α) :
    ((places .sender).isSome && (places .receiver).isSome) = true ↔
      ∀ role, places role ≠ none := by
  simp only [Bool.and_eq_true, Option.isSome_iff_ne_none]
  constructor
  · rintro ⟨hs, hr⟩ role
    cases role
    · exact hs
    · exact hr
  · exact fun h => ⟨h .sender, h .receiver⟩

/-- A place that is taken stays taken. -/
theorem Role.update_ne_none {α : Type} {places : Role → Option α} {role' : Role}
    (h : places role' ≠ none) (role : Role) (a : α) :
    Function.update places role (some a) role' ≠ none := by
  by_cases hrole : role' = role
  · simp [hrole]
  · rwa [Function.update_of_ne hrole]

/-- The parameters of `/ws-relay`; a missing one is the empty string. -/
structure Query where
  room : String
  role : String
  idx : String

/-- A request that `HandleRelayWS` accepts. -/
structure Request where
  room : String
  role : Role
  idx : String
  deriving DecidableEq

/-- The check of the parameters; `none` is the answer 400. -/
def Query.request (q : Query) : Option Request :=
  let idx := if q.idx = "" then "0" else q.idx
  if q.room = "" then none
  else if q.role = "sender" then some ⟨q.room, .sender, idx⟩
  else if q.role = "receiver" then some ⟨q.room, .receiver, idx⟩
  else none

/-- Key = room + index. -/
def Request.key (r : Request) : String := r.room ++ ":" ++ r.idx

/-- A `relayPair`: the connections of its two places, by the numbers of their handlers. -/
structure RelayPair where
  sender : Option Nat := none
  receiver : Option Nat := none
  /-- How often `ready` has been closed. -/
  closes : Nat := 0
  deriving DecidableEq

namespace RelayPair

/-- Put a connection into the place of its role. -/
def store (pair : RelayPair) (role : Role) (conn : Nat) : RelayPair :=
  match role with
  | .sender => { pair with sender := some conn }
  | .receiver => { pair with receiver := some conn }

/-- `pair.sender != nil && pair.receiver != nil`. -/
def bothReady (pair : RelayPair) : Bool := pair.sender.isSome && pair.receiver.isSome

end RelayPair

/-- Where a handler stands, with its variable `pair` from `getOrCreatePair` on. -/
inductive Pc where
  /-- The connection is upgraded. -/
  | upgraded
  | gotPair (pair : Nat)
  /-- The connection is stored in the pair, and `bothReady` computed. -/
  | stored (pair : Nat) (bothReady : Bool)
  /-- `ready` is closed. -/
  | released (pair : Nat)
  /-- In `wsRelay`. -/
  | relaying (pair : Nat) (src dst : Option Nat)
  | relayed (pair : Nat)
  | connClosed (pair : Nat)
  | done (pair : Nat)
  /-- `close(pair.ready)` panicked. -/
  | panicked (pair : Nat)
  deriving DecidableEq

/-- A call of `HandleRelayWS`. -/
structure Handler where
  request : Request
  pc : Pc := .upgraded
  deriving DecidableEq

/-- The hub with its map of pairs, and the handlers in the order of their requests. -/
structure RelayWSHub where
  pairs : String → Option Nat := fun _ => none
  /-- All pairs that were ever created. -/
  heap : List RelayPair := []
  handlers : List Handler := []

namespace RelayWSHub

/-- `getOrCreatePair`, under the lock of the hub: the place of the pair. -/
def getOrCreatePair (s : RelayWSHub) (key : String) : Nat × RelayWSHub :=
  match s.pairs key with
  | some p => (p, s)
  | none =>
      (s.heap.length, { s with
        pairs := Function.update s.pairs key (some s.heap.length), heap := s.heap ++ [{}] })

/-- `removePair`, under the lock of the hub. -/
def removePair (s : RelayWSHub) (key : String) : RelayWSHub :=
  { s with pairs := Function.update s.pairs key none }

/-- The handler `h` goes on to `pc`. -/
def goto (s : RelayWSHub) (h : Nat) (handler : Handler) (pc : Pc) : RelayWSHub :=
  { s with handlers := s.handlers.set h { handler with pc } }

/-- A pair after a write. -/
def setPair (s : RelayWSHub) (p : Nat) (pair : RelayPair) : RelayWSHub :=
  { s with heap := s.heap.set p pair }

/-- The next step of the handler `h`. -/
def handleRelayWS (s : RelayWSHub) (h : Nat) : Option RelayWSHub := do
  let handler ← s.handlers[h]?
  match handler.pc with
  | .upgraded =>
      let (p, s) := s.getOrCreatePair handler.request.key
      some (s.goto h handler (.gotPair p))
  | .gotPair p => do
      let pair ← s.heap[p]?
      let pair := pair.store handler.request.role h
      some ((s.setPair p pair).goto h handler (.stored p pair.bothReady))
  | .stored p true => do
      let pair ← s.heap[p]?
      let s := s.setPair p { pair with closes := pair.closes + 1 }
      -- closing a closed channel panics
      some (s.goto h handler (if pair.closes = 0 then .released p else .panicked p))
  | .stored p false => do
      let pair ← s.heap[p]?
      if pair.closes = 0 then none else some (s.goto h handler (.released p))
  | .released p => do
      let pair ← s.heap[p]?
      some (s.goto h handler (match handler.request.role with
        | .sender => .relaying p pair.sender pair.receiver
        | .receiver => .relaying p pair.receiver pair.sender))
  | .relaying p _ _ => some (s.goto h handler (.relayed p))
  | .relayed p => some (s.goto h handler (.connClosed p))
  | .connClosed p => some ((s.removePair handler.request.key).goto h handler (.done p))
  | .done _ | .panicked _ => none

/-- A client connects, or the handler `h` takes a step. -/
inductive Action where
  | connect (q : Query)
  | handle (h : Nat)

/-- One step of the hub. -/
def step (s : RelayWSHub) : Action → Option RelayWSHub
  | .connect q => q.request.map fun request =>
      { s with handlers := s.handlers ++ [{ request }] }
  | .handle h => s.handleRelayWS h

/-! ## The steps of a handler -/

/-- The steps of the handler `h`, by where it stands. -/
inductive Steps (s : RelayWSHub) (h : Nat) (handler : Handler) : RelayWSHub → Prop where
  | getPair (hpc : handler.pc = .upgraded) :
      Steps s h handler ((s.getOrCreatePair handler.request.key).2.goto h handler
        (.gotPair (s.getOrCreatePair handler.request.key).1))
  | store {p : Nat} {pair : RelayPair} (hpc : handler.pc = .gotPair p)
      (hpair : s.heap[p]? = some pair) :
      Steps s h handler ((s.setPair p (pair.store handler.request.role h)).goto h handler
        (.stored p (pair.store handler.request.role h).bothReady))
  | close {p : Nat} {pair : RelayPair} (hpc : handler.pc = .stored p true)
      (hpair : s.heap[p]? = some pair) :
      Steps s h handler ((s.setPair p { pair with closes := pair.closes + 1 }).goto h handler
        (if pair.closes = 0 then .released p else .panicked p))
  | wait {p : Nat} {pair : RelayPair} (hpc : handler.pc = .stored p false)
      (hpair : s.heap[p]? = some pair) (hclosed : pair.closes ≠ 0) :
      Steps s h handler (s.goto h handler (.released p))
  | relay {p : Nat} {pair : RelayPair} (hpc : handler.pc = .released p)
      (hpair : s.heap[p]? = some pair) :
      Steps s h handler (s.goto h handler (match handler.request.role with
        | .sender => .relaying p pair.sender pair.receiver
        | .receiver => .relaying p pair.receiver pair.sender))
  | relayEnd {p : Nat} {src dst : Option Nat} (hpc : handler.pc = .relaying p src dst) :
      Steps s h handler (s.goto h handler (.relayed p))
  | closeConn {p : Nat} (hpc : handler.pc = .relayed p) :
      Steps s h handler (s.goto h handler (.connClosed p))
  | removePair {p : Nat} (hpc : handler.pc = .connClosed p) :
      Steps s h handler ((s.removePair handler.request.key).goto h handler (.done p))

theorem steps_of_handle {s s' : RelayWSHub} {h : Nat} (hs : s.handleRelayWS h = some s') :
    ∃ handler, s.handlers[h]? = some handler ∧ Steps s h handler s' := by
  obtain ⟨handler, hh, hs⟩ := Option.bind_eq_some_iff.mp hs
  refine ⟨handler, hh, ?_⟩
  cases hpc : handler.pc with
  | upgraded =>
      simp only [hpc, Option.some.injEq] at hs
      exact hs ▸ .getPair hpc
  | gotPair p =>
      simp only [hpc] at hs
      obtain ⟨pair, hpair, hs⟩ := Option.bind_eq_some_iff.mp hs
      exact Option.some.inj hs ▸ .store hpc hpair
  | stored p bothReady =>
      cases bothReady with
      | true =>
          simp only [hpc] at hs
          obtain ⟨pair, hpair, hs⟩ := Option.bind_eq_some_iff.mp hs
          exact Option.some.inj hs ▸ .close hpc hpair
      | false =>
          simp only [hpc] at hs
          obtain ⟨pair, hpair, hs⟩ := Option.bind_eq_some_iff.mp hs
          obtain ⟨hclosed, hs⟩ := Option.ite_none_left_eq_some.mp hs
          exact Option.some.inj hs ▸ .wait hpc hpair hclosed
  | released p =>
      simp only [hpc] at hs
      obtain ⟨pair, hpair, hs⟩ := Option.bind_eq_some_iff.mp hs
      exact Option.some.inj hs ▸ .relay hpc hpair
  | relaying p src dst =>
      simp only [hpc, Option.some.injEq] at hs
      exact hs ▸ .relayEnd hpc
  | relayed p =>
      simp only [hpc, Option.some.injEq] at hs
      exact hs ▸ .closeConn hpc
  | connClosed p =>
      simp only [hpc, Option.some.injEq] at hs
      exact hs ▸ .removePair hpc
  | done p | panicked p => simp [hpc] at hs

/-! ## One close for each pair -/

/-- The pair that a handler is about to store its connection in. -/
def storesIn (handler : Handler) : Option Nat :=
  match handler.pc with
  | .gotPair p => some p
  | _ => none

/-- No connection is stored in a pair that has a sender and a receiver. -/
def KeepsPairs (s : RelayWSHub) : Action → Prop
  | .connect _ => True
  | .handle h => ∀ handler ∈ s.handlers[h]?, ∀ p ∈ storesIn handler, ∀ pair ∈ s.heap[p]?,
      pair.bothReady = false

instance decidableKeepsPairs (s : RelayWSHub) (a : Action) : Decidable (KeepsPairs s a) := by
  cases a <;> unfold KeepsPairs <;> infer_instance

/-- 1 for a handler that is about to close the channel of the pair `p`. -/
def closing (p : Nat) (handler : Handler) : Nat :=
  if handler.pc = .stored p true then 1 else 0

/-- How many handlers are about to close the channel of the pair `p`. -/
def closers (s : RelayWSHub) (p : Nat) : Nat := (s.handlers.map (closing p)).sum

/-- The pair that a handler works with. -/
def Pc.pair : Pc → Option Nat
  | .upgraded => none
  | .gotPair p | .stored p _ | .released p | .relaying p _ _ | .relayed p | .connClosed p
  | .done p | .panicked p => some p

/-- **The pairing invariant**: the channel of a pair has been closed, or is about
to be closed by one handler, exactly when the pair is complete. -/
structure Paired (s : RelayWSHub) : Prop where
  mapped : ∀ key p, s.pairs key = some p → p < s.heap.length
  known : ∀ handler ∈ s.handlers, ∀ p ∈ Pc.pair handler.pc, p < s.heap.length
  once : ∀ p pair, s.heap[p]? = some pair → pair.closes + s.closers p = pair.bothReady.toNat
  running : ∀ handler ∈ s.handlers, ∀ p, handler.pc ≠ .panicked p

theorem paired_empty : Paired {} where
  mapped := by simp
  known := by simp
  once := by simp
  running := by simp

section Steps

variable {s : RelayWSHub} {h p : Nat} {handler : Handler} {pair : RelayPair}

theorem closers_goto (hh : s.handlers[h]? = some handler) (pc : Pc) (q : Nat) :
    (s.goto h handler pc).closers q + closing q handler =
      s.closers q + closing q { handler with pc } :=
  Tally.sum_map_set (closing q) hh

/-- A handler goes on without closing or changing anything. -/
theorem Paired.goto (hs : Paired s) (hh : s.handlers[h]? = some handler) {pc : Pc}
    (hbefore : ∀ q, handler.pc ≠ .stored q true) (hafter : ∀ q, pc ≠ .stored q true)
    (hpair : ∀ q ∈ Pc.pair pc, q < s.heap.length) (hrun : ∀ q, pc ≠ .panicked q) :
    Paired (s.goto h handler pc) where
  mapped := hs.mapped
  known := Tally.forall_mem_set hs.known hpair
  once q pair hq := by
    have hclosers := closers_goto hh pc q
    rw [closing, closing, if_neg (hbefore q), if_neg (hafter q)] at hclosers
    have honce := hs.once q pair hq
    omega
  running := Tally.forall_mem_set hs.running hrun

/-- A handler changes its pair; `hbalance` is the invariant for this pair. -/
theorem Paired.setPair (hs : Paired s) (hh : s.handlers[h]? = some handler)
    (hp : s.heap[p]? = some pair) {pair' : RelayPair} {pc : Pc}
    (hother : ∀ q ≠ p, handler.pc ≠ .stored q true ∧ pc ≠ .stored q true)
    (hbalance : pair'.closes + pair.bothReady.toNat + closing p { handler with pc } =
      pair.closes + pair'.bothReady.toNat + closing p handler)
    (hpair : Pc.pair pc = some p) (hrun : ∀ q, pc ≠ .panicked q) :
    Paired ((s.setPair p pair').goto h handler pc) where
  mapped key q hq := by
    rw [RelayWSHub.goto, RelayWSHub.setPair, List.length_set]
    exact hs.mapped key q hq
  known := by
    rw [RelayWSHub.goto, RelayWSHub.setPair, List.length_set]
    apply Tally.forall_mem_set hs.known
    intro q hq
    obtain rfl := Option.mem_unique hpair hq
    exact (List.getElem?_eq_some_iff.mp hp).1
  once q pair'' hq := by
    have hclosers := closers_goto (s := s.setPair p pair') hh pc q
    have hsame : (s.setPair p pair').closers q = s.closers q := rfl
    rw [hsame] at hclosers
    rcases Tally.getElem?_set_cases hq with ⟨rfl, rfl⟩ | ⟨hpq, hq'⟩
    · have honce := hs.once q pair hp
      omega
    · obtain ⟨hbefore, hafter⟩ := hother q hpq
      rw [closing, closing, if_neg hbefore, if_neg hafter] at hclosers
      have honce := hs.once q pair'' hq'
      omega
  running := Tally.forall_mem_set hs.running hrun

/-- A pair that is new in the heap belongs to no handler yet. -/
theorem Paired.getOrCreatePair (hs : Paired s) (key : String) :
    Paired (s.getOrCreatePair key).2 ∧
      (s.getOrCreatePair key).1 < (s.getOrCreatePair key).2.heap.length := by
  rw [RelayWSHub.getOrCreatePair]
  split
  next p hkey => exact ⟨hs, hs.mapped key p hkey⟩
  next hkey =>
    have hlen : (s.heap ++ [({} : RelayPair)]).length = s.heap.length + 1 := by simp
    refine ⟨⟨?_, ?_, ?_, hs.running⟩, ?_⟩
    · intro key' p hp
      simp only [Function.update_apply] at hp
      rw [hlen]
      split_ifs at hp with heq
      · obtain rfl := Option.some.inj hp
        exact Nat.lt_succ_self _
      · exact Nat.lt_succ_of_lt (hs.mapped key' p hp)
    · intro handler hh p hp
      rw [hlen]
      exact Nat.lt_succ_of_lt (hs.known handler hh p hp)
    · intro p pair hp
      rw [List.getElem?_append] at hp
      split_ifs at hp with hlt
      · exact hs.once p pair hp
      · have hnone : (s.handlers.map (closing p)).sum = 0 := by
          apply List.sum_eq_zero
          intro n hn
          obtain ⟨handler, hh, rfl⟩ := List.mem_map.mp hn
          refine if_neg fun hpc => hlt (hs.known handler hh p ?_)
          rw [hpc]
          rfl
        obtain rfl : pair = {} := by
          simpa using (List.mem_of_getElem? hp)
        simpa [RelayPair.bothReady, closers] using hnone
    · rw [hlen]
      exact Nat.lt_succ_self _

theorem Paired.step_handle {s' : RelayWSHub} (hs : Paired s) (hh : s.handlers[h]? = some handler)
    (hok : KeepsPairs s (.handle h)) (hstep : Steps s h handler s') : Paired s' := by
  have hmem := List.mem_of_getElem? hh
  cases hstep with
  | getPair hpc =>
      obtain ⟨hs', hlt⟩ := hs.getOrCreatePair handler.request.key
      have hh' : (s.getOrCreatePair handler.request.key).2.handlers[h]? = some handler := by
        rw [RelayWSHub.getOrCreatePair]
        split <;> exact hh
      refine hs'.goto hh' (by simp [hpc]) (by simp) (fun q hq => ?_) (by simp)
      obtain rfl := Option.some.inj hq
      exact hlt
  | @store p pair hpc hpair =>
      have hnot := hok handler hh p (by simp [storesIn, hpc]) pair hpair
      have honce := hs.once p pair hpair
      refine hs.setPair hh hpair (fun q hq => ⟨by simp [hpc], by simp [hq.symm]⟩) ?_ rfl (by simp)
      have hcloses : (pair.store handler.request.role h).closes = pair.closes := by
        cases handler.request.role <;> rfl
      rw [hcloses, hnot]
      cases (pair.store handler.request.role h).bothReady with
      | true => simp [closing, hpc]
      | false => simp [closing, hpc]
  | @close p pair hpc hpair =>
      have honce := hs.once p pair hpair
      have hone : closing p handler = 1 := if_pos hpc
      have hle := Tally.le_sum_map (closing p) hh
      have hready := Bool.toNat_le pair.bothReady
      -- this handler is the one that closes it
      have hzero : pair.closes = 0 := by
        rw [closers] at honce
        omega
      rw [if_pos hzero]
      refine hs.setPair hh hpair (fun q hq => ⟨by simp [hpc, hq.symm], by simp⟩) ?_ rfl (by simp)
      rw [hone]
      simp only [RelayPair.bothReady, closing, reduceCtorEq, if_false]
      omega
  | wait hpc hpair hclosed =>
      exact hs.goto hh (by simp [hpc]) (by simp) (fun q hq => hs.known handler hmem q (hpc ▸ hq))
        (by simp)
  | relay hpc hpair =>
      have hlt := fun q hq => hs.known handler hmem q (hpc ▸ hq)
      cases handler.request.role with
      | sender => exact hs.goto hh (by simp [hpc]) (by simp) hlt (by simp)
      | receiver => exact hs.goto hh (by simp [hpc]) (by simp) hlt (by simp)
  | relayEnd hpc | closeConn hpc =>
      have hlt := fun q hq => hs.known handler hmem q (hpc ▸ hq)
      exact hs.goto hh (by simp [hpc]) (by simp) hlt (by simp)
  | removePair hpc =>
      have hs' : Paired (s.removePair handler.request.key) := by
        refine ⟨fun key p hp => ?_, hs.known, hs.once, hs.running⟩
        simp only [RelayWSHub.removePair, Function.update_apply] at hp
        split_ifs at hp
        exact hs.mapped key p hp
      exact hs'.goto hh (by simp [hpc]) (by simp)
        (fun q hq => hs.known handler hmem q (hpc ▸ hq)) (by simp)

end Steps

/-- **Every step keeps the invariant**, if it meets the condition. -/
theorem Paired.step {s s' : RelayWSHub} {a : Action} (hs : Paired s) (hok : KeepsPairs s a)
    (hstep : step s a = some s') : Paired s' := by
  cases a with
  | connect q =>
      obtain ⟨request, -, rfl⟩ := Option.map_eq_some_iff.mp hstep
      refine ⟨hs.mapped, ?_, ?_, ?_⟩
      · intro handler hh p hp
        rcases List.mem_append.mp hh with hh | hh
        · exact hs.known handler hh p hp
        · obtain rfl := List.mem_singleton.mp hh
          simp [Pc.pair] at hp
      · intro p pair hp
        have honce := hs.once p pair hp
        simpa [closers, closing] using honce
      · intro handler hh p
        rcases List.mem_append.mp hh with hh | hh
        · exact hs.running handler hh p
        · obtain rfl := List.mem_singleton.mp hh
          simp
  | handle h =>
      obtain ⟨handler, hh, hsteps⟩ := steps_of_handle hstep
      exact hs.step_handle hh hok hsteps

/-- **No channel is closed twice**, and no handler panics, in every run in which
no connection is stored in a pair that is complete already. -/
theorem closed_once (s : RelayWSHub) (h : Runs.ReachWhen step KeepsPairs {} s) :
    (∀ pair ∈ s.heap, pair.closes ≤ 1) ∧
      ∀ handler ∈ s.handlers, ∀ p, handler.pc ≠ .panicked p := by
  have hs : Paired s := h.invariant paired_empty fun _ _ _ hu hok hstep => hu.step hok hstep
  refine ⟨fun pair hpair => ?_, hs.running⟩
  obtain ⟨p, hp⟩ := List.mem_iff_getElem?.mp hpair
  have honce := hs.once p pair hp
  have hready := Bool.toNat_le pair.bothReady
  omega

/-- A sender and a receiver of one room. -/
def pairedRun : List Action :=
  [.connect ⟨"room", "sender", "0"⟩, .handle 0, .handle 0, .connect ⟨"room", "receiver", ""⟩,
    .handle 1, .handle 1, .handle 1, .handle 0]

theorem closed_once_paired :
    ∃ s, Runs.run step {} pairedRun = some s ∧ s.heap = [⟨some 0, some 1, 1⟩] ∧
      ∀ pair ∈ s.heap, pair.closes ≤ 1 :=
  ⟨_, rfl, by decide, (closed_once _ (Runs.reachWhen_of_run pairedRun rfl (by decide))).1⟩

/-- A second receiver comes while the first two are still in their relay loops:
it finds the pair complete, and closes its channel again. -/
theorem not_closed_once_rejoin :
    ¬ ∀ s, Runs.Reach step {} s → (∀ pair ∈ s.heap, pair.closes ≤ 1) ∧
      ∀ handler ∈ s.handlers, ∀ p, handler.pc ≠ .panicked p := by
  intro h
  have hpanic := (h _ (Runs.reach_of_run (pairedRun ++
    [.connect ⟨"room", "receiver", "0"⟩, .handle 2, .handle 2, .handle 2]) rfl)).1
  exact absurd hpanic (by decide)

end RelayWSHub

end FastTransfer.Server
