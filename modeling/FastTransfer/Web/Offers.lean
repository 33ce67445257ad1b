import FastTransfer.Web.Transfer

/-!
# Offers and the replies to them

The sender's half of the negotiation (`createOffer`, `handleAnswer` and
`addIceCandidate` of `web/static/js/transfer.js`), next to its sending engine.
The page calls `createOffer` on every `peer-joined`. A call appends its
connections to those of the calls before it, and sends an offer for each
element of `connections`; answers and candidates carry an index, and are handed
to `connections[index]`.

What a session description contains, and how an `RTCPeerConnection` connects, is
left out: a reply is the number of the offer that it was made to. Replies can
come to any offer that was sent, at any time and any number of times.
-/

namespace FastTransfer.Web

/-- The negotiation of an element of `connections`. -/
structure Connection where
  index : Nat
  /-- The calls of `setRemoteDescription` that have not returned. -/
  describing : Nat := 0
  remoteDescriptionSet : Bool := false
  pendingCandidates : List Nat := []
  /-- The answers and candidates that `pc` has been given. -/
  applied : List Nat := []
  deriving DecidableEq

namespace Connection

/-- `handleAnswer` up to its first await, with an answer to offer `k`. -/
def handleAnswer (c : Connection) (k : Nat) : Connection :=
  { c with applied := c.applied ++ [k], describing := c.describing + 1 }

/-- The rest of `handleAnswer`, after `setRemoteDescription`. Nothing is added to
`pendingCandidates` any more, so the loop over them is one step. -/
def described (c : Connection) : Connection :=
  { c with
    describing := c.describing - 1
    remoteDescriptionSet := true
    applied := c.applied ++ c.pendingCandidates
    pendingCandidates := [] }

/-- `addIceCandidate`, with a candidate that belongs to an answer to offer `k`. -/
def addIceCandidate (c : Connection) (k : Nat) : Connection :=
  if c.remoteDescriptionSet then { c with applied := c.applied ++ [k] }
  else { c with pendingCandidates := c.pendingCandidates ++ [k] }

/-- The replies that have been handed to the connection. -/
def taken (c : Connection) : List Nat := c.applied ++ c.pendingCandidates

@[simp] theorem handleAnswer_index (c : Connection) (k : Nat) :
    (c.handleAnswer k).index = c.index := rfl

@[simp] theorem described_index (c : Connection) : c.described.index = c.index := rfl

@[simp] theorem addIceCandidate_index (c : Connection) (k : Nat) :
    (c.addIceCandidate k).index = c.index := by
  rw [addIceCandidate]
  split_ifs
  · rfl
  · rfl

theorem mem_taken_handleAnswer {c : Connection} {k l : Nat} :
    l ∈ (c.handleAnswer k).taken ↔ l ∈ c.taken ∨ l = k := by
  simp only [taken, handleAnswer, List.mem_append, List.mem_singleton]
  tauto

theorem mem_taken_addIceCandidate {c : Connection} {k l : Nat} :
    l ∈ (c.addIceCandidate k).taken ↔ l ∈ c.taken ∨ l = k := by
  rw [addIceCandidate]
  split_ifs
  · simp only [taken, List.mem_append, List.mem_singleton]
    tauto
  · simp only [taken, List.mem_append, List.mem_singleton]
    tauto

theorem taken_described (c : Connection) : c.described.taken = c.taken := by
  simp [taken, described]

end Connection

/-- An offer that was sent. -/
structure Offer where
  index : Nat
  /-- The place in `connections` of the connection that made it. -/
  maker : Nat
  deriving DecidableEq

/-- The sender with the negotiation of its connections. -/
structure Offering where
  sender : Sender
  /-- How far the negotiation of each element of `connections` is. -/
  conns : List Connection := []
  /-- The place that the loop of each `createOffer` call has got to; `none` when
  the loop is over. -/
  loops : List (Option Nat) := []
  /-- The offers sent, in order. -/
  offers : List Offer := []
  /-- The number of the first transport of the latest `createOffer` call. -/
  latest : Nat := 0

namespace Offering

/-- `createOffer` up to its first await. -/
def createOffer (x : Offering) (cfg : Config) (file : File) : Offering :=
  { x with
    sender := x.sender.createOffer cfg file
    conns := x.conns ++ (List.range cfg.numP2P).map fun i => { index := i }
    loops := x.loops ++ [some 0]
    latest := x.sender.transports.length }

/-- One turn of the loop of `createOffer`. The loop runs over the array itself,
so it also gets to the connections that later calls append before it is over. -/
def sendOffer (x : Offering) (j p : Nat) (c : Connection) : Offering :=
  { x with
    offers := x.offers ++ [⟨c.index, p⟩]
    loops := x.loops.set j (if p + 1 < x.conns.length then some (p + 1) else none) }

/-- An answer to offer `k` arrives: it goes to `connections[index]`. -/
def handleAnswer (x : Offering) (k index : Nat) : Offering :=
  match x.conns[index]? with
  | some c => { x with conns := x.conns.set index (c.handleAnswer k) }
  | none => x

/-- `setRemoteDescription` of connection `p` has succeeded. -/
def described (x : Offering) (p : Nat) (c : Connection) : Offering :=
  { x with conns := x.conns.set p c.described }

/-- `addIceCandidate` on the sending side. -/
def addIceCandidate (x : Offering) (k index : Nat) : Offering :=
  match x.conns[index]? with
  | some c => { x with conns := x.conns.set index (c.addIceCandidate k) }
  -- `_globalPendingIce` is only read by the receiver
  | none => x

/-- A step of the page or of one of its connections. -/
inductive Action where
  /-- `peer-joined`, once the page has called `createOffer`. -/
  | createOffer
  /-- The next offer of a loop. -/
  | offer (j : Nat)
  /-- An answer to offer number `k` arrives. -/
  | answer (k : Nat)
  | described (p : Nat)
  | candidate (k : Nat)
  /-- A step of the sending engine. -/
  | engine (a : Sender.Action)
  deriving DecidableEq

/-- One step of the sender. -/
def step (cfg : Config) (file : File) (x : Offering) : Action → Option Offering
  | .createOffer => some (x.createOffer cfg file)
  | .offer j => do
      let p ← (x.loops[j]?).join
      let c ← x.conns[p]?
      some (x.sendOffer j p c)
  | .answer k => do
      let o ← x.offers[k]?
      some (x.handleAnswer k o.index)
  | .described p => do
      let c ← x.conns[p]?
      if 0 < c.describing then some (x.described p c) else none
  | .candidate k => do
      let o ← x.offers[k]?
      some (x.addIceCandidate k o.index)
  | .engine a =>
      -- `createOffer` does more here than in the engine alone
      if a = .createOffer then none
      else (Sender.step cfg file x.sender a).map fun s => { x with sender := s }

/-- After the first `createOffer`, before its first offer is sent. -/
def start (cfg : Config) (file : File) : Offering :=
  createOffer { sender := { file } } cfg file

/-- Nothing fails in the engine. The page may call `createOffer` again. -/
def FailureFree : Action → Prop
  | .engine a => Sender.FailureFree a
  | .createOffer | .offer _ | .answer _ | .described _ | .candidate _ => True

instance decidableFailureFree : (a : Action) → Decidable (FailureFree a)
  | .engine a => inferInstanceAs (Decidable (Sender.FailureFree a))
  | .createOffer | .offer _ | .answer _ | .described _ | .candidate _ =>
      inferInstanceAs (Decidable True)

/-- The steps of the negotiation and of the engine. -/
inductive Steps (cfg : Config) (file : File) (x : Offering) : Action → Offering → Prop where
  | createOffer : Steps cfg file x .createOffer (x.createOffer cfg file)
  | offer {j p : Nat} {c : Connection} (hloop : x.loops[j]? = some (some p))
      (hc : x.conns[p]? = some c) : Steps cfg file x (.offer j) (x.sendOffer j p c)
  | answer {k : Nat} {o : Offer} (ho : x.offers[k]? = some o) :
      Steps cfg file x (.answer k) (x.handleAnswer k o.index)
  | described {p : Nat} {c : Connection} (hc : x.conns[p]? = some c) (hwait : 0 < c.describing) :
      Steps cfg file x (.described p) (x.described p c)
  | candidate {k : Nat} {o : Offer} (ho : x.offers[k]? = some o) :
      Steps cfg file x (.candidate k) (x.addIceCandidate k o.index)
  | engine {a : Sender.Action} {s : Sender} (ha : a ≠ .createOffer)
      (hs : Sender.Steps cfg file x.sender a s) :
      Steps cfg file x (.engine a) { x with sender := s }

theorem steps_of_step {cfg : Config} {file : File} {x y : Offering} {a : Action}
    (h : step cfg file x a = some y) : Steps cfg file x a y := by
  cases a with
  | createOffer =>
      obtain rfl := Option.some.inj h
      exact .createOffer
  | offer j =>
      obtain ⟨p, hloop, h⟩ := Option.bind_eq_some_iff.mp h
      obtain ⟨c, hc, h⟩ := Option.bind_eq_some_iff.mp h
      obtain rfl := Option.some.inj h
      exact .offer (Option.join_eq_some_iff.mp hloop) hc
  | answer k =>
      obtain ⟨o, ho, h⟩ := Option.bind_eq_some_iff.mp h
      obtain rfl := Option.some.inj h
      exact .answer ho
  | described p =>
      obtain ⟨c, hc, h⟩ := Option.bind_eq_some_iff.mp h
      obtain ⟨hwait, h⟩ := Option.ite_none_right_eq_some.mp h
      obtain rfl := Option.some.inj h
      exact .described hc hwait
  | candidate k =>
      obtain ⟨o, ho, h⟩ := Option.bind_eq_some_iff.mp h
      obtain rfl := Option.some.inj h
      exact .candidate ho
  | engine a =>
      obtain ⟨ha, h⟩ := Option.ite_none_left_eq_some.mp h
      obtain ⟨s, hs, rfl⟩ := Option.map_eq_some_iff.mp h
      exact .engine ha (Sender.step_iff.mp hs)

/-! ## Where the replies go -/

/-- Places and indices are related by `R`, and a connection has only been handed
replies that carry its place as their index. -/
structure Indexed (R : Nat → Nat → Prop) (x : Offering) : Prop where
  places : ∀ (p : Nat) (c : Connection), x.conns[p]? = some c → R p c.index
  makers : ∀ o ∈ x.offers, R o.maker o.index
  taken : ∀ (p : Nat) (c : Connection), x.conns[p]? = some c →
    ∀ k ∈ c.taken, ∃ o : Offer, x.offers[k]? = some o ∧ o.index = p

section Indexed

variable {R : Nat → Nat → Prop} {x y : Offering} {cfg : Config} {file : File}

theorem Indexed.createOffer (h : Indexed R x)
    (hnew : ∀ i < cfg.numP2P, R (x.conns.length + i) i) : Indexed R (x.createOffer cfg file) := by
  -- a connection of this call, or an old one
  have hcases : ∀ p c, (x.createOffer cfg file).conns[p]? = some c →
      x.conns[p]? = some c ∨ ∃ i < cfg.numP2P, p = x.conns.length + i ∧ c = { index := i } := by
    intro p c hc
    simp only [Offering.createOffer, List.getElem?_append, List.getElem?_map] at hc
    split_ifs at hc with hold
    · exact .inl hc
    · obtain ⟨i, hi, rfl⟩ := Option.map_eq_some_iff.mp hc
      obtain ⟨hlt, rfl⟩ := List.getElem?_eq_some_iff.mp hi
      rw [List.length_range] at hlt
      rw [List.getElem_range]
      exact .inr ⟨_, hlt, by omega, rfl⟩
  constructor
  · intro p c hc
    rcases hcases p c hc with hold | ⟨i, hi, rfl, rfl⟩
    · exact h.places p c hold
    · exact hnew i hi
  · exact h.makers
  · intro p c hc k hk
    rcases hcases p c hc with hold | ⟨i, hi, rfl, rfl⟩
    · exact h.taken p c hold k hk
    · simp [Connection.taken] at hk

/-- A connection is handed a reply that carries its place. -/
theorem Indexed.take (h : Indexed R x) {p : Nat} {c c' : Connection} (hc : x.conns[p]? = some c)
    (hindex : c'.index = c.index)
    (htaken : ∀ k ∈ c'.taken, k ∈ c.taken ∨ ∃ o, x.offers[k]? = some o ∧ o.index = p) :
    Indexed R { x with conns := x.conns.set p c' } := by
  constructor
  · intro q d hd
    rcases Tally.getElem?_set_cases hd with ⟨rfl, rfl⟩ | ⟨-, hd⟩
    · rw [hindex]
      exact h.places q c hc
    · exact h.places q d hd
  · exact h.makers
  · intro q d hd k hk
    rcases Tally.getElem?_set_cases hd with ⟨rfl, rfl⟩ | ⟨-, hd⟩
    · rcases htaken k hk with hold | hnew
      · exact h.taken q c hc k hold
      · exact hnew
    · exact h.taken q d hd k hk

theorem Indexed.sendOffer (h : Indexed R x) (j : Nat) {p : Nat} {c : Connection}
    (hc : x.conns[p]? = some c) : Indexed R (x.sendOffer j p c) := by
  constructor
  · exact h.places
  · intro o ho
    rcases List.mem_append.mp ho with ho | ho
    · exact h.makers o ho
    · obtain rfl := List.mem_singleton.mp ho
      exact h.places p c hc
  · intro q d hd k hk
    obtain ⟨o, ho, hindex⟩ := h.taken q d hd k hk
    exact ⟨o, Tally.getElem?_concat_of_some ho, hindex⟩

theorem Indexed.handleAnswer (h : Indexed R x) {k : Nat} {o : Offer}
    (ho : x.offers[k]? = some o) : Indexed R (x.handleAnswer k o.index) := by
  rw [Offering.handleAnswer]
  split
  next c hc =>
    apply h.take hc (c.handleAnswer_index k)
    intro l hl
    rcases Connection.mem_taken_handleAnswer.mp hl with hl | rfl
    · exact .inl hl
    · exact .inr ⟨o, ho, rfl⟩
  next => exact h

theorem Indexed.addIceCandidate (h : Indexed R x) {k : Nat} {o : Offer}
    (ho : x.offers[k]? = some o) : Indexed R (x.addIceCandidate k o.index) := by
  rw [Offering.addIceCandidate]
  split
  next c hc =>
    apply h.take hc (c.addIceCandidate_index k)
    intro l hl
    rcases Connection.mem_taken_addIceCandidate.mp hl with hl | rfl
    · exact .inl hl
    · exact .inr ⟨o, ho, rfl⟩
  next => exact h

theorem Indexed.described (h : Indexed R x) {p : Nat} {c : Connection}
    (hc : x.conns[p]? = some c) : Indexed R (x.described p c) :=
  h.take hc c.described_index fun _ hk => .inl (c.taken_described ▸ hk)

/-- **Every step keeps the indices**, if a `createOffer` call does. -/
theorem Indexed.step {a : Action} (h : Indexed R x) (hs : Steps cfg file x a y)
    (hnew : a = .createOffer → ∀ i < cfg.numP2P, R (x.conns.length + i) i) : Indexed R y := by
  cases hs with
  | createOffer => exact h.createOffer (hnew rfl)
  | offer hloop hc => exact h.sendOffer _ hc
  | answer ho => exact h.handleAnswer ho
  | described hc hwait => exact h.described hc
  | candidate ho => exact h.addIceCandidate ho
  | engine ha hs => exact ⟨h.places, h.makers, h.taken⟩

theorem indexed_start (hnew : ∀ i < cfg.numP2P, R i i) : Indexed R (start cfg file) := by
  apply Indexed.createOffer
  · exact ⟨by simp, by simp, by simp⟩
  · simpa using hnew

end Indexed

/-- **Only the first call is answered**: whatever the page and the receivers do,
no connection of a later call is ever handed an answer or a candidate. -/
theorem taken_eq_nil {cfg : Config} {file : File} {x : Offering}
    (h : Runs.Reach (step cfg file) (start cfg file) x) {p : Nat} {c : Connection}
    (hc : x.conns[p]? = some c) (hp : cfg.numP2P ≤ p) : c.taken = [] := by
  have hindexed : Indexed (fun _ i => i < cfg.numP2P) x :=
    h.invariant (indexed_start fun _ hi => hi) fun _ _ _ hu hs =>
      hu.step (steps_of_step hs) fun _ _ hi => hi
  apply List.eq_nil_iff_forall_not_mem.mpr
  intro k hk
  obtain ⟨o, ho, hindex⟩ := hindexed.taken p c hc k hk
  have hlt := hindexed.makers o (List.mem_of_getElem? ho)
  omega

/-! ## The tables of the engine -/

section Tables

variable {cfg : Config} {file : File}

/-- The engine itself adds no transport and no connection. -/
theorem tables_of_steps {s s' : Sender} {a : Sender.Action} (hs : Sender.Steps cfg file s a s')
    (ha : a ≠ .createOffer) :
    s'.connections = s.connections ∧ s'.transports.length = s.transports.length := by
  cases hs with
  | createOffer => exact absurd rfl ha
  | onopen ht hstate =>
      refine Sender.tryStart_rule (P := fun s' => s'.connections = s.connections ∧
        s'.transports.length = s.transports.length) ?_ (fun _ h _ => h) ?_
      · intro s' t tr h _ _ _ _
        exact ⟨h.1, by simp [Sender.put, h.2]⟩
      · exact ⟨rfl, List.length_set⟩
  | onclose ht hstate | drain ht hstate hdrain => exact ⟨rfl, List.length_set⟩
  | pump ht hturn => exact ⟨rfl, List.length_set⟩
  | pollDrain hwait =>
      rw [Sender.pollDrain]
      split_ifs
      · exact ⟨rfl, rfl⟩
      · exact ⟨rfl, rfl⟩

theorem tables_of_step {x y : Offering} {a : Action} (hs : step cfg file x a = some y)
    (ha : a ≠ .createOffer) :
    y.latest = x.latest ∧ y.sender.connections = x.sender.connections ∧
      y.sender.transports.length = x.sender.transports.length := by
  cases steps_of_step hs with
  | createOffer => exact absurd rfl ha
  | offer hloop hc | described hc hwait => exact ⟨rfl, rfl, rfl⟩
  | answer ho =>
      rw [handleAnswer]
      split
      · exact ⟨rfl, rfl, rfl⟩
      · exact ⟨rfl, rfl, rfl⟩
  | candidate ho =>
      rw [addIceCandidate]
      split
      · exact ⟨rfl, rfl, rfl⟩
      · exact ⟨rfl, rfl, rfl⟩
  | engine hne hengine => exact ⟨rfl, tables_of_steps hengine hne⟩

end Tables

/-! ## Every receiver that joins -/

/-- Offer number `k` is the newest one with its index. -/
def Newest (x : Offering) (k : Nat) (o : Offer) : Prop :=
  x.offers[k]? = some o ∧ ∀ o' ∈ x.offers.drop (k + 1), o'.index ≠ o.index

/-- No step of the engine is left but the opening of further transports, and failures. -/
def Final (cfg : Config) (file : File) (x : Offering) : Prop :=
  ∀ a, Sender.FailureFree a → (∀ t, a ≠ .onopen t) → Sender.step cfg file x.sender a = none

/-- The transports that the latest `createOffer` call opened. -/
def ofLatest (x : Offering) : List Transport := x.sender.transports.drop x.latest

/-- What the receiver that joined last relies on, after the actions `as`. -/
structure Served (cfg : Config) (file : File) (as : List Action) (x : Offering) : Prop where
  /-- `connections[i]` is the connection that the latest call created for `i`. -/
  connected : ∀ i < cfg.numP2P, x.sender.connections[i]? = some (x.latest + cfg.numRelay + i)
  /-- The replies to the newest offer with an index go to the connection that made it. -/
  replies : ∀ k o, Newest x k o → o.index = o.maker ∧
    ∀ (p : Nat) (c : Connection), x.conns[p]? = some c → k ∈ c.taken → p = o.maker
  /-- In a final state without failures every chunk has been sent over the transports
  of the latest call, if one of them is open. -/
  sent : (∀ a ∈ as, FailureFree a) → Final cfg file x →
    (∃ tr ∈ x.ofLatest, tr.readyState = .opened) →
      ∀ i < totalChunks file, ∃ tr ∈ x.ofLatest, i ∈ tr.handed

/-- What holds as long as `createOffer` is not called again. -/
structure OneCall (cfg : Config) (x : Offering) : Prop where
  indexed : Indexed (fun p i => i = p) x
  latest : x.latest = 0
  connections : x.sender.connections = List.range' cfg.numRelay cfg.numP2P

theorem oneCall_start (cfg : Config) (file : File) : OneCall cfg (start cfg file) where
  indexed := indexed_start fun _ _ => rfl
  latest := rfl
  connections := by simp [start, createOffer, Sender.createOffer]

theorem OneCall.step {cfg : Config} {file : File} {x y : Offering} {a : Action}
    (h : OneCall cfg x) (ha : a ≠ .createOffer) (hs : step cfg file x a = some y) :
    OneCall cfg y := by
  obtain ⟨hlatest, hconns, -⟩ := tables_of_step hs ha
  exact ⟨h.indexed.step (steps_of_step hs) fun heq => absurd heq ha,
    hlatest.trans h.latest, hconns.trans h.connections⟩

theorem OneCall.connected {cfg : Config} {x : Offering} (h : OneCall cfg x) {i : Nat}
    (hi : i < cfg.numP2P) : x.sender.connections[i]? = some (x.latest + cfg.numRelay + i) := by
  rw [h.connections, h.latest, List.getElem?_range' hi]
  simp

theorem OneCall.replies {cfg : Config} {x : Offering} (h : OneCall cfg x) {k : Nat} {o : Offer}
    (ho : x.offers[k]? = some o) : o.index = o.maker ∧
      ∀ (p : Nat) (c : Connection), x.conns[p]? = some c → k ∈ c.taken → p = o.maker := by
  have hmaker : o.index = o.maker := h.indexed.makers o (List.mem_of_getElem? ho)
  refine ⟨hmaker, fun p c hc hk => ?_⟩
  obtain ⟨o', ho', hindex⟩ := h.indexed.taken p c hc k hk
  obtain rfl := Option.mem_unique ho ho'
  exact hindex.symm.trans hmaker

/-- Without failures and without a second call the engine works. -/
theorem working_step {cfg : Config} {file : File} {x y : Offering} {a : Action}
    (h : Sender.Working file x.sender) (hok : a ≠ .createOffer ∧ FailureFree a)
    (hs : step cfg file x a = some y) : Sender.Working file y.sender := by
  cases steps_of_step hs with
  | createOffer => exact absurd rfl hok.1
  | offer hloop hc | described hc hwait => exact h
  | answer ho =>
      rw [handleAnswer]
      split
      · exact h
      · exact h
  | candidate ho =>
      rw [addIceCandidate]
      split
      · exact h
      · exact h
  | engine ha hengine => exact h.step hok.2 hengine

theorem Final.atWork {cfg : Config} {file : File} {x : Offering} (h : Final cfg file x) :
    ∀ tr ∈ x.sender.transports, tr.atWork = false :=
  Sender.atWork_eq_false fun t ev hev => h (.pump t ev) hev (by simp)

theorem served_of_oneCall {cfg : Config} {file : File} {as : List Action} {x : Offering}
    (hrun : Runs.run (step cfg file) (start cfg file) as = some x)
    (hone : .createOffer ∉ as) : Served cfg file as x := by
  have hother : ∀ a ∈ as, a ≠ .createOffer := fun a ha heq => hone (heq ▸ ha)
  have hcall : OneCall cfg x := by
    have hreach : Runs.ReachWhen (step cfg file) (fun _ a => a ≠ .createOffer)
        (start cfg file) x :=
      Runs.reachWhen_of_run as hrun (Runs.meets_of_forall (fun a ha _ => hother a ha) _)
    exact hreach.invariant (oneCall_start cfg file) fun _ _ _ hu hok hs => hu.step hok hs
  constructor
  · exact fun i hi => hcall.connected hi
  · exact fun k o ho => hcall.replies ho.1
  · intro hfree hfinal hopen i hi
    have hworking : Sender.Working file x.sender := by
      have hreach : Runs.ReachWhen (step cfg file)
          (fun _ a => a ≠ .createOffer ∧ FailureFree a) (start cfg file) x :=
        Runs.reachWhen_of_run as hrun
          (Runs.meets_of_forall (fun a ha _ => ⟨hother a ha, hfree a ha⟩) _)
      exact hreach.invariant (I := fun x => Sender.Working file x.sender)
        (Sender.working_start cfg file) fun _ _ _ hu hok hs => working_step hu hok hs
    -- the transports of the latest call are all there are
    rw [ofLatest, hcall.latest, List.drop_zero] at hopen ⊢
    have hsent := (hworking.sent hfinal.atWork hopen).mem_iff.mpr (List.mem_range.mpr hi)
    exact List.mem_flatMap.mp hsent

/-- Connection `0` is the first call's, in every state. -/
def FirstKept (cfg : Config) (x : Offering) : Prop :=
  x.sender.connections[0]? = some cfg.numRelay ∧ 0 < x.sender.transports.length

theorem firstKept_start {cfg : Config} (hp2p : 0 < cfg.numP2P) (file : File) :
    FirstKept cfg (start cfg file) := by
  constructor
  · rw [(oneCall_start cfg file).connections, List.getElem?_range' hp2p]
    simp
  · simp [start, createOffer, Sender.createOffer, hp2p]

/-- A step keeps connection `0`, and the latest call is a later one from the
second call on. -/
theorem FirstKept.step {cfg : Config} {file : File} {x y : Offering} {a : Action}
    (h : FirstKept cfg x) (hs : step cfg file x a = some y) :
    FirstKept cfg y ∧ (a = .createOffer ∨ 0 < x.latest → 0 < y.latest) := by
  by_cases ha : a = .createOffer
  · subst ha
    obtain rfl := Option.some.inj hs
    refine ⟨⟨?_, ?_⟩, fun _ => h.2⟩
    · have hlt := (List.getElem?_eq_some_iff.mp h.1).1
      rw [createOffer, Sender.createOffer, List.getElem?_append_left hlt]
      exact h.1
    · have hlt := h.2
      simp only [createOffer, Sender.createOffer, List.length_append]
      omega
  · obtain ⟨hlatest, hconns, hlength⟩ := tables_of_step hs ha
    refine ⟨⟨?_, ?_⟩, fun hlater => ?_⟩
    · rw [hconns]
      exact h.1
    · rw [hlength]
      exact h.2
    · rw [hlatest]
      exact hlater.resolve_left ha

/-- After a second call connection `0` is not the latest call's. -/
theorem not_connected {cfg : Config} {x : Offering} (h : FirstKept cfg x) (hlater : 0 < x.latest)
    (hp2p : 0 < cfg.numP2P) : ¬ ∀ i < cfg.numP2P,
      x.sender.connections[i]? = some (x.latest + cfg.numRelay + i) := by
  intro hall
  have heq := Option.mem_unique h.1 (hall 0 hp2p)
  omega

theorem later_of_mem {cfg : Config} (hp2p : 0 < cfg.numP2P) {file : File} {as : List Action}
    {x : Offering} (hrun : Runs.run (step cfg file) (start cfg file) as = some x)
    (hmem : .createOffer ∈ as) : FirstKept cfg x ∧ 0 < x.latest := by
  obtain ⟨before, after, rfl⟩ := List.append_of_mem hmem
  rw [Runs.run_append] at hrun
  obtain ⟨u, hbefore, hrun⟩ := Option.bind_eq_some_iff.mp hrun
  obtain ⟨v, hcall, hafter⟩ := Option.bind_eq_some_iff.mp hrun
  have hu : FirstKept cfg u := (Runs.reach_of_run before hbefore).invariant
    (firstKept_start hp2p file) fun _ _ _ hu hs => (hu.step hs).1
  obtain ⟨hv, hlater⟩ := hu.step hcall
  exact (Runs.reach_of_run after hafter).invariant
    (I := fun x => FirstKept cfg x ∧ 0 < x.latest) ⟨hv, hlater (.inl rfl)⟩ fun _ _ _ hu hs =>
      ⟨(hu.1.step hs).1, (hu.1.step hs).2 (.inr hu.2)⟩

theorem served_iff_of_numP2P {cfg : Config} (hp2p : 0 < cfg.numP2P) {file : File}
    {as : List Action} {x : Offering}
    (hrun : Runs.run (step cfg file) (start cfg file) as = some x) :
    Served cfg file as x ↔ .createOffer ∉ as := by
  refine ⟨fun hserved hmem => ?_, served_of_oneCall hrun⟩
  obtain ⟨hfirst, hlater⟩ := later_of_mem hp2p hrun hmem
  exact not_connected hfirst hlater hp2p hserved.connected

/-- **Receivers that join again**: along every run, with as many transports as
`transfer.js` opens in a call, the receiver that joined last is served exactly
when `createOffer` was called once. -/
theorem served_iff (infoLength : FileInfo → Nat) (file : File) (as : List Action) (x : Offering)
    (h : Runs.run (step { infoLength } file) (start { infoLength } file) as = some x) :
    Served { infoLength } file as x ↔ .createOffer ∉ as :=
  served_iff_of_numP2P (show 0 < numP2P by decide) h

/-- The four offers of the first call, an answer to the first of them, and the
transfer over relay `1`. -/
def oneReceiverRun : List Action :=
  List.replicate 4 (.offer 0) ++ [.answer 0, .candidate 0, .described 0,
    .engine (.onopen 1), .engine (.pump 1 (.read true)), .engine (.pump 1 (.send false))] ++
    List.replicate 5 (.engine (.drain 1)) ++ [.engine .pollDrain]

theorem served_iff_oneReceiver :
    ∃ x, Runs.run (step Sender.sampleConfig oneByteFile) (start Sender.sampleConfig oneByteFile)
      oneReceiverRun = some x ∧ Served Sender.sampleConfig oneByteFile oneReceiverRun x :=
  ⟨_, rfl, (served_iff (fun _ => 90) oneByteFile oneReceiverRun _ rfl).mpr (by decide)⟩

/-- The receiver reloads after that: the second call sends eight offers, the
reply to the newest offer `0` arrives, and relay `1` opens again. -/
def reloadedRun : List Action :=
  oneReceiverRun ++ [.createOffer] ++ List.replicate 8 (.offer 1) ++
    [.answer 8, .engine (.onopen 13)]

/-- The reply goes to connection `0`, although connection `4` made the offer, and
over the transports of the second call nothing is sent. -/
theorem not_served_reloaded :
    ∃ x, Runs.run (step Sender.sampleConfig oneByteFile) (start Sender.sampleConfig oneByteFile)
      reloadedRun = some x ∧ ¬ Served Sender.sampleConfig oneByteFile reloadedRun x ∧
        (Newest x 8 ⟨0, 4⟩ ∧ (x.conns[0]?).any (8 ∈ ·.taken) = true) ∧
        (∀ a ∈ reloadedRun, FailureFree a) ∧ Final Sender.sampleConfig oneByteFile x ∧
        (∃ tr ∈ x.ofLatest, tr.readyState = .opened) ∧ ∀ tr ∈ x.ofLatest, tr.handed = [] := by
  refine ⟨_, rfl, ?_, ⟨⟨rfl, by decide⟩, rfl⟩, by decide, ?_, by decide, by decide⟩
  · intro hserved
    exact absurd (hserved.replies 8 ⟨0, 4⟩ ⟨rfl, by decide⟩).1 (by decide)
  · exact fun a hok hne => Sender.step_eq_none_of_idle (by decide) rfl hok hne

end Offering

end FastTransfer.Web
