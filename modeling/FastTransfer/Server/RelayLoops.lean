import FastTransfer.Server.RelayHub

/-!
# The relay loops of a pair

Which connection is the source and which the destination of the loop that a
handler of `HandleRelayWS` runs. A handler that has waited reads the pair again
when it wakes, so everything depends on who is stored in the pair by then.
`Joined` holds of every run; `Loops` of the runs in which no connection takes
the place of one whose handler has yet to read the pair.
-/

namespace FastTransfer.Server

namespace RelayPair

/-- The connection in the place of a role. -/
def slot (pair : RelayPair) : Role → Option Nat
  | .sender => pair.sender
  | .receiver => pair.receiver

variable (pair : RelayPair) (role : Role) (conn : Nat)

@[simp] theorem slot_store :
    (pair.store role conn).slot = Function.update pair.slot role (some conn) := by
  funext role'
  cases role <;> cases role' <;> rfl

@[simp] theorem slot_closes (n : Nat) : { pair with closes := n }.slot role = pair.slot role := by
  cases role <;> rfl

@[simp] theorem closes_store : (pair.store role conn).closes = pair.closes := by
  cases role <;> rfl

theorem bothReady_iff : pair.bothReady = true ↔ ∀ role, pair.slot role ≠ none :=
  Role.both_isSome pair.slot

/-- A complete pair stays complete. -/
theorem bothReady_store (h : pair.bothReady = true) : (pair.store role conn).bothReady = true := by
  rw [bothReady_iff] at h ⊢
  rw [slot_store]
  exact fun role' => Role.update_ne_none (h role') role conn

end RelayPair

namespace RelayWSHub

/-! ## What holds in every run -/

/-- The pair that the connection of a handler has been stored in. -/
def Pc.joined : Pc → Option Nat
  | .upgraded | .gotPair _ => none
  | .stored p _ | .released p | .relaying p _ _ | .relayed p | .connClosed p | .done p
  | .panicked p => some p

/-- The handler has passed the `ready` channel of its pair, or panicked at it. -/
def Pc.passed : Pc → Bool
  | .upgraded | .gotPair _ | .stored _ _ => false
  | .released _ | .relaying _ _ _ | .relayed _ | .connClosed _ | .done _ | .panicked _ => true

theorem Pc.pair_of_joined {pc : Pc} {p : Nat} (h : Pc.joined pc = some p) :
    Pc.pair pc = some p := by
  cases pc <;> first | exact h | cases h

/-- What the pair of a handler looks like, by where the handler stands. -/
structure Fits (pair : RelayPair) (role : Role) (pc : Pc) : Prop where
  place : ∀ p, Pc.joined pc = some p → pair.slot role ≠ none
  complete : ∀ p, pc = .stored p true → pair.bothReady = true
  closed : Pc.passed pc = true → pair.closes ≠ 0

theorem Fits.store {pair : RelayPair} {role : Role} {pc : Pc} (h : Fits pair role pc)
    (role' : Role) (conn : Nat) : Fits (pair.store role' conn) role pc where
  place p hp := by
    rw [RelayPair.slot_store]
    exact Role.update_ne_none (h.place p hp) role' conn
  complete p hp := pair.bothReady_store role' conn (h.complete p hp)
  closed hp := by
    rw [RelayPair.closes_store]
    exact h.closed hp

theorem Fits.close {pair : RelayPair} {role : Role} {pc : Pc} (h : Fits pair role pc) :
    Fits { pair with closes := pair.closes + 1 } role pc where
  place p hp := by
    rw [RelayPair.slot_closes]
    exact h.place p hp
  complete := h.complete
  closed _ := Nat.succ_ne_zero _

/-- The connection `c` has been stored in the pair `p` in the place of a role. -/
def Member (s : RelayWSHub) (p : Nat) (role : Role) (c : Nat) : Prop :=
  ∃ handler, s.handlers[c]? = some handler ∧ handler.request.role = role ∧
    Pc.joined handler.pc = some p

/-- **What every run keeps**: what stands in a pair was stored there, and a
closed channel belongs to a complete pair. -/
structure Joined (s : RelayWSHub) : Prop where
  slots : ∀ (p : Nat) (pair : RelayPair) role c, s.heap[p]? = some pair → pair.slot role = some c →
    Member s p role c
  full : ∀ (p : Nat) (pair : RelayPair), s.heap[p]? = some pair → pair.closes ≠ 0 →
    pair.bothReady = true
  mapped : ∀ key p, s.pairs key = some p → p < s.heap.length
  known : ∀ (h : Nat) (handler : Handler) p, s.handlers[h]? = some handler →
    Pc.pair handler.pc = some p →
      ∃ pair, s.heap[p]? = some pair ∧ Fits pair handler.request.role handler.pc

theorem joined_empty : Joined {} where
  slots := by simp
  full := by simp
  mapped := by simp
  known := by simp

section Steps

variable {s : RelayWSHub} {h p : Nat} {handler : Handler} {pair : RelayPair}

/-- A connection stays in the pair that it was stored in. -/
theorem Member.goto {role : Role} {c : Nat} (hc : Member s p role c)
    (hh : s.handlers[h]? = some handler) {pc : Pc}
    (hkeep : ∀ q, Pc.joined handler.pc = some q → Pc.joined pc = some q) :
    Member (s.goto h handler pc) p role c := by
  obtain ⟨handler', hc, hrole, hp⟩ := hc
  by_cases hch : c = h
  · subst hch
    obtain rfl := Option.mem_unique hh hc
    refine ⟨{ handler with pc }, ?_, hrole, hkeep p hp⟩
    exact List.getElem?_set_self (List.getElem?_eq_some_iff.mp hh).1
  · refine ⟨handler', ?_, hrole, hp⟩
    rw [RelayWSHub.goto, List.getElem?_set_ne (Ne.symm hch)]
    exact hc

theorem member_goto_self (hh : s.handlers[h]? = some handler) {pc : Pc}
    (hp : Pc.joined pc = some p) : Member (s.goto h handler pc) p handler.request.role h :=
  ⟨{ handler with pc }, List.getElem?_set_self (List.getElem?_eq_some_iff.mp hh).1, rfl, hp⟩

/-- A handler goes on without changing its pair. -/
theorem Joined.goto (hs : Joined s) (hh : s.handlers[h]? = some handler) {pc : Pc}
    (hkeep : ∀ q, Pc.joined handler.pc = some q → Pc.joined pc = some q)
    (hfits : ∀ q, Pc.pair pc = some q →
      ∃ pair, s.heap[q]? = some pair ∧ Fits pair handler.request.role pc) :
    Joined (s.goto h handler pc) where
  slots q pair role c hq hslot := (hs.slots q pair role c hq hslot).goto hh hkeep
  full := hs.full
  mapped := hs.mapped
  known h' handler' q hh' hq := by
    rcases Tally.getElem?_set_cases hh' with ⟨-, rfl⟩ | ⟨-, hh'⟩
    · exact hfits q hq
    · exact hs.known h' handler' q hh' hq

theorem Joined.closed_of_passed (hs : Joined s) (hh : s.handlers[h]? = some handler)
    (hp : s.heap[p]? = some pair) (hpc : Pc.joined handler.pc = some p)
    (hpassed : Pc.passed handler.pc = true) : pair.closes ≠ 0 := by
  obtain ⟨pair', hp', hfits⟩ := hs.known h handler p hh (Pc.pair_of_joined hpc)
  obtain rfl := Option.mem_unique hp hp'
  exact hfits.closed hpassed

/-- A handler whose pair is complete goes on. -/
theorem Joined.goOn (hs : Joined s) (hh : s.handlers[h]? = some handler)
    (hp : s.heap[p]? = some pair) {pc : Pc} (hbefore : Pc.joined handler.pc = some p)
    (hafter : Pc.joined pc = some p) (hready : ∀ q, pc ≠ .stored q true)
    (hclosed : pair.closes ≠ 0) : Joined (s.goto h handler pc) := by
  obtain ⟨pair', hp', hfits⟩ := hs.known h handler p hh (Pc.pair_of_joined hbefore)
  obtain rfl := Option.mem_unique hp hp'
  refine hs.goto hh (fun q hq => hafter.trans (hbefore.symm.trans hq)) fun q hq => ?_
  obtain rfl := Option.mem_unique (Pc.pair_of_joined hafter) hq
  exact ⟨pair, hp, fun _ _ => hfits.place p hbefore, fun q hq => absurd hq (hready q),
    fun _ => hclosed⟩

/-- A handler stores its connection in its pair, or closes the channel of it. -/
theorem Joined.setPair (hs : Joined s) (hh : s.handlers[h]? = some handler)
    (hp : s.heap[p]? = some pair) {pair' : RelayPair} {pc : Pc}
    (hkeep : ∀ q, Pc.joined handler.pc = some q → Pc.joined pc = some q)
    (hpc : Pc.joined pc = some p) (hfits : Fits pair' handler.request.role pc)
    (hmono : ∀ role pc, Fits pair role pc → Fits pair' role pc)
    (hslots : ∀ role c, pair'.slot role = some c →
      pair.slot role = some c ∨ role = handler.request.role ∧ c = h)
    (hfull : pair'.closes ≠ 0 → pair'.bothReady = true) :
    Joined ((s.setPair p pair').goto h handler pc) where
  slots q pair'' role c hq hslot := by
    rcases Tally.getElem?_set_cases hq with ⟨rfl, rfl⟩ | ⟨-, hq⟩
    · rcases hslots role c hslot with hslot | ⟨rfl, rfl⟩
      · exact (hs.slots q pair role c hp hslot).goto (s := s.setPair q pair'') hh hkeep
      · exact member_goto_self (s := s.setPair q pair'') hh hpc
    · exact (hs.slots q pair'' role c hq hslot).goto (s := s.setPair p pair') hh hkeep
  full q pair'' hq := by
    rcases Tally.getElem?_set_cases hq with ⟨rfl, rfl⟩ | ⟨-, hq⟩
    · exact hfull
    · exact hs.full q pair'' hq
  mapped key q hq := by
    rw [RelayWSHub.goto, RelayWSHub.setPair, List.length_set]
    exact hs.mapped key q hq
  known h' handler' q hh' hq := by
    have hnew : (s.heap.set p pair')[p]? = some pair' :=
      List.getElem?_set_self (List.getElem?_eq_some_iff.mp hp).1
    rcases Tally.getElem?_set_cases hh' with ⟨-, rfl⟩ | ⟨-, hh'⟩
    · obtain rfl := Option.mem_unique (Pc.pair_of_joined hpc) hq
      exact ⟨pair', hnew, hfits⟩
    · obtain ⟨pair'', hq', hfits'⟩ := hs.known h' handler' q hh' hq
      by_cases hqp : q = p
      · subst hqp
        obtain rfl := Option.mem_unique hp hq'
        exact ⟨pair', hnew, hmono _ _ hfits'⟩
      · exact ⟨pair'', (List.getElem?_set_ne (Ne.symm hqp)).trans hq', hfits'⟩

theorem Joined.getOrCreatePair (hs : Joined s) (key : String) :
    Joined (s.getOrCreatePair key).2 ∧
      ∃ pair, (s.getOrCreatePair key).2.heap[(s.getOrCreatePair key).1]? = some pair := by
  rw [RelayWSHub.getOrCreatePair]
  split
  next p hkey => exact ⟨hs, _, List.getElem?_eq_getElem (hs.mapped key p hkey)⟩
  next hkey =>
    refine ⟨⟨?_, ?_, ?_, ?_⟩, {}, by simp⟩
    · intro p pair role c hp hslot
      rcases Tally.getElem?_concat_cases hp with hp | ⟨-, rfl⟩
      · exact hs.slots p pair role c hp hslot
      · cases role <;> cases hslot
    · intro p pair hp hcloses
      rcases Tally.getElem?_concat_cases hp with hp | ⟨-, rfl⟩
      · exact hs.full p pair hp hcloses
      · exact absurd rfl hcloses
    · intro key' p hp
      simp only [Function.update_apply] at hp
      rw [List.length_append, List.length_singleton]
      split_ifs at hp with heq
      · obtain rfl := Option.some.inj hp
        exact Nat.lt_succ_self _
      · exact Nat.lt_succ_of_lt (hs.mapped key' p hp)
    · intro h handler p hh hp
      obtain ⟨pair, hpair, hfits⟩ := hs.known h handler p hh hp
      exact ⟨pair, Tally.getElem?_concat_of_some hpair, hfits⟩

theorem handlers_getOrCreatePair (s : RelayWSHub) (key : String) :
    (s.getOrCreatePair key).2.handlers = s.handlers := by
  rw [RelayWSHub.getOrCreatePair]
  split <;> rfl

theorem Joined.removePair (hs : Joined s) (key : String) : Joined (s.removePair key) := by
  refine ⟨hs.slots, hs.full, fun key' p hp => ?_, hs.known⟩
  simp only [RelayWSHub.removePair, Function.update_apply] at hp
  split_ifs at hp
  exact hs.mapped key' p hp

theorem Joined.step_handle {s' : RelayWSHub} (hs : Joined s) (hh : s.handlers[h]? = some handler)
    (hstep : Steps s h handler s') : Joined s' := by
  cases hstep with
  | getPair hpc =>
      obtain ⟨hs', pair, hpair⟩ := hs.getOrCreatePair handler.request.key
      have hh' := hh
      rw [← handlers_getOrCreatePair s handler.request.key] at hh'
      apply hs'.goto hh' (by simp [hpc, Pc.joined])
      intro q hq
      obtain rfl := Option.some.inj hq
      exact ⟨pair, hpair, by simp [Pc.joined], by simp, by simp [Pc.passed]⟩
  | @store p pair hpc hpair =>
      apply hs.setPair hh hpair (by simp [hpc, Pc.joined]) rfl
      · exact ⟨by simp, by simp, by simp [Pc.passed]⟩
      · exact fun role pc hfits => hfits.store handler.request.role h
      · intro role c hslot
        by_cases hrole : role = handler.request.role
        · subst hrole
          rw [RelayPair.slot_store, Function.update_self] at hslot
          exact .inr ⟨rfl, (Option.some.inj hslot).symm⟩
        · rw [RelayPair.slot_store, Function.update_of_ne hrole] at hslot
          exact .inl hslot
      · intro hcloses
        rw [RelayPair.closes_store] at hcloses
        exact pair.bothReady_store _ _ (hs.full p pair hpair hcloses)
  | @close p pair hpc hpair =>
      obtain ⟨pair', hpair', hfits⟩ := hs.known h handler p hh (by rw [hpc]; rfl)
      obtain rfl := Option.mem_unique hpair hpair'
      have hjoined : Pc.joined (if pair.closes = 0 then .released p else .panicked p) = some p := by
        split <;> rfl
      apply hs.setPair hh hpair (fun q hq => ?_) hjoined
      · refine ⟨fun q _ => ?_, fun q hq => ?_, fun _ => Nat.succ_ne_zero _⟩
        · rw [RelayPair.slot_closes]
          exact hfits.place p (by rw [hpc]; rfl)
        · split at hq <;> cases hq
      · exact fun role pc hfits => hfits.close
      · intro role c hslot
        rw [RelayPair.slot_closes] at hslot
        exact .inl hslot
      · exact fun _ => hfits.complete p hpc
      · rw [hpc] at hq
        exact hjoined.trans hq
  | wait hpc hpair hclosed =>
      exact hs.goOn hh hpair (by rw [hpc]; rfl) rfl (by simp) hclosed
  | @relay p pair hpc hpair =>
      have hclosed := hs.closed_of_passed hh hpair (by rw [hpc]; rfl) (by rw [hpc]; rfl)
      cases handler.request.role
      · exact hs.goOn hh hpair (by rw [hpc]; rfl) rfl (by simp) hclosed
      · exact hs.goOn hh hpair (by rw [hpc]; rfl) rfl (by simp) hclosed
  | @relayEnd p _ _ hpc | @closeConn p hpc =>
      obtain ⟨pair, hpair, hfits⟩ := hs.known h handler p hh (by rw [hpc]; rfl)
      exact hs.goOn hh hpair (by rw [hpc]; rfl) rfl (by simp) (hfits.closed (by rw [hpc]; rfl))
  | @removePair p hpc =>
      obtain ⟨pair, hpair, hfits⟩ := hs.known h handler p hh (by rw [hpc]; rfl)
      exact (hs.removePair _).goOn hh hpair (by rw [hpc]; rfl) rfl (by simp)
        (hfits.closed (by rw [hpc]; rfl))

end Steps

theorem Joined.step {s s' : RelayWSHub} {a : Action} (hs : Joined s)
    (hstep : step s a = some s') : Joined s' := by
  cases a with
  | connect q =>
      obtain ⟨request, -, rfl⟩ := Option.map_eq_some_iff.mp hstep
      refine ⟨fun p pair role c hp hslot => ?_, hs.full, hs.mapped, fun h handler p hh hp => ?_⟩
      · obtain ⟨handler, hc, hrest⟩ := hs.slots p pair role c hp hslot
        exact ⟨handler, Tally.getElem?_concat_of_some hc, hrest⟩
      · rcases Tally.getElem?_concat_cases hh with hh | ⟨-, rfl⟩
        · exact hs.known h handler p hh hp
        · cases hp
  | handle h =>
      obtain ⟨handler, hh, hsteps⟩ := steps_of_handle hstep
      exact hs.step_handle hh hsteps

/-! ## One loop per connection -/

/-- A handler that is stored in `pair` and has yet to read it, unless it is
about to panic. -/
def awaits (pair : RelayPair) : Pc → Bool
  | .stored _ true => pair.closes = 0
  | .stored _ false | .released _ => true
  | _ => false

/-- A handler that is stored in `pair` and runs a loop sooner or later. -/
def takesPart (pair : RelayPair) : Pc → Bool
  | .upgraded | .gotPair _ | .panicked _ => false
  | .stored _ true => pair.closes = 0
  | _ => true

/-- No connection is stored in the place of one whose handler has yet to read
the pair. -/
def KeepsWaiting (s : RelayWSHub) : Action → Prop
  | .connect _ => True
  | .handle h => ∀ handler ∈ s.handlers[h]?, ∀ p ∈ storesIn handler, ∀ pair ∈ s.heap[p]?,
      ∀ c ∈ pair.slot handler.request.role, ∀ occupant ∈ s.handlers[c]?,
        awaits pair occupant.pc = false

instance decidableKeepsWaiting (s : RelayWSHub) : ∀ a, Decidable (KeepsWaiting s a)
  | .connect _ => inferInstanceAs (Decidable True)
  | .handle h => inferInstanceAs (Decidable (∀ handler ∈ s.handlers[h]?, ∀ p ∈ storesIn handler,
      ∀ pair ∈ s.heap[p]?, ∀ c ∈ pair.slot handler.request.role, ∀ occupant ∈ s.handlers[c]?,
        awaits pair occupant.pc = false))

/-- **The loop invariant**: a handler that has yet to read its pair still has
its place in it, one handler takes part in a pair in each role, and a loop goes
from the handler's own connection to one of the other role. -/
structure Loops (s : RelayWSHub) : Prop where
  own : ∀ (c : Nat) (handler : Handler) (p : Nat) (pair : RelayPair),
    s.handlers[c]? = some handler → Pc.joined handler.pc = some p → s.heap[p]? = some pair →
      awaits pair handler.pc = true → pair.slot handler.request.role = some c
  one : ∀ (c d : Nat) (handler handler' : Handler) (p : Nat) (pair : RelayPair),
    s.handlers[c]? = some handler → s.handlers[d]? = some handler' →
      handler.request.role = handler'.request.role → Pc.joined handler.pc = some p →
      Pc.joined handler'.pc = some p → s.heap[p]? = some pair →
      takesPart pair handler.pc = true → takesPart pair handler'.pc = true → c = d
  loop : ∀ (c : Nat) (handler : Handler) (p : Nat) (src dst : Option Nat),
    s.handlers[c]? = some handler → handler.pc = .relaying p src dst →
      src = some c ∧ ∃ d, dst = some d ∧ Member s p handler.request.role.opposite d

theorem loops_empty : Loops {} where
  own := by simp
  one := by simp
  loop := by simp

/-- Who is stored in a pair of `t` was stored in it in `s`, in the same place,
and was not further then. -/
def Grows (s t : RelayWSHub) : Prop :=
  ∀ (c : Nat) (handler' : Handler) (p : Nat) (pair' : RelayPair),
    t.handlers[c]? = some handler' → Pc.joined handler'.pc = some p → t.heap[p]? = some pair' →
      ∃ handler pair, s.handlers[c]? = some handler ∧ handler.request = handler'.request ∧
        Pc.joined handler.pc = some p ∧ s.heap[p]? = some pair ∧
        (∀ role, pair'.slot role = pair.slot role) ∧
        (awaits pair' handler'.pc = true → awaits pair handler.pc = true) ∧
        (takesPart pair' handler'.pc = true → takesPart pair handler.pc = true)

theorem Loops.of_grows {s t : RelayWSHub} (hs : Loops s) (ht : Grows s t)
    (hloop : ∀ (c : Nat) (handler : Handler) (p : Nat) (src dst : Option Nat),
      t.handlers[c]? = some handler → handler.pc = .relaying p src dst →
        src = some c ∧ ∃ d, dst = some d ∧ Member t p handler.request.role.opposite d) :
    Loops t where
  own c handler' p pair' hc hp hpair hawaits := by
    obtain ⟨handler, pair, hc, hreq, hp, hpair, hslot, ha, -⟩ := ht c handler' p pair' hc hp hpair
    rw [hslot, ← hreq]
    exact hs.own c handler p pair hc hp hpair (ha hawaits)
  one c d handler₁' handler₂' p pair' hc hd hrole hp₁ hp₂ hpair htakes₁ htakes₂ := by
    obtain ⟨handler₁, pair, hc, hreq₁, hp₁, hpair₁, -, -, ha₁⟩ := ht c _ p pair' hc hp₁ hpair
    obtain ⟨handler₂, pair₂, hd, hreq₂, hp₂, hpair₂, -, -, ha₂⟩ := ht d _ p pair' hd hp₂ hpair
    obtain rfl := Option.mem_unique hpair₁ hpair₂
    exact hs.one c d handler₁ handler₂ p pair hc hd (by rw [hreq₁, hreq₂, hrole]) hp₁ hp₂ hpair₁
      (ha₁ htakes₁) (ha₂ htakes₂)
  loop := hloop

section LoopSteps

variable {s t : RelayWSHub} {h p : Nat} {handler : Handler} {pair : RelayPair} {pc : Pc}

theorem awaits_mono {pair' : RelayPair} (hle : pair.closes ≤ pair'.closes)
    (h : awaits pair' pc = true) : awaits pair pc = true := by
  cases pc with
  | stored q bothReady =>
      cases bothReady with
      | true =>
          simp only [awaits, decide_eq_true_eq] at h ⊢
          omega
      | false => rfl
  | released q => rfl
  | _ => cases h

theorem takesPart_mono {pair' : RelayPair} (hle : pair.closes ≤ pair'.closes)
    (h : takesPart pair' pc = true) : takesPart pair pc = true := by
  cases pc with
  | stored q bothReady =>
      cases bothReady with
      | true =>
          simp only [takesPart, decide_eq_true_eq] at h ⊢
          omega
      | false => rfl
  | _ => exact h

/-- Before the channel is closed everybody in the pair has yet to read it. -/
theorem awaits_of_takesPart {role : Role} (hfits : Fits pair role pc) (hopen : pair.closes = 0)
    (h : takesPart pair pc = true) : awaits pair pc = true := by
  cases pc with
  | stored q bothReady =>
      cases bothReady with
      | true => exact h
      | false => rfl
  | released q => rfl
  | upgraded | gotPair q | panicked q => cases h
  | relaying q src dst | relayed q | connClosed q | done q =>
      exact absurd hopen (hfits.closed rfl)

/-- One handler goes on, and no pair but its own changes. -/
theorem Grows.set (hh : s.handlers[h]? = some handler)
    (ht : t.handlers = s.handlers.set h { handler with pc })
    (hjoined : Pc.joined pc = Pc.joined handler.pc)
    (hheap : ∀ (c : Nat) (handler' : Handler) (q : Nat) (pair' : RelayPair),
      s.handlers[c]? = some handler' → Pc.joined handler'.pc = some q → t.heap[q]? = some pair' →
        ∃ pair, s.heap[q]? = some pair ∧ (∀ role, pair'.slot role = pair.slot role) ∧
          pair.closes ≤ pair'.closes)
    (hown : ∀ (q : Nat) (pair pair' : RelayPair), s.heap[q]? = some pair →
      t.heap[q]? = some pair' → Pc.joined handler.pc = some q →
        (awaits pair' pc = true → awaits pair handler.pc = true) ∧
        (takesPart pair' pc = true → takesPart pair handler.pc = true)) :
    Grows s t := by
  intro c handler' q pair' hc hq hpair'
  rw [ht] at hc
  rcases Tally.getElem?_set_cases hc with ⟨rfl, rfl⟩ | ⟨-, hc⟩
  · rw [hjoined] at hq
    obtain ⟨pair, hpair, hslot, -⟩ := hheap c handler q pair' hh hq hpair'
    obtain ⟨ha, ht⟩ := hown q pair pair' hpair hpair' hq
    exact ⟨handler, pair, hh, rfl, hq, hpair, hslot, ha, ht⟩
  · obtain ⟨pair, hpair, hslot, hle⟩ := hheap c handler' q pair' hc hq hpair'
    exact ⟨handler', pair, hc, rfl, hq, hpair, hslot, awaits_mono hle, takesPart_mono hle⟩

/-- What the loops of the other handlers and of `h` need when `h` goes on. -/
theorem Loops.loop_goto (hs : Loops s) (hh : s.handlers[h]? = some handler)
    (hkeep : ∀ q, Pc.joined handler.pc = some q → Pc.joined pc = some q)
    (hmine : ∀ p src dst, pc = .relaying p src dst → src = some h ∧
      ∃ d, dst = some d ∧ Member s p handler.request.role.opposite d)
    (c : Nat) (handler' : Handler) (p : Nat) (src dst : Option Nat)
    (hc : (s.goto h handler pc).handlers[c]? = some handler')
    (hpc : handler'.pc = .relaying p src dst) :
    src = some c ∧ ∃ d, dst = some d ∧
      Member (s.goto h handler pc) p handler'.request.role.opposite d := by
  rcases Tally.getElem?_set_cases hc with ⟨rfl, rfl⟩ | ⟨-, hc⟩
  · obtain ⟨hsrc, d, hdst, hd⟩ := hmine p src dst hpc
    exact ⟨hsrc, d, hdst, hd.goto hh hkeep⟩
  · obtain ⟨hsrc, d, hdst, hd⟩ := hs.loop c handler' p src dst hc hpc
    exact ⟨hsrc, d, hdst, hd.goto hh hkeep⟩

/-- A handler goes on without changing its pair. -/
theorem Loops.goto (hs : Loops s) (hh : s.handlers[h]? = some handler)
    (hjoined : Pc.joined pc = Pc.joined handler.pc)
    (ha : ∀ pair, awaits pair pc = true → awaits pair handler.pc = true)
    (ht : ∀ pair, takesPart pair pc = true → takesPart pair handler.pc = true)
    (hmine : ∀ p src dst, pc = .relaying p src dst → src = some h ∧
      ∃ d, dst = some d ∧ Member s p handler.request.role.opposite d) :
    Loops (s.goto h handler pc) := by
  apply hs.of_grows
  · apply Grows.set hh rfl hjoined
    · exact fun c handler' q pair' _ _ hq => ⟨pair', hq, fun _ => rfl, le_rfl⟩
    · intro q pair pair' hq hq' _
      obtain rfl := Option.mem_unique hq hq'
      exact ⟨ha pair, ht pair⟩
  · exact hs.loop_goto hh (fun q hq => hjoined.trans hq) hmine

theorem Loops.getOrCreatePair (hj : Joined s) (hs : Loops s) (key : String) :
    Loops (s.getOrCreatePair key).2 := by
  rw [RelayWSHub.getOrCreatePair]
  split
  · exact hs
  · apply hs.of_grows
    · intro c handler' q pair' hc hq hpair'
      obtain ⟨pair, hpair, -⟩ := hj.known c handler' q hc (Pc.pair_of_joined hq)
      obtain rfl := Option.mem_unique (Tally.getElem?_concat_of_some hpair) hpair'
      exact ⟨handler', pair, hc, rfl, hq, hpair, fun _ => rfl, id, id⟩
    · exact hs.loop

/-- A handler that is stored in a pair and takes part in it is the only one of
its role. -/
theorem Loops.newcomer (hs : Loops s) (hj : Joined s) (hpc : handler.pc = .gotPair p)
    (hpair : s.heap[p]? = some pair) (hh : s.handlers[h]? = some handler)
    (hok : KeepsWaiting s (.handle h)) {d : Nat} {handler' : Handler}
    (hd : s.handlers[d]? = some handler') (hrole : handler'.request.role = handler.request.role)
    (hp : Pc.joined handler'.pc = some p)
    (hnew : takesPart (pair.store handler.request.role h)
      (.stored p (pair.store handler.request.role h).bothReady) = true) :
    ¬ takesPart (pair.store handler.request.role h) handler'.pc = true := by
  intro hold
  have hcloses := pair.closes_store handler.request.role h
  have hopen : pair.closes = 0 := by
    by_contra hne
    rw [pair.bothReady_store _ _ (hj.full p pair hpair hne)] at hnew
    simp only [takesPart, decide_eq_true_eq, hcloses] at hnew
    exact hne hnew
  obtain ⟨pair', hpair', hfits⟩ := hj.known d handler' p hd (Pc.pair_of_joined hp)
  obtain rfl := Option.mem_unique hpair hpair'
  have hawaits := awaits_of_takesPart hfits hopen (takesPart_mono (le_of_eq hcloses.symm) hold)
  have hslot := hs.own d handler' p pair hd hp hpair hawaits
  rw [hrole] at hslot
  have hnot := hok handler hh p (by simp [storesIn, hpc]) pair hpair d hslot handler' hd
  rw [hawaits] at hnot
  cases hnot

theorem Loops.store (hj : Joined s) (hs : Loops s) (hh : s.handlers[h]? = some handler)
    (hpc : handler.pc = .gotPair p) (hpair : s.heap[p]? = some pair)
    (hok : KeepsWaiting s (.handle h)) :
    Loops ((s.setPair p (pair.store handler.request.role h)).goto h handler
      (.stored p (pair.store handler.request.role h).bothReady)) where
  own c handler' q pair' hc hq hpair' hawaits := by
    rcases Tally.getElem?_set_cases hc with ⟨rfl, rfl⟩ | ⟨hch, hc⟩
    · obtain rfl := Option.some.inj hq
      rcases Tally.getElem?_set_cases hpair' with ⟨-, rfl⟩ | ⟨hqp, -⟩
      · rw [RelayPair.slot_store, Function.update_self]
      · exact absurd rfl hqp
    · rcases Tally.getElem?_set_cases hpair' with ⟨rfl, rfl⟩ | ⟨-, hpair'⟩
      · have hawaits' := awaits_mono (le_of_eq (pair.closes_store _ _).symm) hawaits
        have hslot := hs.own c handler' q pair hc hq hpair hawaits'
        by_cases hrole : handler'.request.role = handler.request.role
        · rw [hrole] at hslot
          have hnot := hok handler hh q (by simp [storesIn, hpc]) pair hpair c hslot handler' hc
          rw [hawaits'] at hnot
          cases hnot
        · rwa [RelayPair.slot_store, Function.update_of_ne hrole]
      · exact hs.own c handler' q pair' hc hq hpair' hawaits
  one c d handler₁ handler₂ q pair' hc hd hrole hq₁ hq₂ hpair' ht₁ ht₂ := by
    rcases Tally.getElem?_set_cases hpair' with ⟨rfl, rfl⟩ | ⟨hqp, hpair'⟩
    · rcases Tally.getElem?_set_cases hc with ⟨rfl, rfl⟩ | ⟨hch, hc⟩
      · rcases Tally.getElem?_set_cases hd with ⟨rfl, rfl⟩ | ⟨hdh, hd⟩
        · rfl
        · exact absurd ht₂ (hs.newcomer hj hpc hpair hh hok hd hrole.symm hq₂ ht₁)
      · rcases Tally.getElem?_set_cases hd with ⟨rfl, rfl⟩ | ⟨hdh, hd⟩
        · exact absurd ht₁ (hs.newcomer hj hpc hpair hh hok hc hrole hq₁ ht₂)
        · have hle := le_of_eq (pair.closes_store handler.request.role h).symm
          exact hs.one c d handler₁ handler₂ q pair hc hd hrole hq₁ hq₂ hpair
            (takesPart_mono hle ht₁) (takesPart_mono hle ht₂)
    · rcases Tally.getElem?_set_cases hc with ⟨-, rfl⟩ | ⟨-, hc⟩
      · exact absurd (Option.some.inj hq₁).symm hqp
      · rcases Tally.getElem?_set_cases hd with ⟨-, rfl⟩ | ⟨-, hd⟩
        · exact absurd (Option.some.inj hq₂).symm hqp
        · exact hs.one c d handler₁ handler₂ q pair' hc hd hrole hq₁ hq₂ hpair' ht₁ ht₂
  loop := hs.loop_goto hh (by simp [hpc, Pc.joined]) (by simp)

theorem Loops.close (hs : Loops s) (hh : s.handlers[h]? = some handler)
    (hpc : handler.pc = .stored p true) (hpair : s.heap[p]? = some pair) :
    Loops ((s.setPair p { pair with closes := pair.closes + 1 }).goto h handler
      (if pair.closes = 0 then .released p else .panicked p)) := by
  have hjoined : Pc.joined (if pair.closes = 0 then .released p else .panicked p) =
      Pc.joined handler.pc := by
    rw [hpc]
    split <;> rfl
  apply hs.of_grows
  · apply Grows.set hh rfl hjoined
    · intro c handler' q pair' _ _ hq
      rcases Tally.getElem?_set_cases hq with ⟨rfl, rfl⟩ | ⟨-, hq⟩
      · exact ⟨pair, hpair, fun role => pair.slot_closes role _, Nat.le_succ _⟩
      · exact ⟨pair', hq, fun _ => rfl, le_rfl⟩
    · intro q pair₀ pair' hq hq' hjq
      rw [hpc] at hjq ⊢
      obtain rfl := Option.some.inj hjq
      obtain rfl := Option.mem_unique hpair hq
      by_cases hopen : pair.closes = 0
      · simp [awaits, takesPart, hopen]
      · simp [awaits, takesPart, hopen]
  · exact hs.loop_goto hh (fun q hq => hjoined.trans hq) fun q src dst hq => by
      split at hq <;> cases hq

/-- A handler that reads its pair finds itself there, and one of the other role. -/
theorem Loops.relay (hj : Joined s) (hs : Loops s) (hh : s.handlers[h]? = some handler)
    (hpc : handler.pc = .released p) (hpair : s.heap[p]? = some pair) :
    pair.slot handler.request.role = some h ∧
      ∃ d, pair.slot handler.request.role.opposite = some d ∧
        Member s p handler.request.role.opposite d := by
  have hjoined : Pc.joined handler.pc = some p := by rw [hpc]; rfl
  have hclosed := hj.closed_of_passed hh hpair hjoined (by rw [hpc]; rfl)
  have hfull := pair.bothReady_iff.mp (hj.full p pair hpair hclosed) handler.request.role.opposite
  obtain ⟨d, hd⟩ := Option.ne_none_iff_exists'.mp hfull
  exact ⟨hs.own h handler p pair hh hjoined hpair (by rw [hpc]; rfl), d, hd,
    hj.slots p pair _ d hpair hd⟩

theorem Loops.step_handle (hj : Joined s) (hs : Loops s) (hh : s.handlers[h]? = some handler)
    (hok : KeepsWaiting s (.handle h)) (hstep : Steps s h handler t) : Loops t := by
  cases hstep with
  | getPair hpc =>
      rw [← handlers_getOrCreatePair s handler.request.key] at hh
      exact (hs.getOrCreatePair hj _).goto hh (by simp [hpc, Pc.joined]) (by simp [awaits])
        (by simp [takesPart]) (by simp)
  | store hpc hpair => exact hs.store hj hh hpc hpair hok
  | close hpc hpair => exact hs.close hh hpc hpair
  | wait hpc hpair hclosed =>
      exact hs.goto hh (by simp [hpc, Pc.joined]) (by simp [hpc, awaits])
        (by simp [hpc, takesPart]) (by simp)
  | @relay p pair hpc hpair =>
      obtain ⟨hsrc, d, hdst, hd⟩ := hs.relay hj hh hpc hpair
      cases hrole : handler.request.role with
      | sender =>
          rw [hrole] at hsrc hdst hd
          apply hs.goto hh (by simp [hpc, Pc.joined]) (by simp [awaits]) (by simp [hpc, takesPart])
          intro q src dst hq
          obtain ⟨rfl, rfl, rfl⟩ := Pc.relaying.inj hq
          exact ⟨hsrc, d, hdst, hrole ▸ hd⟩
      | receiver =>
          rw [hrole] at hsrc hdst hd
          apply hs.goto hh (by simp [hpc, Pc.joined]) (by simp [awaits]) (by simp [hpc, takesPart])
          intro q src dst hq
          obtain ⟨rfl, rfl, rfl⟩ := Pc.relaying.inj hq
          exact ⟨hsrc, d, hdst, hrole ▸ hd⟩
  | relayEnd hpc | closeConn hpc =>
      exact hs.goto hh (by simp [hpc, Pc.joined]) (by simp [awaits]) (by simp [hpc, takesPart])
        (by simp)
  | removePair hpc =>
      have hs' : Loops (s.removePair handler.request.key) := ⟨hs.own, hs.one, hs.loop⟩
      exact hs'.goto hh (by simp [hpc, Pc.joined]) (by simp [awaits]) (by simp [hpc, takesPart])
        (by simp)

end LoopSteps

/-- **Every step keeps the loop invariant**, if it meets the condition. -/
theorem Loops.step {s s' : RelayWSHub} {a : Action} (hj : Joined s) (hs : Loops s)
    (hok : KeepsWaiting s a) (hstep : step s a = some s') : Loops s' := by
  cases a with
  | connect q =>
      obtain ⟨request, -, rfl⟩ := Option.map_eq_some_iff.mp hstep
      apply hs.of_grows
      · intro c handler' p pair' hc hp hpair'
        rcases Tally.getElem?_concat_cases hc with hc | ⟨-, rfl⟩
        · exact ⟨handler', pair', hc, rfl, hp, hpair', fun _ => rfl, id, id⟩
        · cases hp
      · intro c handler' p src dst hc hpc
        rcases Tally.getElem?_concat_cases hc with hc | ⟨-, rfl⟩
        · obtain ⟨hsrc, d, hdst, handler'', hd, hrest⟩ := hs.loop c handler' p src dst hc hpc
          exact ⟨hsrc, d, hdst, handler'', Tally.getElem?_concat_of_some hd, hrest⟩
        · cases hpc
  | handle h =>
      obtain ⟨handler, hh, hsteps⟩ := steps_of_handle hstep
      exact hs.step_handle hj hh hok hsteps

/-- The handler `h` is in `wsRelay(src, dst)`. -/
def Relays (s : RelayWSHub) (h : Nat) (src dst : Option Nat) : Prop :=
  ∃ handler p, s.handlers[h]? = some handler ∧ handler.pc = .relaying p src dst

/-- A connection is the source of at most one loop, its own handler's, and the
destination of at most one. -/
structure OneLoopEach (s : RelayWSHub) : Prop where
  own : ∀ h src dst, Relays s h src dst → src = some h
  source : ∀ h h' c dst dst', Relays s h (some c) dst → Relays s h' (some c) dst' → h = h'
  destination : ∀ h h' src src' c, Relays s h src (some c) → Relays s h' src' (some c) → h = h'

theorem Loops.oneLoopEach {s : RelayWSHub} (hj : Joined s) (hs : Loops s) : OneLoopEach s where
  own := by
    rintro h src dst ⟨handler, p, hh, hpc⟩
    exact (hs.loop h handler p src dst hh hpc).1
  source := by
    rintro h h' c dst dst' ⟨handler, p, hh, hpc⟩ ⟨handler', p', hh', hpc'⟩
    have hc := Option.some.inj (hs.loop h handler p _ dst hh hpc).1
    have hc' := Option.some.inj (hs.loop h' handler' p' _ dst' hh' hpc').1
    exact hc.symm.trans hc'
  destination := by
    rintro h h' src src' c ⟨handler, p, hh, hpc⟩ ⟨handler', p', hh', hpc'⟩
    obtain ⟨-, d, hd, peer, hpeer, hrole, hp⟩ := hs.loop h handler p src _ hh hpc
    obtain ⟨-, d', hd', peer', hpeer', hrole', hp'⟩ := hs.loop h' handler' p' src' _ hh' hpc'
    -- both loops end at the same connection, so the two handlers are in one pair and one role
    obtain rfl := Option.some.inj hd
    obtain rfl := Option.some.inj hd'
    obtain rfl := Option.mem_unique hpeer hpeer'
    obtain rfl := Option.mem_unique hp hp'
    obtain ⟨pair, hpair, -⟩ := hj.known h handler p hh (by rw [hpc]; rfl)
    exact hs.one h h' handler handler' p pair hh hh'
      (Role.opposite_injective (hrole.symm.trans hrole')) (by rw [hpc]; rfl) (by rw [hpc']; rfl)
      hpair (by rw [hpc]; rfl) (by rw [hpc']; rfl)

/-- **One relay loop per connection**, in every run in which no connection is
stored in the place of one whose handler has yet to read the pair. -/
theorem one_loop_each (s : RelayWSHub) (h : Runs.ReachWhen step KeepsWaiting {} s) :
    OneLoopEach s := by
  have hs : Joined s ∧ Loops s := by
    apply h.invariant ⟨joined_empty, loops_empty⟩
    exact fun u a v hu hok hstep => ⟨hu.1.step hstep, hu.2.step hu.1 hok hstep⟩
  exact hs.2.oneLoopEach hs.1

theorem one_loop_each_paired :
    ∃ s, Runs.run step {} (pairedRun ++ [.handle 0, .handle 1]) = some s ∧
      Relays s 0 (some 0) (some 1) ∧ Relays s 1 (some 1) (some 0) ∧ OneLoopEach s :=
  ⟨_, rfl, ⟨_, 0, rfl, rfl⟩, ⟨_, 0, rfl, rfl⟩,
    one_loop_each _ (Runs.reachWhen_of_run (pairedRun ++ [.handle 0, .handle 1]) rfl (by decide))⟩

/-- Two receivers wait for a sender. When it comes, both wake with the second
one as the source of their loops. -/
def replacedRun : List Action :=
  [.connect ⟨"room", "receiver", "0"⟩, .handle 0, .handle 0,
    .connect ⟨"room", "receiver", "0"⟩, .handle 1, .handle 1,
    .connect ⟨"room", "sender", "0"⟩, .handle 2, .handle 2, .handle 2,
    .handle 0, .handle 0, .handle 1, .handle 1]

theorem not_one_loop_each_replaced :
    ¬ ∀ s, Runs.Reach step {} s → OneLoopEach s := by
  intro h
  have heach := h _ (Runs.reach_of_run replacedRun rfl)
  have hsame := heach.source 0 1 1 (some 2) (some 2) ⟨_, 0, rfl, rfl⟩ ⟨_, 0, rfl, rfl⟩
  exact absurd hsame (by decide)

end RelayWSHub

end FastTransfer.Server
