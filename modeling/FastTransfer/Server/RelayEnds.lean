import FastTransfer.Server.RelayLoops

/-!
# What the relay hub leaves behind

Every handler of `HandleRelayWS` takes a bounded number of steps of its own. When
no handler has a step left, the ones that have not ended are those whose peer never
came (they wait at `ready` for ever, also when their client has gone) and those
that panicked; the map of pairs holds the keys of such handlers only.
-/

namespace FastTransfer.Server

/-- The steps that a handler has before it, at most. -/
def Pc.stepsLeft : Pc → Nat
  | .upgraded => 7
  | .gotPair _ => 6
  | .stored _ _ => 5
  | .released _ => 4
  | .relaying _ _ _ => 3
  | .relayed _ => 2
  | .connClosed _ => 1
  | .done _ | .panicked _ => 0

/-- The handler has come to its end. -/
def Pc.ended : Pc → Bool
  | .done _ => true
  | _ => false

namespace RelayWSHub

/-- How many steps all handlers may still take. -/
def stepsLeft (s : RelayWSHub) : Nat := (s.handlers.map fun handler => handler.pc.stepsLeft).sum

/-- **What every run keeps**: a complete pair is released, or a handler is about to
release it, and a key in the map belongs to a handler that has not ended. -/
structure Tended (s : RelayWSHub) : Prop where
  released : ∀ (p : Nat) (pair : RelayPair), s.heap[p]? = some pair → pair.bothReady = true →
    pair.closes ≠ 0 ∨ ∃ handler ∈ s.handlers, handler.pc = .stored p true
  mapped : ∀ (key : String) (p : Nat), s.pairs key = some p →
    ∃ handler ∈ s.handlers, handler.request.key = key ∧ handler.pc.ended = false

theorem tended_empty : Tended {} where
  released := by simp
  mapped := by simp

section Steps

variable {s t : RelayWSHub} {h p : Nat} {handler : Handler} {pc : Pc}

/-- A handler in the table, or its successor. -/
theorem mem_set_of_mem {other : Handler} (hh : s.handlers[h]? = some handler)
    (hmem : other ∈ s.handlers) :
    other ∈ s.handlers.set h { handler with pc } ∨ other = handler := by
  obtain ⟨c, hc⟩ := List.mem_iff_getElem?.mp hmem
  by_cases hch : c = h
  · subst hch
    exact .inr (Option.mem_unique hc hh)
  · refine .inl (List.mem_of_getElem? (i := c) ?_)
    rwa [List.getElem?_set_ne (Ne.symm hch)]

theorem mem_set_self (hh : s.handlers[h]? = some handler) :
    { handler with pc } ∈ s.handlers.set h { handler with pc } :=
  List.mem_of_getElem? (List.getElem?_set_self (List.getElem?_eq_some_iff.mp hh).1)

/-- A handler goes on, and a pair of the map is one from before. -/
theorem Tended.set (hs : Tended s) (hh : s.handlers[h]? = some handler)
    (ht : t.handlers = s.handlers.set h { handler with pc })
    (hheap : ∀ (p : Nat) (pair : RelayPair), t.heap[p]? = some pair → pair.bothReady = true →
      handler.pc ≠ .stored p true → pc = .stored p true ∨ pair.closes ≠ 0 ∨
        ∃ old, s.heap[p]? = some old ∧ old.bothReady = true ∧ old.closes = pair.closes)
    (hclose : ∀ (p : Nat) (pair : RelayPair), handler.pc = .stored p true →
      t.heap[p]? = some pair → pair.closes ≠ 0)
    (hpairs : ∀ key p, t.pairs key = some p → s.pairs key = some p)
    (hended : pc.ended = true → t.pairs handler.request.key = none) : Tended t where
  released p pair hpair hready := by
    rw [ht]
    by_cases hpc : handler.pc = .stored p true
    · exact .inl (hclose p pair hpc hpair)
    · rcases hheap p pair hpair hready hpc with rfl | hcloses | ⟨old, hold, hready', hsame⟩
      · exact .inr ⟨_, mem_set_self hh, rfl⟩
      · exact .inl hcloses
      · rcases hs.released p old hold hready' with hcloses | ⟨other, hother, hstored⟩
        · exact .inl (hsame ▸ hcloses)
        · rcases mem_set_of_mem hh hother with hother | rfl
          · exact .inr ⟨other, hother, hstored⟩
          · exact absurd hstored hpc
  mapped key p hp := by
    rw [ht]
    obtain ⟨other, hother, hkey, hrunning⟩ := hs.mapped key p (hpairs key p hp)
    rcases mem_set_of_mem hh hother with hother | rfl
    · exact ⟨other, hother, hkey, hrunning⟩
    · refine ⟨_, mem_set_self hh, hkey, ?_⟩
      cases hpc : pc.ended with
      | false => rfl
      | true =>
          rw [← hkey, hended hpc] at hp
          cases hp

/-- A handler goes on without releasing its pair. -/
theorem Tended.goOn (hs : Tended s) (hh : s.handlers[h]? = some handler)
    (hbefore : ∀ q, handler.pc ≠ .stored q true) (hafter : pc.ended = false) :
    Tended (s.goto h handler pc) := by
  refine hs.set hh rfl ?_ ?_ (fun _ _ => id) ?_
  · exact fun p pair hpair hready _ => .inr (.inr ⟨pair, hpair, hready, rfl⟩)
  · exact fun p pair hpc => absurd hpc (hbefore p)
  · intro hended
    rw [hafter] at hended
    cases hended

theorem Tended.getPair (hs : Tended s) (hh : s.handlers[h]? = some handler)
    (hpc : handler.pc = .upgraded) :
    Tended ((s.getOrCreatePair handler.request.key).2.goto h handler
      (.gotPair (s.getOrCreatePair handler.request.key).1)) := by
  rw [getOrCreatePair]
  cases hkey : s.pairs handler.request.key with
  | some p => exact hs.goOn hh (by simp [hpc]) rfl
  | none =>
      refine ⟨fun p pair hpair hready => ?_, fun key p hp => ?_⟩
      · rcases Tally.getElem?_concat_cases hpair with hpair | ⟨-, rfl⟩
        · rcases hs.released p pair hpair hready with hcloses | ⟨other, hother, hstored⟩
          · exact .inl hcloses
          · rcases mem_set_of_mem hh hother with hother | rfl
            · exact .inr ⟨other, hother, hstored⟩
            · rw [hpc] at hstored
              cases hstored
        · cases hready
      · by_cases hsame : key = handler.request.key
        · exact ⟨_, mem_set_self hh, hsame.symm, rfl⟩
        · have hp' : s.pairs key = some p := (Function.update_of_ne hsame _ _).symm.trans hp
          obtain ⟨other, hother, hother', hrunning⟩ := hs.mapped key p hp'
          rcases mem_set_of_mem hh hother with hother | rfl
          · exact ⟨other, hother, hother', hrunning⟩
          · exact absurd hother'.symm hsame

theorem Tended.step_handle (hs : Tended s) (hh : s.handlers[h]? = some handler)
    (hstep : Steps s h handler t) : Tended t := by
  cases hstep with
  | getPair hpc => exact hs.getPair hh hpc
  | @store p pair hpc hpair =>
      refine hs.set hh rfl (fun q pair' hq hready _ => ?_) (fun q pair' hq => ?_) (fun _ _ => id)
        fun hended => by cases hended
      · rcases Tally.getElem?_set_cases hq with ⟨rfl, rfl⟩ | ⟨-, hq⟩
        · exact .inl (by rw [hready])
        · exact .inr (.inr ⟨pair', hq, hready, rfl⟩)
      · rw [hpc] at hq
        cases hq
  | @close p pair hpc hpair =>
      refine hs.set hh rfl (fun q pair' hq hready _ => ?_) (fun q pair' hq hq' => ?_)
        (fun _ _ => id) fun hended => ?_
      · rcases Tally.getElem?_set_cases hq with ⟨-, rfl⟩ | ⟨-, hq⟩
        · exact .inr (.inl (Nat.succ_ne_zero _))
        · exact .inr (.inr ⟨pair', hq, hready, rfl⟩)
      · rcases Tally.getElem?_set_cases hq' with ⟨-, rfl⟩ | ⟨hne, -⟩
        · exact Nat.succ_ne_zero _
        · rw [hpc] at hq
          exact absurd (Pc.stored.inj hq).1.symm hne
      · split at hended <;> cases hended
  | wait hpc | relayEnd hpc | closeConn hpc => exact hs.goOn hh (by simp [hpc]) rfl
  | relay hpc =>
      refine hs.goOn hh (by simp [hpc]) ?_
      split <;> rfl
  | removePair hpc =>
      refine hs.set hh rfl (fun q pair hq hready _ => .inr (.inr ⟨pair, hq, hready, rfl⟩))
        (fun q pair hq => ?_) (fun key q hq => ?_) fun _ => Function.update_self _ _ _
      · rw [hpc] at hq
        cases hq
      · simp only [goto, removePair, Function.update_apply] at hq
        split_ifs at hq
        exact hq

theorem Tended.step {a : Action} (hs : Tended s) (hstep : step s a = some t) : Tended t := by
  cases a with
  | connect q =>
      obtain ⟨request, -, rfl⟩ := Option.map_eq_some_iff.mp hstep
      refine ⟨fun p pair hpair hready => ?_, fun key p hp => ?_⟩
      · rcases hs.released p pair hpair hready with hcloses | ⟨other, hother, hstored⟩
        · exact .inl hcloses
        · exact .inr ⟨other, List.mem_append_left _ hother, hstored⟩
      · obtain ⟨other, hother, hrest⟩ := hs.mapped key p hp
        exact ⟨other, List.mem_append_left _ hother, hrest⟩
  | handle h =>
      obtain ⟨handler, hh, hsteps⟩ := steps_of_handle hstep
      exact hs.step_handle hh hsteps

/-! ## The handlers end -/

theorem stepsLeft_set (hh : s.handlers[h]? = some handler)
    (ht : t.handlers = s.handlers.set h { handler with pc })
    (hlt : pc.stepsLeft < handler.pc.stepsLeft) : t.stepsLeft < s.stepsLeft := by
  have hsum := Tally.sum_map_set (fun handler => handler.pc.stepsLeft) (x := { handler with pc }) hh
  simp only at hsum
  rw [stepsLeft, ht, stepsLeft]
  omega

/-- Every step of a handler is one of those it has before it. -/
theorem stepsLeft_step (hstep : s.handleRelayWS h = some t) : t.stepsLeft < s.stepsLeft := by
  obtain ⟨handler, hh, hsteps⟩ := steps_of_handle hstep
  cases hsteps with
  | getPair hpc =>
      have ht : ((s.getOrCreatePair handler.request.key).2.goto h handler
          (.gotPair (s.getOrCreatePair handler.request.key).1)).handlers =
          s.handlers.set h { handler with pc := .gotPair (s.getOrCreatePair handler.request.key).1 }
          := by
        rw [goto, handlers_getOrCreatePair]
      exact stepsLeft_set hh ht (by simp [hpc, Pc.stepsLeft])
  | close hpc =>
      refine stepsLeft_set hh rfl ?_
      rw [hpc]
      split <;> simp [Pc.stepsLeft]
  | relay hpc =>
      refine stepsLeft_set hh rfl ?_
      rw [hpc]
      split <;> simp [Pc.stepsLeft]
  | store hpc | wait hpc | relayEnd hpc | closeConn hpc | removePair hpc =>
      exact stepsLeft_set hh rfl (by simp [hpc, Pc.stepsLeft])

/-- The handler waits at `ready` in a pair without a peer. -/
def Alone (s : RelayWSHub) (handler : Handler) : Prop :=
  ∃ p pair, handler.pc = .stored p false ∧ s.heap[p]? = some pair ∧ pair.closes = 0 ∧
    pair.slot handler.request.role.opposite = none

/-- A handler without a step. -/
theorem stuck_cases (hj : Joined s) (hs : Tended s) (hrest : ∀ h, s.handleRelayWS h = none)
    (hh : s.handlers[h]? = some handler) :
    handler.pc.ended = true ∨ (∃ p, handler.pc = .panicked p) ∨ Alone s handler := by
  have hstuck := hrest h
  rw [handleRelayWS, hh] at hstuck
  have hknown : ∀ p, Pc.pair handler.pc = some p →
      ∃ pair, s.heap[p]? = some pair ∧ Fits pair handler.request.role handler.pc :=
    fun p hp => hj.known h handler p hh hp
  cases hpc : handler.pc with
  | upgraded | relaying p src dst | relayed p | connClosed p => simp [hpc] at hstuck
  | gotPair p | released p =>
      obtain ⟨pair, hpair, -⟩ := hknown p (by rw [hpc]; rfl)
      simp [hpc, hpair] at hstuck
  | done p => exact .inl rfl
  | panicked p => exact .inr (.inl ⟨p, rfl⟩)
  | stored p bothReady =>
      obtain ⟨pair, hpair, hfits⟩ := hknown p (by rw [hpc]; rfl)
      cases bothReady with
      | true => simp [hpc, hpair] at hstuck
      | false =>
          have hopen : pair.closes = 0 := by
            by_contra hcloses
            simp [hpc, hpair, hcloses] at hstuck
          refine .inr (.inr ⟨p, pair, hpc, hpair, hopen, ?_⟩)
          by_contra hslot
          have hready : pair.bothReady = true := by
            rw [pair.bothReady_iff]
            exact Role.forall_of_opposite (hfits.place p (by rw [hpc]; rfl)) hslot
          rcases hs.released p pair hpair hready with hcloses | ⟨other, hother, hstored⟩
          · exact hcloses hopen
          · -- it would have a step
            obtain ⟨c, hc⟩ := List.mem_iff_getElem?.mp hother
            have hstuck' := hrest c
            rw [handleRelayWS, hc] at hstuck'
            simp [hstored, hpair] at hstuck'

end Steps

/-- No handler has a step left. -/
structure AtRest (s : RelayWSHub) : Prop where
  handlers : ∀ handler ∈ s.handlers,
    handler.pc.ended = true ∨ (∃ p, handler.pc = .panicked p) ∨ Alone s handler
  pairs : ∀ key p, s.pairs key = some p → ∃ handler ∈ s.handlers, handler.request.key = key ∧
    ((∃ p, handler.pc = .panicked p) ∨ Alone s handler)

/-- **The hub comes to rest and cleans up**, from every reachable state. The
handlers can go on until no step is left, and at most so often; then a handler has
ended, panicked or waits for a peer that never came, and only keys of the latter two
are left in the map. -/
theorem relay_comes_to_rest (s : RelayWSHub) (hs : Runs.Reach step {} s) :
    (∀ hs t, Runs.run handleRelayWS s hs = some t →
      hs.length ≤ s.stepsLeft ∧ ((∀ h, t.handleRelayWS h = none) → AtRest t)) ∧
    ∃ hs t, Runs.run handleRelayWS s hs = some t ∧ ∀ h, t.handleRelayWS h = none := by
  have hinv : Joined s ∧ Tended s := by
    apply hs.invariant ⟨joined_empty, tended_empty⟩
    intro u a v hu hstep
    exact ⟨hu.1.step hstep, hu.2.step hstep⟩
  have hdec : ∀ s h s', handleRelayWS s h = some s' → s'.stepsLeft < s.stepsLeft :=
    fun s h s' hstep => stepsLeft_step hstep
  refine ⟨fun hs t hrun => ⟨?_, fun hrest => ?_⟩, Runs.exists_run_to_end hdec s⟩
  · have hlength := Runs.length_le_of_decreasing hdec hrun
    omega
  · have ht : Joined t ∧ Tended t := by
      apply (Runs.reach_of_run hs hrun).invariant hinv
      intro u h v hu hstep
      have hstep' : RelayWSHub.step u (.handle h) = some v := hstep
      exact ⟨hu.1.step hstep', hu.2.step hstep'⟩
    refine ⟨fun handler hmem => ?_, fun key p hp => ?_⟩
    · obtain ⟨h, hh⟩ := List.mem_iff_getElem?.mp hmem
      exact stuck_cases ht.1 ht.2 hrest hh
    · obtain ⟨handler, hmem, hkey, hrunning⟩ := ht.2.mapped key p hp
      obtain ⟨h, hh⟩ := List.mem_iff_getElem?.mp hmem
      refine ⟨handler, hmem, hkey, (stuck_cases ht.1 ht.2 hrest hh).resolve_left ?_⟩
      rw [hrunning]
      decide

/-- A sender and a receiver whose loops are over, and a sender that is alone. -/
def threeRun : List Action :=
  [.connect ⟨"room", "sender", "0"⟩, .connect ⟨"room", "receiver", "0"⟩,
    .connect ⟨"room", "sender", "1"⟩, .handle 0, .handle 0, .handle 1, .handle 1, .handle 2]

theorem relay_comes_to_rest_three :
    ∃ s t, Runs.run step {} threeRun = some s ∧ s.stepsLeft = 16 ∧
      Runs.run handleRelayWS s [1, 2, 0, 0, 1, 1, 0, 0, 0, 1, 1] = some t ∧ AtRest t ∧
      (t.handlers.map (·.pc)) = [.done 0, .done 0, .stored 1 false] ∧
      t.pairs "room:1" = some 1 := by
  obtain ⟨hbound, -⟩ := relay_comes_to_rest _ (Runs.reach_of_run threeRun rfl)
  obtain ⟨-, hrest⟩ := hbound [1, 2, 0, 0, 1, 1, 0, 0, 0, 1, 1] _ rfl
  refine ⟨_, _, rfl, rfl, rfl, hrest fun h => ?_, rfl, rfl⟩
  match h with
  | 0 | 1 | 2 => rfl
  | h + 3 => rfl

end RelayWSHub

end FastTransfer.Server
