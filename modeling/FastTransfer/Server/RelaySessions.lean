import FastTransfer.Server.RelayLoops

/-!
# Successive sessions of one key

Both handlers of a session call `removePair` with the key, each when its own
loop has ended. `Sessions` ties the map of pairs to the handlers: a handler
whose channel is still open finds its pair in the map, and one that has yet to
call `removePair` finds no other.
-/

namespace FastTransfer.Server

theorem RelayPair.bothReady_store_opposite {pair : RelayPair} {role : Role}
    (h : pair.slot role ≠ none) (conn : Nat) :
    (pair.store role.opposite conn).bothReady = true := by
  rw [RelayPair.bothReady_iff]
  intro role'
  by_cases hrole : role' = role.opposite
  · simp [hrole]
  · rw [RelayPair.slot_store, Function.update_of_ne hrole]
    cases role <;> cases role' <;> first | exact h | exact absurd rfl hrole

namespace RelayWSHub

/-- A handler that is stored in `pair` and has yet to call `removePair`, unless
it is about to panic. -/
def toRemove (pair : RelayPair) : Pc → Bool
  | .done _ => false
  | pc => takesPart pair pc

/-- A pair is created under a key only when no handler of an earlier pair of
this key has yet to call `removePair`. -/
def CreatesAlone (s : RelayWSHub) : Action → Prop
  | .connect _ => True
  | .handle h => ∀ handler ∈ s.handlers[h]?, handler.pc = .upgraded →
      s.pairs handler.request.key = none → ∀ older ∈ s.handlers,
        older.request.key = handler.request.key → ∀ p ∈ Pc.pair older.pc, ∀ pair ∈ s.heap[p]?,
          toRemove pair older.pc = false

instance decidableCreatesAlone (s : RelayWSHub) : ∀ a, Decidable (CreatesAlone s a)
  | .connect _ => inferInstanceAs (Decidable True)
  | .handle h => inferInstanceAs (Decidable (∀ handler ∈ s.handlers[h]?, handler.pc = .upgraded →
      s.pairs handler.request.key = none → ∀ older ∈ s.handlers,
        older.request.key = handler.request.key → ∀ p ∈ Pc.pair older.pc, ∀ pair ∈ s.heap[p]?,
          toRemove pair older.pc = false))

/-- **The session invariant**. -/
structure Sessions (s : RelayWSHub) : Prop where
  linked : ∀ (h : Nat) (handler : Handler) (p : Nat) (pair : RelayPair),
    s.handlers[h]? = some handler → Pc.pair handler.pc = some p → s.heap[p]? = some pair →
      pair.closes = 0 → s.pairs handler.request.key = some p
  session : ∀ (h : Nat) (handler : Handler) (p : Nat) (pair : RelayPair) (q : Nat),
    s.handlers[h]? = some handler → Pc.pair handler.pc = some p → s.heap[p]? = some pair →
      toRemove pair handler.pc = true → s.pairs handler.request.key = some q → q = p

theorem sessions_empty : Sessions {} where
  linked := by simp
  session := by simp

section Steps

variable {s t : RelayWSHub} {h p : Nat} {handler : Handler} {pair : RelayPair} {pc : Pc}

theorem toRemove_mono {pair' : RelayPair} (hle : pair.closes ≤ pair'.closes)
    (h : toRemove pair' pc = true) : toRemove pair pc = true := by
  cases pc with
  | done q => cases h
  | stored q bothReady => exact takesPart_mono hle h
  | _ => exact h

theorem setPair_self (hp : s.heap[p]? = some pair) : s.setPair p pair = s := by
  obtain ⟨hlt, rfl⟩ := List.getElem?_eq_some_iff.mp hp
  rw [RelayWSHub.setPair, List.set_getElem_self]

/-- A handler goes on, and its pair may change. -/
theorem Sessions.setPair (hs : Sessions s) (hh : s.handlers[h]? = some handler)
    (hp : s.heap[p]? = some pair) {pair' : RelayPair} (hle : pair.closes ≤ pair'.closes)
    (hbefore : Pc.pair handler.pc = some p) (hafter : Pc.pair pc = some p)
    (hnew : toRemove pair' pc = true → toRemove pair handler.pc = true ∨ pair.closes = 0) :
    Sessions ((s.setPair p pair').goto h handler pc) where
  linked c handler' q pair'' hc hq hpair'' hopen := by
    have hpair : ∃ pair₀, s.heap[q]? = some pair₀ ∧ pair₀.closes = 0 := by
      rcases Tally.getElem?_set_cases hpair'' with ⟨rfl, rfl⟩ | ⟨-, hpair''⟩
      · exact ⟨pair, hp, (show pair.closes = 0 by omega)⟩
      · exact ⟨pair'', hpair'', hopen⟩
    obtain ⟨pair₀, hq₀, hopen₀⟩ := hpair
    rcases Tally.getElem?_set_cases hc with ⟨rfl, rfl⟩ | ⟨-, hc⟩
    · obtain rfl := Option.mem_unique hafter hq
      exact hs.linked c handler p pair₀ hh hbefore hq₀ hopen₀
    · exact hs.linked c handler' q pair₀ hc hq hq₀ hopen₀
  session c handler' q pair'' r hc hq hpair'' hremove hr := by
    rcases Tally.getElem?_set_cases hc with ⟨rfl, rfl⟩ | ⟨-, hc⟩
    · obtain rfl := Option.mem_unique hafter hq
      rcases Tally.getElem?_set_cases hpair'' with ⟨-, rfl⟩ | ⟨hpp, -⟩
      · rcases hnew hremove with hremove | hopen
        · exact hs.session c handler p pair r hh hbefore hp hremove hr
        · have hlinked := hs.linked c handler p pair hh hbefore hp hopen
          exact Option.mem_unique hr hlinked
      · exact absurd rfl hpp
    · rcases Tally.getElem?_set_cases hpair'' with ⟨rfl, rfl⟩ | ⟨-, hpair''⟩
      · exact hs.session c handler' q pair r hc hq hp (toRemove_mono hle hremove) hr
      · exact hs.session c handler' q pair'' r hc hq hpair'' hremove hr

/-- A handler goes on without changing its pair. -/
theorem Sessions.goto (hs : Sessions s) (hj : Joined s) (hh : s.handlers[h]? = some handler)
    (hbefore : Pc.pair handler.pc = some p) (hafter : Pc.pair pc = some p)
    (hnew : ∀ pair, toRemove pair pc = true → toRemove pair handler.pc = true) :
    Sessions (s.goto h handler pc) := by
  obtain ⟨pair, hp, -⟩ := hj.known h handler p hh hbefore
  have hset := hs.setPair hh hp le_rfl hbefore hafter fun hr => .inl (hnew pair hr)
  rwa [setPair_self hp] at hset

theorem Sessions.getPair (hs : Sessions s) (hj : Joined s) (hh : s.handlers[h]? = some handler)
    (hpc : handler.pc = .upgraded) (hok : CreatesAlone s (.handle h)) :
    Sessions ((s.getOrCreatePair handler.request.key).2.goto h handler
      (.gotPair (s.getOrCreatePair handler.request.key).1)) := by
  rw [RelayWSHub.getOrCreatePair]
  cases hkey : s.pairs handler.request.key with
  | some p =>
      refine ⟨fun c handler' q pair hc hq hpair hopen => ?_,
        fun c handler' q pair r hc hq hpair hremove hr => ?_⟩
      · rcases Tally.getElem?_set_cases hc with ⟨rfl, rfl⟩ | ⟨-, hc⟩
        · obtain rfl := Option.some.inj hq
          exact hkey
        · exact hs.linked c handler' q pair hc hq hpair hopen
      · rcases Tally.getElem?_set_cases hc with ⟨rfl, rfl⟩ | ⟨-, hc⟩
        · cases hremove
        · exact hs.session c handler' q pair r hc hq hpair hremove hr
  | none =>
      -- every other handler of a pair knows one that was there before
      have hold : ∀ (c : Nat) (handler' : Handler) (q : Nat) (pair : RelayPair),
          s.handlers[c]? = some handler' → Pc.pair handler'.pc = some q →
          (s.heap ++ [({} : RelayPair)])[q]? = some pair → s.heap[q]? = some pair := by
        intro c handler' q pair hc hq hpair
        obtain ⟨pair', hpair', -⟩ := hj.known c handler' q hc hq
        rwa [← hpair, Tally.getElem?_concat_of_some hpair']
      refine ⟨fun c handler' q pair hc hq hpair hopen => ?_,
        fun c handler' q pair r hc hq hpair hremove hr => ?_⟩
      · rcases Tally.getElem?_set_cases hc with ⟨rfl, rfl⟩ | ⟨-, hc⟩
        · obtain rfl := Option.some.inj hq
          exact Function.update_self _ _ _
        · have hpair' := hold c handler' q pair hc hq hpair
          have hlinked := hs.linked c handler' q pair hc hq hpair' hopen
          by_cases hsame : handler'.request.key = handler.request.key
          · rw [hsame, hkey] at hlinked
            cases hlinked
          · exact (Function.update_of_ne hsame _ _).trans hlinked
      · rcases Tally.getElem?_set_cases hc with ⟨rfl, rfl⟩ | ⟨-, hc⟩
        · cases hremove
        · have hpair₀ := hold c handler' q pair hc hq hpair
          by_cases hsame : handler'.request.key = handler.request.key
          · have hnot := hok handler hh hpc hkey handler' (List.mem_of_getElem? hc) hsame q hq
              pair hpair₀
            rw [hremove] at hnot
            cases hnot
          · have hr' := (Function.update_of_ne hsame _ _).symm.trans hr
            exact hs.session c handler' q pair r hc hq hpair₀ hremove hr'

/-- The end of a session leaves every open channel in the map. -/
theorem Sessions.removePair (hs : Sessions s) (hj : Joined s) (hh : s.handlers[h]? = some handler)
    (hpc : handler.pc = .connClosed p) : Sessions (s.removePair handler.request.key) where
  linked c handler' q pair hc hq hpair hopen := by
    have hlinked := hs.linked c handler' q pair hc hq hpair hopen
    by_cases hsame : handler'.request.key = handler.request.key
    · rw [hsame] at hlinked
      obtain ⟨pair', hpair', hfits⟩ := hj.known h handler p hh (by rw [hpc]; rfl)
      obtain rfl := hs.session h handler p pair' q hh (by rw [hpc]; rfl) hpair' (by rw [hpc]; rfl)
        hlinked
      obtain rfl := Option.mem_unique hpair hpair'
      exact absurd hopen (hfits.closed (by rw [hpc]; rfl))
    · exact (Function.update_of_ne hsame _ _).trans hlinked
  session c handler' q pair r hc hq hpair hremove hr := by
    simp only [RelayWSHub.removePair, Function.update_apply] at hr
    split_ifs at hr
    exact hs.session c handler' q pair r hc hq hpair hremove hr

theorem Sessions.step_handle (hs : Sessions s) (hj : Joined s) (hh : s.handlers[h]? = some handler)
    (hok : CreatesAlone s (.handle h)) (hstep : Steps s h handler t) : Sessions t := by
  cases hstep with
  | getPair hpc => exact hs.getPair hj hh hpc hok
  | @store p pair hpc hpair =>
      have hcloses := pair.closes_store handler.request.role h
      refine hs.setPair hh hpair (le_of_eq hcloses.symm) (by rw [hpc]; rfl) rfl
        fun hremove => .inr ?_
      by_contra hclosed
      rw [pair.bothReady_store _ _ (hj.full p pair hpair hclosed)] at hremove
      simp only [toRemove, takesPart, decide_eq_true_eq, hcloses] at hremove
      exact hclosed hremove
  | @close p pair hpc hpair =>
      refine hs.setPair hh hpair (Nat.le_succ _) (by rw [hpc]; rfl) (by split <;> rfl)
        fun hremove => ?_
      by_cases hopen : pair.closes = 0
      · exact .inr hopen
      · rw [if_neg hopen] at hremove
        cases hremove
  | wait hpc | relayEnd hpc | closeConn hpc =>
      exact hs.goto hj hh (by rw [hpc]; rfl) rfl (by simp [hpc, toRemove, takesPart])
  | relay hpc =>
      cases handler.request.role with
      | sender => exact hs.goto hj hh (by rw [hpc]; rfl) rfl (by simp [hpc, toRemove, takesPart])
      | receiver => exact hs.goto hj hh (by rw [hpc]; rfl) rfl (by simp [hpc, toRemove, takesPart])
  | removePair hpc =>
      have hj' := hj.removePair handler.request.key
      exact (hs.removePair hj hh hpc).goto hj' hh (by rw [hpc]; rfl) rfl (by simp [toRemove])

end Steps

theorem Sessions.step {s s' : RelayWSHub} {a : Action} (hj : Joined s) (hs : Sessions s)
    (hok : CreatesAlone s a) (hstep : step s a = some s') : Sessions s' := by
  cases a with
  | connect q =>
      obtain ⟨request, -, rfl⟩ := Option.map_eq_some_iff.mp hstep
      refine ⟨fun c handler p pair hc hp => ?_, fun c handler p pair q hc hp => ?_⟩
      · rcases Tally.getElem?_concat_cases hc with hc | ⟨-, rfl⟩
        · exact hs.linked c handler p pair hc hp
        · cases hp
      · rcases Tally.getElem?_concat_cases hc with hc | ⟨-, rfl⟩
        · exact hs.session c handler p pair q hc hp
        · cases hp
  | handle h =>
      obtain ⟨handler, hh, hsteps⟩ := steps_of_handle hstep
      exact hs.step_handle hj hh hok hsteps

/-- A handler that is blocked at the `ready` channel can be found under its key,
where the next connection of the other role completes its pair; and who is about
to call `removePair` unlinks no pair but its own. -/
structure Findable (s : RelayWSHub) : Prop where
  waiting : ∀ (h : Nat) (handler : Handler) (p : Nat) (pair : RelayPair),
    s.handlers[h]? = some handler → handler.pc = .stored p false → s.heap[p]? = some pair →
      pair.closes = 0 → s.pairs handler.request.key = some p ∧
        s.getOrCreatePair handler.request.key = (p, s) ∧
        ∀ conn, (pair.store handler.request.role.opposite conn).bothReady = true
  unlinks : ∀ (h : Nat) (handler : Handler) (p q : Nat), s.handlers[h]? = some handler →
    handler.pc = .connClosed p → s.pairs handler.request.key = some q → q = p

theorem Sessions.findable {s : RelayWSHub} (hj : Joined s) (hs : Sessions s) : Findable s where
  waiting h handler p pair hh hpc hpair hopen := by
    have hlinked := hs.linked h handler p pair hh (by rw [hpc]; rfl) hpair hopen
    obtain ⟨pair', hpair', hfits⟩ := hj.known h handler p hh (by rw [hpc]; rfl)
    obtain rfl := Option.mem_unique hpair hpair'
    have hplace := hfits.place p (by rw [hpc]; rfl)
    refine ⟨hlinked, ?_, RelayPair.bothReady_store_opposite hplace⟩
    rw [RelayWSHub.getOrCreatePair, hlinked]
  unlinks h handler p q hh hpc hq := by
    obtain ⟨pair, hpair, -⟩ := hj.known h handler p hh (by rw [hpc]; rfl)
    exact hs.session h handler p pair q hh (by rw [hpc]; rfl) hpair (by rw [hpc]; rfl) hq

/-- **A waiting connection can be found**, in every run in which no pair is
created under a key while a handler of an earlier session has yet to remove its
own. -/
theorem waiting_findable (s : RelayWSHub) (h : Runs.ReachWhen step CreatesAlone {} s) :
    Findable s := by
  have hs : Joined s ∧ Sessions s := by
    apply h.invariant ⟨joined_empty, sessions_empty⟩
    exact fun u a v hu hok hstep => ⟨hu.1.step hstep, hu.2.step hu.1 hok hstep⟩
  exact hs.2.findable hs.1

/-- Both handlers of a session come to its end, and then a sender comes. -/
def nextSession : List Action :=
  [.handle 0, .handle 1, .handle 0, .handle 1, .handle 0, .handle 1, .handle 0, .handle 1,
    .connect ⟨"room", "sender", "0"⟩, .handle 2, .handle 2]

theorem waiting_findable_nextSession :
    ∃ s, Runs.run step {} (pairedRun ++ nextSession) = some s ∧ s.pairs "room:0" = some 1 ∧
      Findable s :=
  ⟨_, rfl, rfl,
    waiting_findable _ (Runs.reachWhen_of_run (pairedRun ++ nextSession) rfl (by decide))⟩

/-- The sender of a session has removed its pair, and a second sender waits in a
new one, when the handler of the receiver calls `removePair`. -/
def lateRemoval : List Action :=
  [.handle 0, .handle 0, .handle 0, .handle 0, .connect ⟨"room", "sender", "0"⟩, .handle 2,
    .handle 2, .handle 1, .handle 1, .handle 1, .handle 1]

theorem not_waiting_findable_lateRemoval :
    ¬ ∀ s, Runs.Reach step {} s → Findable s := by
  intro h
  have hfind := h _ (Runs.reach_of_run (pairedRun ++ lateRemoval) rfl)
  have hlost := (hfind.waiting 2 _ 1 _ rfl rfl rfl rfl).1
  exact absurd hlost (by decide)

end RelayWSHub

end FastTransfer.Server
