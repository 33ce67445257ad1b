import FastTransfer.Server.RelayEnds
import FastTransfer.Server.RelayKeys

/-!
# Two connections that have a key to themselves

A sender and a receiver whose key nobody else asks for get the same pair, its channel
is closed once, and each of the two relays to the other, as long as no loop of theirs
ends. What the handlers of other keys do, ending and panicking included, makes no
difference.
-/

namespace FastTransfer.Server

namespace RelayWSHub

/-- The handler has neither come to the end of its loop nor panicked. -/
def Pc.staying : Pc → Bool
  | .upgraded | .gotPair _ | .stored _ _ | .released _ | .relaying _ _ _ => true
  | .relayed _ | .connClosed _ | .done _ | .panicked _ => false

/-- One connection of each role at most has asked for the key. -/
def OneEach (key : String) (s : RelayWSHub) : Prop :=
  ∀ (c d : Nat) (r r' : Request), s.requests[c]? = some r → s.requests[d]? = some r' →
    r.key = key → r'.key = key → r.role = r'.role → c = d

/-- **The invariant of a key whose loops do not end**: its handlers have the pair that
the map has, and the channel of the pair is closed, or about to be closed by one
handler, exactly when the pair is complete. -/
structure Reserved (key : String) (s : RelayWSHub) : Prop where
  staying : ∀ handler ∈ s.handlers, handler.request.key = key → Pc.staying handler.pc = true
  mapped : ∀ handler ∈ s.handlers, handler.request.key = key →
    ∀ p ∈ Pc.pair handler.pc, s.pairs key = some p
  once : ∀ (p : Nat) (pair : RelayPair), s.pairs key = some p → s.heap[p]? = some pair →
    pair.closes + s.closers p = pair.bothReady.toNat
  loop : ∀ handler ∈ s.handlers, handler.request.key = key → ∀ p src dst,
    handler.pc = .relaying p src dst → src ≠ none ∧ dst ≠ none

theorem reserved_empty (key : String) : Reserved key {} where
  staying := by simp
  mapped := by simp
  once := by simp
  loop := by simp

section Steps

variable {key : String} {keyOf : Nat → String} {s t : RelayWSHub} {h : Nat} {handler : Handler}

theorem Reserved.connect (hs : Reserved key s) (request : Request) :
    Reserved key { s with handlers := s.handlers ++ [{ request }] } where
  staying handler hmem hkey := by
    rcases List.mem_append.mp hmem with hmem | hmem
    · exact hs.staying handler hmem hkey
    · obtain rfl := List.mem_singleton.mp hmem
      rfl
  mapped handler hmem hkey p hp := by
    rcases List.mem_append.mp hmem with hmem | hmem
    · exact hs.mapped handler hmem hkey p hp
    · obtain rfl := List.mem_singleton.mp hmem
      cases hp
  once p pair hp hpair := by
    have honce := hs.once p pair hp hpair
    simpa [closers, closing] using honce
  loop handler hmem hkey p src dst hpc := by
    rcases List.mem_append.mp hmem with hmem | hmem
    · exact hs.loop handler hmem hkey p src dst hpc
    · obtain rfl := List.mem_singleton.mp hmem
      cases hpc

/-- A handler goes on and leaves the pair of the key alone. -/
theorem Reserved.set (hs : Reserved key s) (hh : s.handlers[h]? = some handler) {pc : Pc}
    (ht : t.handlers = s.handlers.set h { handler with pc }) (hpairs : t.pairs key = s.pairs key)
    (hheap : ∀ p, s.pairs key = some p → t.heap[p]? = s.heap[p]?)
    (hclosing : ∀ p, s.pairs key = some p → closing p { handler with pc } = closing p handler)
    (hours : handler.request.key = key → Pc.staying pc = true ∧
      (∀ p ∈ Pc.pair pc, s.pairs key = some p) ∧
      ∀ p src dst, pc = .relaying p src dst → src ≠ none ∧ dst ≠ none) : Reserved key t where
  staying := by
    rw [ht]
    exact Tally.forall_mem_set hs.staying fun hkey => (hours hkey).1
  mapped := by
    rw [ht, hpairs]
    exact Tally.forall_mem_set hs.mapped fun hkey => (hours hkey).2.1
  once p pair hp hpair := by
    rw [hpairs] at hp
    rw [hheap p hp] at hpair
    have honce := hs.once p pair hp hpair
    have hsum := Tally.sum_map_set (closing p) (x := { handler with pc }) hh
    rw [hclosing p hp] at hsum
    rw [closers] at honce
    rw [closers, ht]
    omega
  loop := by
    rw [ht]
    exact Tally.forall_mem_set hs.loop fun hkey => (hours hkey).2.2

/-- What a handler does to the keys, the pairs and the channels of others: nothing. -/
theorem Steps.elsewhere (hstep : Steps s h handler t) :
    ∃ pc, t.handlers = s.handlers.set h { handler with pc } ∧
      (∀ key ≠ handler.request.key, t.pairs key = s.pairs key) ∧
      ∀ q < s.heap.length, Pc.pair handler.pc ≠ some q →
        t.heap[q]? = s.heap[q]? ∧ closing q { handler with pc } = closing q handler := by
  cases hstep with
  | getPair hpc =>
      refine ⟨_, by rw [RelayWSHub.goto, handlers_getOrCreatePair], ?_, ?_⟩
      · intro key hne
        rw [RelayWSHub.goto, RelayWSHub.getOrCreatePair]
        split
        next => rfl
        next => exact Function.update_of_ne hne _ _
      · intro q hq _
        refine ⟨?_, by simp [closing, hpc]⟩
        rw [RelayWSHub.goto, RelayWSHub.getOrCreatePair]
        split
        next => rfl
        next => exact List.getElem?_append_left hq
  | @store p pair hpc hpair | @close p pair hpc hpair =>
      refine ⟨_, rfl, fun _ _ => rfl, fun q _ hne => ?_⟩
      have hpq : p ≠ q := by
        rintro rfl
        exact hne (by rw [hpc]; rfl)
      refine ⟨List.getElem?_set_ne hpq, ?_⟩
      simp only [closing, hpc]
      split_ifs <;> simp_all
  | wait hpc | relayEnd hpc | closeConn hpc =>
      exact ⟨_, rfl, fun _ _ => rfl, fun q _ hne => ⟨rfl, by simp [closing, hpc]⟩⟩
  | relay hpc =>
      refine ⟨_, rfl, fun _ _ => rfl, fun q _ hne => ⟨rfl, ?_⟩⟩
      simp only [closing, hpc]
      split <;> simp
  | removePair hpc =>
      refine ⟨_, rfl, fun key hne => Function.update_of_ne hne _ _, fun q _ hne => ⟨rfl, ?_⟩⟩
      simp [closing, hpc]

/-- A handler of another key takes a step. -/
theorem Reserved.other (hs : Reserved key s) (hj : Joined s) (hk : Keyed keyOf s)
    (hh : s.handlers[h]? = some handler) (hkey : handler.request.key ≠ key)
    (hstep : Steps s h handler t) : Reserved key t := by
  obtain ⟨pc, ht, hpairs, hpair⟩ := hstep.elsewhere
  have hother : ∀ p, s.pairs key = some p → Pc.pair handler.pc ≠ some p := by
    intro p hp hpc
    apply hkey
    rw [hk.shared handler (List.mem_of_getElem? hh) p hpc, ← hk.mapped key p hp]
  refine hs.set hh ht (hpairs key (Ne.symm hkey)) ?_ ?_ fun hours => absurd hours hkey
  · exact fun p hp => (hpair p (hj.mapped key p hp) (hother p hp)).1
  · exact fun p hp => (hpair p (hj.mapped key p hp) (hother p hp)).2

/-- Nobody closes the channel of a pair that is yet to come. -/
theorem Joined.closers_eq_zero (hj : Joined s) {p : Nat} (hp : s.heap.length ≤ p) :
    s.closers p = 0 := by
  apply List.sum_eq_zero
  intro n hn
  obtain ⟨handler, hmem, rfl⟩ := List.mem_map.mp hn
  refine if_neg fun hstored => ?_
  obtain ⟨c, hc⟩ := List.mem_iff_getElem?.mp hmem
  obtain ⟨pair, hpair, -⟩ := hj.known c handler p hc (by rw [hstored]; rfl)
  have hlt := (List.getElem?_eq_some_iff.mp hpair).1
  omega

/-- A handler of the key gets its pair. -/
theorem Reserved.getPair (hs : Reserved key s) (hj : Joined s)
    (hh : s.handlers[h]? = some handler) (hpc : handler.pc = .upgraded) :
    Reserved key ((s.getOrCreatePair key).2.goto h handler
      (.gotPair (s.getOrCreatePair key).1)) := by
  rw [RelayWSHub.getOrCreatePair]
  cases hmap : s.pairs key with
  | some p =>
      refine hs.set hh rfl rfl (fun _ _ => rfl) (fun q _ => by simp [closing, hpc]) fun _ => ?_
      refine ⟨rfl, fun q hq => ?_, by simp⟩
      obtain rfl := Option.some.inj hq
      exact hmap
  | none =>
      -- no handler of the key has a pair yet
      have hnone : ∀ other ∈ s.handlers, other.request.key = key → Pc.pair other.pc = none := by
        intro other hmem hother
        cases hp : Pc.pair other.pc with
        | none => rfl
        | some p =>
            have hp' := hs.mapped other hmem hother p hp
            rw [hmap] at hp'
            cases hp'
      refine ⟨?_, ?_, ?_, ?_⟩
      · exact Tally.forall_mem_set hs.staying fun _ => rfl
      · apply Tally.forall_mem_set
        · intro other hmem hother p hp
          rw [Option.mem_def, hnone other hmem hother] at hp
          cases hp
        · intro _ p hp
          obtain rfl := Option.some.inj hp
          exact Function.update_self _ _ _
      · intro p pair hp hpair
        obtain rfl : s.heap.length = p :=
          Option.some.inj ((Function.update_self key _ s.pairs).symm.trans hp)
        obtain rfl : pair = {} := by
          rcases Tally.getElem?_concat_cases hpair with hpair | ⟨-, rfl⟩
          · have hlt := (List.getElem?_eq_some_iff.mp hpair).1
            omega
          · rfl
        have hclosers : closers { s with
            handlers := s.handlers.set h { handler with pc := .gotPair s.heap.length } }
            s.heap.length = 0 := by
          have hsum := Tally.sum_map_set (closing s.heap.length)
            (x := { handler with pc := .gotPair s.heap.length }) hh
          have hzero := hj.closers_eq_zero (Nat.le_refl s.heap.length)
          simp only [closers, closing, hpc, reduceCtorEq, if_false] at hsum hzero ⊢
          omega
        exact (Nat.zero_add _).trans hclosers
      · exact Tally.forall_mem_set hs.loop fun _ => by simp

/-- A handler of the key changes its pair; `hbalance` is the invariant for it. -/
theorem Reserved.setPair (hs : Reserved key s) (hh : s.handlers[h]? = some handler)
    (hkey : handler.request.key = key) {p : Nat} {pair pair' : RelayPair} {pc : Pc}
    (hp : s.heap[p]? = some pair) (hbefore : Pc.pair handler.pc = some p)
    (hafter : Pc.pair pc = some p) (hstays : Pc.staying pc = true)
    (hloop : ∀ p src dst, pc ≠ .relaying p src dst)
    (hbalance : pair'.closes + pair.bothReady.toNat + closing p { handler with pc } =
      pair.closes + pair'.bothReady.toNat + closing p handler) :
    Reserved key ((s.setPair p pair').goto h handler pc) where
  staying := Tally.forall_mem_set hs.staying fun _ => hstays
  mapped := by
    apply Tally.forall_mem_set hs.mapped
    intro _ q hq
    obtain rfl := Option.mem_unique hafter hq
    exact hs.mapped handler (List.mem_of_getElem? hh) hkey p hbefore
  once q pair'' hq hpair := by
    obtain rfl := Option.mem_unique hq (hs.mapped handler (List.mem_of_getElem? hh) hkey p hbefore)
    have hclosers := closers_goto (s := s.setPair q pair') hh pc q
    have hsame : (s.setPair q pair').closers q = s.closers q := rfl
    have honce := hs.once q pair hq hp
    rw [hsame] at hclosers
    rcases Tally.getElem?_set_cases hpair with ⟨-, rfl⟩ | ⟨hne, -⟩
    · omega
    · exact absurd rfl hne
  loop := Tally.forall_mem_set hs.loop fun _ p src dst hpc => absurd hpc (hloop p src dst)

/-- **Every step keeps the invariant**, unless it ends a loop of the key. -/
theorem Reserved.step_handle (hs : Reserved key s) (hj : Joined s) (hk : Keyed keyOf s)
    (hone : OneEach key s) (hh : s.handlers[h]? = some handler)
    (hstays : handler.request.key = key → ∀ p src dst, handler.pc ≠ .relaying p src dst)
    (hstep : Steps s h handler t) : Reserved key t := by
  by_cases hkey : handler.request.key = key
  swap
  · exact hs.other hj hk hh hkey hstep
  have hmem := List.mem_of_getElem? hh
  cases hstep with
  | getPair hpc => exact hkey ▸ (hkey ▸ hs).getPair hj hh hpc
  | @store p pair hpc hpair =>
      have hmap := hs.mapped handler hmem hkey p (by rw [hpc]; rfl)
      have honce := hs.once p pair hmap hpair
      -- the place is free: who stands there has asked for the key in this role
      have hfree : pair.slot handler.request.role = none := by
        cases hslot : pair.slot handler.request.role with
        | none => rfl
        | some c =>
            have hc := hj.slots p pair _ c hpair hslot
            obtain ⟨r, hr, hrole, hrkey⟩ := hk.request hc
            have hreq : s.requests[h]? = some handler.request := by
              rw [requests, List.getElem?_map, hh]
              rfl
            obtain rfl := hone c h r handler.request hr hreq
              (hrkey.trans (hk.mapped key p hmap).symm) hkey hrole
            obtain ⟨other, hother, -, hjoined⟩ := hc
            obtain rfl := Option.mem_unique hh hother
            rw [hpc] at hjoined
            cases hjoined
      have hnot : pair.bothReady = false := by
        rw [Bool.eq_false_iff]
        exact fun hready => pair.bothReady_iff.mp hready _ hfree
      refine hs.setPair hh hkey hpair (by rw [hpc]; rfl) rfl rfl (by simp) ?_
      rw [RelayPair.closes_store, hnot]
      cases (pair.store handler.request.role h).bothReady with
      | true => simp [closing, hpc]
      | false => simp [closing, hpc]
  | @close p pair hpc hpair =>
      have hmap := hs.mapped handler hmem hkey p (by rw [hpc]; rfl)
      have honce := hs.once p pair hmap hpair
      have hclosing : closing p handler = 1 := if_pos hpc
      have hle := Tally.le_sum_map (closing p) hh
      have hready := Bool.toNat_le pair.bothReady
      -- this handler is the one that closes it
      have hzero : pair.closes = 0 := by
        rw [closers] at honce
        omega
      rw [if_pos hzero]
      refine hs.setPair hh hkey hpair (by rw [hpc]; rfl) rfl rfl (by simp) ?_
      rw [hclosing]
      simp only [RelayPair.bothReady, closing, reduceCtorEq, if_false]
      omega
  | @wait p pair hpc hpair hclosed =>
      refine hs.set hh rfl rfl (fun _ _ => rfl) (fun q _ => by simp [closing, hpc]) fun _ => ?_
      exact ⟨rfl, fun q hq => hs.mapped handler hmem hkey q (by rw [hpc]; exact hq), by simp⟩
  | @relay p pair hpc hpair =>
      have hready : pair.bothReady = true :=
        hj.full p pair hpair (hj.closed_of_passed hh hpair (by rw [hpc]; rfl) (by rw [hpc]; rfl))
      rw [RelayPair.bothReady, Bool.and_eq_true, Option.isSome_iff_ne_none,
        Option.isSome_iff_ne_none] at hready
      have hmap : s.pairs key = some p := hs.mapped handler hmem hkey p (by rw [hpc]; rfl)
      cases handler.request.role with
      | sender =>
          refine hs.set hh rfl rfl (fun _ _ => rfl) (fun q _ => by simp [closing, hpc]) fun _ => ?_
          refine ⟨rfl, fun q hq => hmap.trans hq, ?_⟩
          rintro q src dst ⟨⟩
          exact hready
      | receiver =>
          refine hs.set hh rfl rfl (fun _ _ => rfl) (fun q _ => by simp [closing, hpc]) fun _ => ?_
          refine ⟨rfl, fun q hq => hmap.trans hq, ?_⟩
          rintro q src dst ⟨⟩
          exact hready.symm
  | relayEnd hpc => exact absurd hpc (hstays hkey _ _ _)
  | closeConn hpc | removePair hpc =>
      have hnot := hs.staying handler hmem hkey
      rw [hpc] at hnot
      cases hnot

/-! ## When no step is left -/

/-- The key's handlers have no step left but the ends of their loops. -/
def Waiting (key : String) (s : RelayWSHub) : Prop :=
  ∀ (h : Nat) (handler : Handler), s.handlers[h]? = some handler → handler.request.key = key →
    (∀ p src dst, handler.pc ≠ .relaying p src dst) → s.handleRelayWS h = none

/-- Such a handler waits at the channel of its pair, or relays. -/
theorem Reserved.cases_of_waiting (hs : Reserved key s) (hj : Joined s) (hwaiting : Waiting key s)
    (hh : s.handlers[h]? = some handler) (hkey : handler.request.key = key) :
    (∃ p pair, handler.pc = .stored p false ∧ s.heap[p]? = some pair ∧ pair.closes = 0) ∨
      ∃ p src dst, handler.pc = .relaying p src dst := by
  by_cases hrelays : ∃ p src dst, handler.pc = .relaying p src dst
  · exact .inr hrelays
  have hstuck : s.handleRelayWS h = none := by
    apply hwaiting h handler hh hkey
    exact fun p src dst hpc => hrelays ⟨p, src, dst, hpc⟩
  have hstays := hs.staying handler (List.mem_of_getElem? hh) hkey
  have hknown : ∀ p, Pc.pair handler.pc = some p → ∃ pair, s.heap[p]? = some pair := by
    intro p hp
    obtain ⟨pair, hpair, -⟩ := hj.known h handler p hh hp
    exact ⟨pair, hpair⟩
  rw [handleRelayWS, hh] at hstuck
  cases hpc : handler.pc with
  | upgraded => simp [hpc] at hstuck
  | gotPair p | released p =>
      obtain ⟨pair, hpair⟩ := hknown p (by rw [hpc]; rfl)
      simp [hpc, hpair] at hstuck
  | stored p bothReady =>
      obtain ⟨pair, hpair⟩ := hknown p (by rw [hpc]; rfl)
      cases bothReady with
      | true => simp [hpc, hpair] at hstuck
      | false =>
          refine .inl ⟨p, pair, rfl, hpair, ?_⟩
          by_contra hcloses
          simp [hpc, hpair, hcloses] at hstuck
  | relaying p src dst => exact .inr ⟨p, src, dst, rfl⟩
  | relayed p | connClosed p | done p | panicked p =>
      rw [hpc] at hstays
      cases hstays

/-- With a connection of each role, none of them waits. -/
theorem Reserved.relaying (hs : Reserved key s) (hj : Joined s) (ht : Tended s)
    (hk : Keyed keyOf s) (hwaiting : Waiting key s)
    (hboth : ∀ role, ∃ handler ∈ s.handlers, handler.request.key = key ∧
      handler.request.role = role)
    (hh : s.handlers[h]? = some handler) (hkey : handler.request.key = key) :
    ∃ p src dst, handler.pc = .relaying p src dst := by
  rcases hs.cases_of_waiting hj hwaiting hh hkey with ⟨p, pair, hpc, hpair, hopen⟩ | hrelays
  swap
  · exact hrelays
  exfalso
  have hmap := hs.mapped handler (List.mem_of_getElem? hh) hkey p (by rw [hpc]; rfl)
  -- every handler of the key has its place in this pair
  have hplace : ∀ other ∈ s.handlers, other.request.key = key →
      pair.slot other.request.role ≠ none := by
    intro other hmem hother
    obtain ⟨c, hc⟩ := List.mem_iff_getElem?.mp hmem
    have hjoined : ∃ q, Pc.joined other.pc = some q := by
      rcases hs.cases_of_waiting hj hwaiting hc hother with ⟨q, -, hq, -⟩ | ⟨q, src, dst, hq⟩
      · exact ⟨q, by rw [hq]; rfl⟩
      · exact ⟨q, by rw [hq]; rfl⟩
    obtain ⟨q, hq⟩ := hjoined
    have hq' := Pc.pair_of_joined hq
    obtain rfl := Option.mem_unique hmap (hs.mapped other hmem hother q hq')
    obtain ⟨pair', hpair', hfits⟩ := hj.known c other p hc hq'
    obtain rfl := Option.mem_unique hpair hpair'
    exact hfits.place p hq
  have hready : pair.bothReady = true := by
    rw [pair.bothReady_iff]
    intro role
    obtain ⟨other, hmem, hother, rfl⟩ := hboth role
    exact hplace other hmem hother
  rcases ht.released p pair hpair hready with hcloses | ⟨other, hmem, hstored⟩
  · exact hcloses hopen
  · -- it would have a step
    have hother : other.request.key = key := by
      rw [hk.shared other hmem p (by rw [hstored]; rfl), ← hk.mapped key p hmap]
    obtain ⟨c, hc⟩ := List.mem_iff_getElem?.mp hmem
    rcases hs.cases_of_waiting hj hwaiting hc hother with ⟨q, -, hq, -⟩ | ⟨q, src, dst, hq⟩
    · rw [hstored] at hq
      cases hq
    · rw [hstored] at hq
      cases hq

/-- **The two relay to each other.** -/
theorem Reserved.relays (hs : Reserved key s) (hj : Joined s) (ht : Tended s) (hk : Keyed keyOf s)
    (hone : OneEach key s) (hwaiting : Waiting key s) {who : Role → Nat}
    (hwho : ∀ role, ∃ r, s.requests[who role]? = some r ∧ r.key = key ∧ r.role = role)
    (role : Role) : Relays s (who role) (some (who role)) (some (who role.opposite)) := by
  have hhandler : ∀ role, ∃ handler, s.handlers[who role]? = some handler ∧
      handler.request.key = key ∧ handler.request.role = role := by
    intro role
    obtain ⟨r, hr, hkey, hrole⟩ := hwho role
    rw [requests, List.getElem?_map] at hr
    obtain ⟨handler, hh, rfl⟩ := Option.map_eq_some_iff.mp hr
    exact ⟨handler, hh, hkey, hrole⟩
  obtain ⟨handler, hh, hkey, hrole⟩ := hhandler role
  have hmem := List.mem_of_getElem? hh
  obtain ⟨p, src, dst, hpc⟩ := hs.relaying hj ht hk hwaiting (fun role => by
    obtain ⟨handler, hh, hrest⟩ := hhandler role
    exact ⟨handler, List.mem_of_getElem? hh, hrest⟩) hh hkey
  obtain ⟨hsrc, hdst⟩ := hs.loop handler hmem hkey p src dst hpc
  obtain ⟨c, rfl⟩ := Option.ne_none_iff_exists'.mp hsrc
  obtain ⟨d, rfl⟩ := Option.ne_none_iff_exists'.mp hdst
  obtain ⟨hc, hd⟩ := hk.ends handler hmem p _ _ hpc
  have hmap := hs.mapped handler hmem hkey p (by rw [hpc]; rfl)
  -- both ends have asked for the key
  have hthis : ∀ {role c}, Member s p role c → c = who role := by
    intro role c hc
    obtain ⟨r, hr, hrole, hrkey⟩ := hk.request hc
    obtain ⟨r', hr', hkey', hrole'⟩ := hwho role
    exact hone c (who role) r r' hr hr' (hrkey.trans (hk.mapped key p hmap).symm) hkey'
      (hrole.trans hrole'.symm)
  obtain rfl := hthis (hc c rfl)
  obtain rfl := hthis (hd d rfl)
  rw [hrole] at hpc
  exact ⟨handler, p, hh, hpc⟩

end Steps

end RelayWSHub

section Turn

variable {m : Reading} {dst : Destination}

theorem allows_of_none (h : dst.opsLeft = none) (k : Nat) : Allows dst.opsLeft k := by
  intro n hn
  rw [h] at hn
  cases hn

/-- A connection that does not fail keeps working. -/
theorem relayTurn_works (hworks : dst.opsLeft = none) : (relayTurn m dst).2.opsLeft = none := by
  have hsnd : (relayTurn m dst).2 = dst.took m := by
    rw [relayTurn_snd, wsRelay_of_allows (allows_of_none hworks _)]
    split_ifs <;> rfl
  rw [hsnd, Destination.took, hworks]
  rfl

/-- On such a connection a loop goes on after a message that is whole. -/
theorem relayTurn_goesOn (hm : m.failed = false) (hworks : dst.opsLeft = none) :
    (relayTurn m dst).1 = true := by
  rw [relayTurn, Destination.nextWriter_of_allows (allows_of_none hworks 1)]
  simp only
  rw [copyBuffer_of_allows rfl (by simp [Allows, hworks]), hm]
  simp only [Bool.not_false]
  rw [Destination.close_of_allows (by simp [Allows, hworks])]

end Turn

namespace RelayTraffic

open RelayWSHub

/-- A turn, with what it makes of the hub. -/
theorem turn_hub {x y : RelayTraffic} {h : Nat} (hturn : x.turn h = some y) :
    ∃ (handler : Handler) (p src dst : Nat) (reader : Reading) (rest : List Reading),
      x.hub.handlers[h]? = some handler ∧ handler.pc = .relaying p (some src) (some dst) ∧
        x.incoming src = reader :: rest ∧
        y.hub = if (relayTurn reader (x.destinations dst)).1 then x.hub
          else x.hub.goto h handler (.relayed p) := by
  obtain ⟨handler, hh, hturn⟩ := Option.bind_eq_some_iff.mp hturn
  split at hturn
  next p src dst hpc =>
    split at hturn
    next => cases hturn
    next reader rest hincoming =>
      obtain rfl := Option.some.inj hturn
      exact ⟨handler, p, src, dst, reader, rest, hh, hpc, hincoming, rfl⟩
  next => cases hturn

end RelayTraffic

end FastTransfer.Server
