import FastTransfer.Web.SenderDrain

/-!
# Who works on what is left

A pump that sees no work ends for good, although another pump may still put
chunks back. The sender is staffed while some pump is at work whenever there is
work, or no transport is open at all. Only a pump that gives up can end this,
and only if it is the last one at work.
-/

namespace FastTransfer.Web

/-- The pump will take another step: it is not over, and does not wait for an
event of a closed channel. -/
def Transport.atWork (tr : Transport) : Bool :=
  match tr.pump, tr.kind with
  | .reading claim, _ => claim.indices ≠ []
  | .sending batch, _ => batch ≠ []
  | .resolved _ _, _ => true
  | .waiting batch, .relay _ => batch ≠ []
  | .waiting batch, .p2p _ => batch ≠ [] && tr.readyState = .opened
  | .notStarted, _ | .ended, _ => false

/-- The step ends the pump because its transport is closed, or its `send` threw. -/
def Transport.givesUp (tr : Transport) (ev : PumpEvent) : Bool :=
  match ev, tr.pump, tr.kind with
  | .send throws, .sending _, .relay _ =>
      tr.readyState ≠ .opened || !(relayBufHigh < tr.bufferedAmount) && throws
  | .wake throws, .waiting _, .relay _ =>
      if relayBufHigh < tr.bufferedAmount then tr.readyState ≠ .opened else throws
  | .resume, .resolved _ failed, _ => failed || tr.readyState ≠ .opened
  | _, _, _ => false

theorem claimBatch_indices_ne_nil {e : Engine} (h : e.moreWork = true) :
    e.claimBatch.1.indices ≠ [] := by
  rw [Engine.moreWork, Bool.or_eq_true, decide_eq_true_iff, decide_eq_true_iff] at h
  intro hnil
  obtain ⟨hretry, hrange⟩ := List.append_eq_nil_iff.mp hnil
  have hnone : e.retryIndices = [] := by
    simpa [Engine.claimBatch, batchSize] using hretry
  have hcount : min (batchSize - (e.retryIndices.take batchSize).length)
      (e.totalChunks - e.nextChunkIndex) = 0 := List.range'_eq_nil_iff.mp hrange
  rw [hnone, List.take_nil, List.length_nil, batchSize] at hcount
  rcases h with hnext | hne
  · omega
  · exact hne hnone

theorem pumpLoop_atWork (e : Engine) (tr : Transport) :
    (pumpLoop e tr).2.atWork = true ∨ (pumpLoop e tr).1.moreWork = false := by
  rw [pumpLoop]
  split_ifs with hwork
  · exact .inl (by simpa [Transport.atWork] using claimBatch_indices_ne_nil hwork)
  · exact .inr (by simpa using hwork)

/-- What a step leaves of a pump: it goes on, or sees no work, or gives up; or it
was not at work before, and changes nothing of what there is to do. -/
inductive Leaves (e : Engine) (tr : Transport) (ev : PumpEvent) (x : Engine × Transport) :
    Prop where
  | atWork (h : x.2.atWork = true)
  | noWork (h : x.1.moreWork = false)
  | gaveUp (h : tr.givesUp ev = true) (hleft : tr.pump.held ≠ [] ∨ e.moreWork = true)
  | idle (h : tr.atWork = false) (heq : x.1 = e)

theorem leaves_pumpLoop {e e' : Engine} {tr tr' : Transport} {ev : PumpEvent} :
    Leaves e' tr' ev (pumpLoop e tr) :=
  (pumpLoop_atWork e tr).elim .atWork .noWork

theorem leaves_relayBackpressure {e : Engine} {tr : Transport} {idx : Nat} {b : Entry}
    {rest : List Entry} {throws : Bool} {ev : PumpEvent} (hkind : tr.kind = .relay idx)
    (hheld : tr.pump.held ≠ [])
    (hclosed : relayBufHigh < tr.bufferedAmount → tr.readyState ≠ .opened → tr.givesUp ev = true)
    (hthrows : ¬ relayBufHigh < tr.bufferedAmount → throws = true → tr.givesUp ev = true) :
    Leaves e tr ev (relayBackpressure e tr b rest throws) := by
  rw [relayBackpressure]
  split_ifs with hfull hstate hthrow hrest
  · exact .gaveUp (hclosed hfull hstate) (.inl hheld)
  · exact .atWork (by simp [Transport.atWork, hkind])
  · exact .gaveUp (hthrows hfull hthrow) (.inl hheld)
  · exact leaves_pumpLoop
  · exact .atWork (by simp [Transport.atWork, hrest])

theorem leaves_blast {e : Engine} {tr : Transport} {idx : Nat} {b : Entry} {rest : List Entry}
    {throws : Bool} {ev : PumpEvent} (hkind : tr.kind = .p2p idx) :
    Leaves e tr ev (blast e tr b rest throws) := by
  rw [blast]
  split_ifs with hstate hfull hthrow hrest
  · exact .atWork rfl
  · exact .atWork (by simpa [Transport.atWork, hkind] using hstate)
  · exact .atWork rfl
  · exact .atWork rfl
  · exact .atWork (by simp [Transport.atWork, hrest])

theorem Turn.leaves {e : Engine} {tr : Transport} {ev : PumpEvent} {x : Engine × Transport}
    (h : Turn e tr ev x) (hok : ev ≠ .read false) : Leaves e tr ev x := by
  cases h with
  | @read claim ok hpump =>
      obtain rfl : ok = true := by simpa using hok
      rw [finishRead_ok]
      by_cases hempty : claim.indices = []
      · exact .idle (by simp [Transport.atWork, hpump, hempty]) rfl
      · exact .atWork (by simp [Transport.atWork, hempty])
  | relaySend throws hkind hpump =>
      have hheld : tr.pump.held ≠ [] := by simp [hpump, Pump.held]
      rw [Web.relaySend]
      split_ifs with hstate
      · exact .gaveUp (by simp [Transport.givesUp, hpump, hkind, hstate]) (.inl hheld)
      · apply leaves_relayBackpressure hkind hheld fun _ hclosed => absurd hclosed hstate
        intro hfull hthrow
        simp [Transport.givesUp, hpump, hkind, hthrow, not_lt.mp hfull]
  | p2pSend throws hkind hpump => exact leaves_blast hkind
  | relayWake throws hkind hpump =>
      apply leaves_relayBackpressure hkind (by simp [hpump, Pump.held])
      · intro hfull hstate
        simp [Transport.givesUp, hpump, hkind, hfull, hstate]
      · intro hfull hthrow
        simp [Transport.givesUp, hpump, hkind, hfull, hthrow]
  | p2pWake throws hkind hpump hopen => exact leaves_blast hkind
  | @resume batch failed hpump =>
      rw [afterBlast_eq]
      split_ifs with hquit
      · have hgives : tr.givesUp .resume = true := by
          simpa [Transport.givesUp, hpump] using hquit
        by_cases hbatch : batch = []
        · cases hwork : e.moreWork with
          | true => exact .gaveUp hgives (.inr hwork)
          | false =>
              apply Leaves.noWork
              simpa [giveUp, Engine.requeue, Engine.moreWork, hbatch] using hwork
        · exact .gaveUp hgives (.inl (by simpa [hpump, Pump.held] using hbatch))
      · exact leaves_pumpLoop

/-! ## A staffed sender -/

/-- The event is not a failure of the pump's read or `send`. -/
def PumpEvent.succeeds : PumpEvent → Bool
  | .read ok => ok
  | .send throws | .wake throws => !throws
  | .resume => true

namespace Sender

/-- Some transport is at work. -/
def SomeoneAtWork (s : Sender) : Prop := ∃ tr ∈ s.transports, tr.atWork = true

/-- No transport is open. -/
def NoneOpen (s : Sender) : Prop := ∀ tr ∈ s.transports, tr.readyState ≠ .opened

/-- While there is work, a pump is at work, or no transport is open. -/
def Staffed (s : Sender) : Prop := s.moreWork = true → SomeoneAtWork s ∨ NoneOpen s

/-- The transports other than `t`. -/
def others (s : Sender) (t : Nat) : List Transport := s.transports.eraseIdx t

/-- No step takes the last pump away from its work: a pump that gives up leaves
another one at work, or no work, or no open transport, and so does a P2P channel
that closes while its pump waits for an event. -/
def StaysStaffed (s : Sender) : Action → Prop
  | .pump t ev => ∀ tr ∈ s.transports[t]?, tr.givesUp ev = true →
      (tr.pump.held ≠ [] ∨ s.moreWork = true) →
      (∃ v ∈ s.others t, v.atWork = true) ∨ ∀ v ∈ s.transports, v.readyState ≠ .opened
  | .onclose t => ∀ tr ∈ s.transports[t]?, tr.atWork = true →
      ({ tr with readyState := .closed } : Transport).atWork = false → s.moreWork = true →
      (∃ v ∈ s.others t, v.atWork = true) ∨ ∀ v ∈ s.others t, v.readyState ≠ .opened
  | .createOffer | .onopen _ | .drain _ | .pollDrain => True

instance decidableStaysStaffed (s : Sender) : (a : Action) → Decidable (StaysStaffed s a)
  | .pump t ev => inferInstanceAs (Decidable (∀ tr ∈ s.transports[t]?, tr.givesUp ev = true →
      (tr.pump.held ≠ [] ∨ s.moreWork = true) →
      (∃ v ∈ s.others t, v.atWork = true) ∨ ∀ v ∈ s.transports, v.readyState ≠ .opened))
  | .onclose t => inferInstanceAs (Decidable (∀ tr ∈ s.transports[t]?, tr.atWork = true →
      ({ tr with readyState := .closed } : Transport).atWork = false → s.moreWork = true →
      (∃ v ∈ s.others t, v.atWork = true) ∨ ∀ v ∈ s.others t, v.readyState ≠ .opened))
  | .createOffer | .onopen _ | .drain _ | .pollDrain => inferInstanceAs (Decidable True)

section Steps

variable {s : Sender}

theorem mem_others {t : Nat} {v : Transport} :
    v ∈ s.others t ↔ ∃ u ≠ t, s.transports[u]? = some v :=
  List.mem_eraseIdx_iff_getElem?

/-- The other transports are the same after a step of one. -/
theorem mem_of_mem_others {t : Nat} {v tr' : Transport} {e : Engine} (h : v ∈ s.others t) :
    v ∈ ({ s with toEngine := e, transports := s.transports.set t tr' } : Sender).transports := by
  obtain ⟨u, hu, hv⟩ := mem_others.mp h
  refine List.mem_iff_getElem?.mpr ⟨u, ?_⟩
  rw [List.getElem?_set_ne hu.symm]
  exact hv

/-- Someone is at work: this transport's pump, or another one. -/
theorem someoneAtWork_cases {t : Nat} {tr : Transport} (ht : s.transports[t]? = some tr)
    (h : SomeoneAtWork s) : tr.atWork = true ∨ ∃ v ∈ s.others t, v.atWork = true := by
  obtain ⟨v, hv, hwork⟩ := h
  obtain ⟨u, hu⟩ := List.mem_iff_getElem?.mp hv
  by_cases hut : u = t
  · subst hut
    exact .inl (Option.mem_unique ht hu ▸ hwork)
  · exact .inr ⟨v, mem_others.mpr ⟨u, hut, hu⟩, hwork⟩

theorem NoneOpen.set (h : NoneOpen s) {t : Nat} {tr tr' : Transport} (e : Engine)
    (ht : s.transports[t]? = some tr) (hstate : tr'.readyState = tr.readyState) :
    NoneOpen { s with toEngine := e, transports := s.transports.set t tr' } :=
  Tally.forall_mem_set h (hstate ▸ h tr (List.mem_of_getElem? ht))

/-- A step of a transport that ends with its pump at work. -/
theorem someoneAtWork_set {t : Nat} {tr tr' : Transport} {e : Engine}
    (ht : s.transports[t]? = some tr)
    (h : tr'.atWork = true ∨ ∃ v ∈ s.others t, v.atWork = true) :
    SomeoneAtWork { s with toEngine := e, transports := s.transports.set t tr' } := by
  have hlt : t < s.transports.length := (List.getElem?_eq_some_iff.mp ht).1
  rcases h with h | ⟨v, hv, h⟩
  · exact ⟨tr', List.mem_set hlt tr', h⟩
  · exact ⟨v, mem_of_mem_others hv, h⟩

theorem Staffed.put (h : Staffed s) {t : Nat} {tr : Transport} {ev : PumpEvent}
    {x : Engine × Transport} (ht : s.transports[t]? = some tr) (hw : Wires tr ev x.2)
    (hleaves : Leaves s.toEngine tr ev x) (hok : StaysStaffed s (.pump t ev)) :
    Staffed (s.put t x) := by
  intro hmore
  cases hleaves with
  | atWork hwork => exact .inl (someoneAtWork_set ht (.inl hwork))
  | noWork hno => exact absurd (hno.symm.trans hmore) Bool.false_ne_true
  | gaveUp hgives hleft =>
      rcases hok tr ht hgives hleft with hothers | hnone
      · exact .inl (someoneAtWork_set ht (.inr hothers))
      · exact .inr (NoneOpen.set hnone x.1 ht hw.readyState)
  | idle hidle heq =>
      have hmore' : s.moreWork = true := heq ▸ hmore
      rcases h hmore' with hsome | hnone
      · rcases someoneAtWork_cases ht hsome with hwork | hothers
        · exact absurd (hidle.symm.trans hwork) Bool.false_ne_true
        · exact .inl (someoneAtWork_set ht (.inr hothers))
      · exact .inr (hnone.set x.1 ht hw.readyState)

theorem Staffed.onclose (h : Staffed s) {t : Nat} {tr : Transport}
    (ht : s.transports[t]? = some tr) (hok : StaysStaffed s (.onclose t)) :
    Staffed { s with transports := s.transports.set t { tr with readyState := .closed } } := by
  intro hmore
  have hclosed : ∀ (hnone : ∀ v ∈ s.others t, v.readyState ≠ .opened),
      NoneOpen { s with transports := s.transports.set t { tr with readyState := .closed } } := by
    intro hnone v hv
    obtain ⟨u, hu⟩ := List.mem_iff_getElem?.mp hv
    rcases Tally.getElem?_set_cases hu with ⟨rfl, rfl⟩ | ⟨hut, hu⟩
    · simp
    · exact hnone v (mem_others.mpr ⟨u, hut, hu⟩)
  rcases h hmore with hsome | hnone
  · rcases someoneAtWork_cases ht hsome with hwork | hothers
    · cases hstill : ({ tr with readyState := .closed } : Transport).atWork with
      | true => exact .inl (someoneAtWork_set ht (.inl hstill))
      | false =>
          rcases hok tr ht hwork hstill hmore with hothers | hnone
          · exact .inl (someoneAtWork_set ht (.inr hothers))
          · exact .inr (hclosed hnone)
    · exact .inl (someoneAtWork_set ht (.inr hothers))
  · refine .inr (hclosed fun v hv => ?_)
    obtain ⟨u, -, hu⟩ := mem_others.mp hv
    exact hnone v (List.mem_of_getElem? hu)

/-! ### A transport that opens takes part -/

theorem moreWork_of_pumpLoop {e : Engine} {tr : Transport}
    (h : (pumpLoop e tr).1.moreWork = true) : e.moreWork = true := by
  rw [pumpLoop] at h
  split_ifs at h with hwork
  · exact hwork
  · exact h

theorem launch_spec (s : Sender) (u : Nat) :
    ((s.launch u).moreWork = true → s.moreWork = true) ∧
      (SomeoneAtWork s → SomeoneAtWork (s.launch u)) ∧
      ∀ t ≠ u, (s.launch u).transports[t]? = s.transports[t]? := by
  rw [launch]
  split
  next tr ht =>
    split_ifs with hp
    · exact ⟨id, id, fun _ _ => rfl⟩
    · refine ⟨moreWork_of_pumpLoop, fun hsome => ?_, fun t htu => List.getElem?_set_ne htu.symm⟩
      -- a pump that is not started is not the one at work
      have hidle : tr.atWork = false := by
        have hpump : tr.pump = .notStarted := by simpa [Pump.started] using hp
        simp [Transport.atWork, hpump]
      rcases someoneAtWork_cases ht hsome with hwork | hothers
      · exact absurd (hidle.symm.trans hwork) Bool.false_ne_true
      · exact someoneAtWork_set ht (.inr hothers)
  next => exact ⟨id, id, fun _ _ => rfl⟩

/-- Starting the pumps of `ts`, among them one that has not been started. -/
theorem foldl_launch_staffed {t : Nat} {tr : Transport} {ts : List Nat} (hmem : t ∈ ts)
    (ht : s.transports[t]? = some tr) (hpump : tr.pump = .notStarted)
    (hmore : (ts.foldl launch s).moreWork = true) : SomeoneAtWork (ts.foldl launch s) := by
  have hkeep : ∀ (ts : List Nat) (s : Sender),
      ((ts.foldl launch s).moreWork = true → s.moreWork = true) ∧
        (SomeoneAtWork s → SomeoneAtWork (ts.foldl launch s)) := by
    intro ts
    induction ts with
    | nil => exact fun s => ⟨id, id⟩
    | cons u ts ih =>
        intro s
        obtain ⟨hmore, hsome, -⟩ := launch_spec s u
        exact ⟨fun h => hmore ((ih _).1 h), fun h => (ih _).2 (hsome h)⟩
  induction ts generalizing s with
  | nil => simp at hmem
  | cons u ts ih =>
      by_cases htu : t = u
      · subst htu
        have hmore' := (hkeep ts (s.launch t)).1 hmore
        apply (hkeep ts (s.launch t)).2
        rw [launch, ht] at hmore' ⊢
        simp only [hpump, Pump.started, decide_not, decide_true, Bool.not_true, Bool.false_eq_true,
          if_false] at hmore' ⊢
        refine someoneAtWork_set ht (.inl ?_)
        exact (pumpLoop_atWork s.toEngine tr).resolve_right fun hno =>
          absurd (hno.symm.trans hmore') Bool.false_ne_true
      · refine ih ((List.mem_cons.mp hmem).resolve_left htu) ?_ hmore
        rw [(launch_spec s u).2.2 t htu]
        exact ht

/-- Among the transports whose pumps `tryStart` starts is `t`. -/
theorem someoneAtWork_tryStart {t : Nat} {tr : Transport}
    (hready : t ∈ s.relayReady ++ s.p2pReady) (ht : s.transports[t]? = some tr)
    (hpump : tr.pump = .notStarted) (hmore : s.tryStart.moreWork = true) :
    SomeoneAtWork s.tryStart := by
  rw [tryStart] at hmore ⊢
  split_ifs at hmore ⊢ with hstarted hnone
  · exact foldl_launch_staffed hready ht hpump hmore
  · exact absurd (hnone ▸ hready) (by simp)
  · exact foldl_launch_staffed (s := { s with
      sendingStarted := true, sentChunks := 0, bytesTransferred := 0, nextChunkIndex := 0 })
      hready ht hpump hmore

theorem mem_assign_self (arr : List (Option Nat)) (idx t : Nat) : some t ∈ assign arr idx t := by
  apply List.mem_set
  rw [List.length_append, List.length_replicate]
  omega

/-- The open handler starts the pump of its transport. -/
theorem staffed_onopen (hwired : Wired s) (cfg : Config) {t : Nat} {tr : Transport}
    (ht : s.transports[t]? = some tr) (hstate : tr.readyState = .connecting) :
    Staffed (s.onopen cfg t tr) := by
  intro hmore
  have hlt : t < s.transports.length := (List.getElem?_eq_some_iff.mp ht).1
  have hpump : (s.opened cfg tr).pump = .notStarted :=
    (opened_spec s cfg tr).1.trans (hwired.unopened tr (List.mem_of_getElem? ht) hstate).1
  have hopen := (opened_wire s cfg tr).2.1
  have ht₁ : (s.transports.set t (s.opened cfg tr))[t]? = some (s.opened cfg tr) :=
    List.getElem?_set_self hlt
  rw [onopen] at hmore ⊢
  refine .inl (someoneAtWork_tryStart ?_ ht₁ hpump hmore)
  rw [List.mem_append]
  cases hk : tr.kind with
  | relay idx =>
      refine .inl (List.mem_filter.mpr ⟨List.mem_filterMap.mpr ⟨some t, ?_, rfl⟩, ?_⟩)
      · exact mem_assign_self _ _ _
      · simp [isOpen, ht₁, hopen]
  | p2p idx =>
      refine .inr (List.mem_filter.mpr ⟨hwired.p2p t tr idx ht hk, ?_⟩)
      have hr : (s.opened cfg tr).ready = true := by simp [opened, hk]
      simp [ht₁, hr, hpump, Pump.started]

theorem Staffed.createOffer {file : File} (h : Staffed s) (cfg : Config)
    (htotal : s.totalChunks = Web.totalChunks file) : Staffed (s.createOffer cfg file) := by
  intro hmore
  have hmore' : s.moreWork = true := by
    rw [Engine.moreWork, htotal]
    exact hmore
  rcases h hmore' with ⟨tr, htr, hwork⟩ | hnone
  · exact .inl ⟨tr, by simp [Sender.createOffer, htr], hwork⟩
  · refine .inr fun v hv => ?_
    obtain ⟨u, hu⟩ := List.mem_iff_getElem?.mp hv
    rcases createOffer_getElem? hu with hold | ⟨i, rfl⟩ | ⟨i, -, -, rfl⟩
    · exact hnone v (List.mem_of_getElem? hold)
    · simp
    · simp

theorem drain_pump {tr tr' : Transport} (h : tr.drain = some tr') :
    tr'.atWork = tr.atWork := by
  obtain ⟨hkind, hstate, -⟩ := drain_wire h
  rw [Transport.atWork, Transport.atWork, (handed_drain h).1, hkind, hstate]

theorem Staffed.drain (h : Staffed s) {t : Nat} {tr tr' : Transport}
    (ht : s.transports[t]? = some tr) (hdrain : tr.drain = some tr') :
    Staffed { s with transports := s.transports.set t tr' } := by
  intro hmore
  rcases h hmore with hsome | hnone
  · refine .inl (someoneAtWork_set ht ?_)
    rw [drain_pump hdrain]
    exact someoneAtWork_cases ht hsome
  · exact .inr (hnone.set s.toEngine ht (drain_wire hdrain).2.1)

/-- **Every step keeps the sender staffed**, if it meets the condition. -/
theorem Staffed.step {cfg : Config} {file : File} {lost : List Nat} {s' : Sender} {a : Action}
    (h : Staffed s) (hown : Owned file lost s) (hwired : Wired s) (hread : ReadsSucceed s a)
    (hok : StaysStaffed s a) (hs : Steps cfg file s a s') : Staffed s' := by
  cases hs with
  | createOffer => exact h.createOffer cfg hown.total
  | onopen ht hstate => exact staffed_onopen hwired cfg ht hstate
  | onclose ht hstate => exact h.onclose ht hok
  | drain ht hstate hdrain => exact h.drain ht hdrain
  | @pump t tr ev x ht hturn =>
      exact h.put ht hturn.wires (hturn.leaves hread) hok
  | pollDrain hwait =>
      rw [Sender.pollDrain]
      split_ifs
      · exact h
      · exact h

end Steps

/-- A pump that is at work has a step to take, and one that is no failure. -/
theorem exists_turn {e : Engine} {tr : Transport} (h : tr.atWork = true) :
    ∃ ev x, ev.succeeds = true ∧ Turn e tr ev x := by
  rw [Transport.atWork] at h
  split at h
  next claim hpump => exact ⟨_, _, rfl, .read true hpump⟩
  next batch hpump =>
    cases batch with
    | nil => simp at h
    | cons b rest =>
        cases hk : tr.kind with
        | relay idx => exact ⟨_, _, rfl, .relaySend false hk hpump⟩
        | p2p idx => exact ⟨_, _, rfl, .p2pSend false hk hpump⟩
  next batch failed hpump => exact ⟨_, _, rfl, .resume hpump⟩
  next batch idx hpump hk =>
    cases batch with
    | nil => simp at h
    | cons b rest => exact ⟨_, _, rfl, .relayWake false hk hpump⟩
  next batch idx hpump hk =>
    cases batch with
    | nil => simp at h
    | cons b rest => exact ⟨_, _, rfl, .p2pWake false hk hpump (by simpa using h)⟩
  next => simp at h
  next => simp at h

/-- Where no pump has a step without failure left, none is at work. -/
theorem atWork_eq_false {cfg : Config} {file : File} {s : Sender}
    (h : ∀ t ev, ev.succeeds = true → step cfg file s (.pump t ev) = none) :
    ∀ tr ∈ s.transports, tr.atWork = false := by
  intro tr htr
  obtain ⟨t, ht⟩ := List.mem_iff_getElem?.mp htr
  by_contra hwork
  obtain ⟨ev, x, hev, hturn⟩ := exists_turn (e := s.toEngine) (Bool.not_eq_false _ ▸ hwork)
  have hsteps : Steps cfg file s (.pump t ev) (s.put t x) := .pump ht hturn
  exact absurd ((h t ev hev).symm.trans (step_iff.mpr hsteps)) (by simp)

/-- No pump has a step left. -/
def PumpsDone (cfg : Config) (file : File) (s : Sender) : Prop :=
  ∀ t ev, step cfg file s (.pump t ev) = none

theorem PumpsDone.atWork {cfg : Config} {file : File} {s : Sender} (h : PumpsDone cfg file s) :
    ∀ tr ∈ s.transports, tr.atWork = false :=
  atWork_eq_false fun t ev _ => h t ev

/-- Nothing is open at the start. -/
theorem staffed_start (cfg : Config) (file : File) : Staffed (start cfg file) := by
  refine fun _ => .inr fun tr htr => ?_
  simp only [start, createOffer, List.nil_append, List.mem_append, List.mem_map] at htr
  rcases htr with ⟨i, -, rfl⟩ | ⟨i, -, rfl⟩
  · simp
  · simp

/-- With no more work everything is claimed. -/
theorem Owned.of_moreWork {file : File} {lost : List Nat} {s : Sender} (h : Owned file lost s)
    (hnone : s.moreWork = false) :
    s.retryIndices = [] ∧ s.nextChunkIndex = Web.totalChunks file := by
  rw [Engine.moreWork, Bool.or_eq_false_iff, decide_eq_false_iff_not, decide_eq_false_iff_not,
    not_not] at hnone
  have hle := h.next_le
  refine ⟨hnone.2, ?_⟩
  rw [← h.total]
  omega

/-- **No work is left without a worker**: in a run whose steps keep the sender
staffed, when no pump has a step left and a transport is open, everything has
been claimed and nothing waits to be sent again. -/
theorem no_work_left (cfg : Config) (file : File) (s : Sender)
    (h : Runs.ReachWhen (step cfg file) (fun s a => ReadsSucceed s a ∧ StaysStaffed s a)
      (start cfg file) s)
    (hopen : ∃ tr ∈ s.transports, tr.readyState = .opened) (hdone : PumpsDone cfg file s) :
    s.retryIndices = [] ∧ s.nextChunkIndex = Web.totalChunks file := by
  have hinv : Owned file [] s ∧ Wired s ∧ Staffed s := by
    refine Runs.ReachWhen.invariant (I := fun s => Owned file [] s ∧ Wired s ∧ Staffed s) h
      ⟨owned_start cfg file, wired_start cfg file, staffed_start cfg file⟩ ?_
    rintro u a v ⟨hown, hwired, hstaffed⟩ ⟨hread, hok⟩ hs
    have hstep := step_iff.mp hs
    have hown' := hown.step hstep
    rw [lostBy_of_readsSucceed hread] at hown'
    exact ⟨hown', hwired.step hstep, hstaffed.step hown hwired hread hok hstep⟩
  obtain ⟨hown, -, hstaffed⟩ := hinv
  have hnone : s.moreWork = false := by
    cases hmore : s.moreWork with
    | false => rfl
    | true =>
        rcases hstaffed hmore with ⟨tr, htr, hwork⟩ | hnone
        · exact absurd ((hdone.atWork tr htr).symm.trans hwork) Bool.false_ne_true
        · obtain ⟨tr, htr, hstate⟩ := hopen
          exact absurd hstate (hnone tr htr)
  exact hown.of_moreWork hnone

theorem pumpsDone_of_idle {cfg : Config} {file : File} {s : Sender}
    (h : ∀ tr ∈ s.transports, tr.pump = .notStarted ∨ tr.pump = .ended) :
    PumpsDone cfg file s := by
  intro t ev
  cases hstep : step cfg file s (.pump t ev) with
  | none => rfl
  | some s' =>
      cases step_iff.mp hstep with
      | pump ht hturn =>
          rcases h _ (List.mem_of_getElem? ht) with hpump | hpump
          · exact absurd hpump hturn.running.1
          · exact absurd hpump hturn.running.2

/-- Relay 0 gives its chunk back before relay 1 opens, and relay 1 takes it. -/
theorem no_work_left_requeued :
    ∃ s, Runs.run (step sampleConfig oneByteFile) (start sampleConfig oneByteFile) requeuedRun
      = some s ∧ s.retryIndices = [] ∧ s.nextChunkIndex = 1 :=
  ⟨_, rfl, no_work_left sampleConfig oneByteFile _
    (Runs.reachWhen_of_run requeuedRun rfl (by decide)) (by decide) (pumpsDone_of_idle (by decide))⟩

/-- The pump of relay 1 finds nothing to do and ends; then relay 0 closes and
puts its chunk back. -/
def strandedRun : List Action :=
  [.onopen 0, .onopen 1, .onclose 0, .pump 0 (.read true), .pump 0 (.send false)]

/-- The chunk stays in the retry queue: no pump is left to take it, although
relay 1 is open. -/
theorem not_no_work_left_stranded :
    ¬ ∀ (cfg : Config) (file : File) (s : Sender),
      Runs.ReachWhen (step cfg file) ReadsSucceed (start cfg file) s →
      (∃ tr ∈ s.transports, tr.readyState = .opened) → PumpsDone cfg file s →
        s.retryIndices = [] ∧ s.nextChunkIndex = Web.totalChunks file := by
  intro h
  have hstuck := h sampleConfig oneByteFile _
    (Runs.reachWhen_of_run strandedRun rfl (by decide)) (by decide) (pumpsDone_of_idle (by decide))
  exact absurd hstuck (by decide)

end Sender

end FastTransfer.Web
