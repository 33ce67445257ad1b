import FastTransfer.Web.SenderChunks

/-!
# What the drain wait knows

`onComplete` fires when `_waitForDrain` finds all buffers empty, and it looks
only at the transports that are open at that moment and still in the tables of
connections. As long as no chunk frame is in a buffer that it does not look at,
an empty sum means that every chunk has left its buffer.
-/

namespace FastTransfer.Web

/-- The chunks in the send buffer. -/
def Transport.buffered (tr : Transport) : List Nat :=
  (tr.buffer.map (·.frame)).filterMap Frame.chunkIndex

/-- The chunks that have left the send buffer. -/
def Transport.delivered (tr : Transport) : List Nat := tr.drained.filterMap Frame.chunkIndex

/-- The index of a relay. -/
def TransportKind.relayIdx : TransportKind → Option Nat
  | .relay idx => some idx
  | .p2p _ => none

theorem Transport.handed_eq (tr : Transport) : tr.handed = tr.delivered ++ tr.buffered :=
  List.filterMap_append

/-- Will this step of the pump hand a chunk to the transport? A relay pump that
wakes from the backpressure wait does not look at `readyState` again. -/
def Transport.sends (tr : Transport) (ev : PumpEvent) : Bool :=
  match ev, tr.kind with
  | .send throws, .relay _ =>
      tr.readyState = .opened && !(relayBufHigh < tr.bufferedAmount) && !throws
  | .wake throws, .relay _ => !(relayBufHigh < tr.bufferedAmount) && !throws
  | .send throws, .p2p _ | .wake throws, .p2p _ =>
      tr.readyState = .opened && !(p2pBufHigh < tr.bufferedAmount) && !throws
  | .read _, _ | .resume, _ => false

/-- What a step of a pump does to its transport: nothing, or one frame more. -/
structure Wires (tr : Transport) (ev : PumpEvent) (tr' : Transport) : Prop where
  kind : tr'.kind = tr.kind
  readyState : tr'.readyState = tr.readyState
  ready : tr'.ready = tr.ready
  drained : tr'.drained = tr.drained
  buffer : tr'.buffer = tr.buffer ∨ tr.sends ev = true ∧ ∃ b ∈ tr.pump.entries,
    tr'.buffer = tr.buffer ++ [⟨.chunk b, b.data.length⟩]

theorem Wires.setPump (tr : Transport) (ev : PumpEvent) (p : Pump) :
    Wires tr ev { tr with pump := p } := ⟨rfl, rfl, rfl, rfl, .inl rfl⟩

theorem Wires.push {tr : Transport} {ev : PumpEvent} {b : Entry} (hb : b ∈ tr.pump.entries)
    (hsends : tr.sends ev = true) (p : Pump) :
    Wires tr ev { tr.push (.chunk b) b.data.length with pump := p } :=
  ⟨rfl, rfl, rfl, rfl, .inr ⟨hsends, b, hb, rfl⟩⟩

theorem finishRead_snd (e : Engine) (tr : Transport) (claim : Claim) (ok : Bool) :
    ∃ p, (finishRead e tr claim ok).2 = { tr with pump := p } := by
  cases ok with
  | true => exact ⟨_, by rw [finishRead_ok]⟩
  | false => exact ⟨_, rfl⟩

theorem afterBlast_snd (e : Engine) (tr : Transport) (batch : List Entry) (failed : Bool) :
    ∃ p, (afterBlast e tr batch failed).2 = { tr with pump := p } := by
  rw [afterBlast_eq]
  split_ifs with hquit
  · exact ⟨.ended, rfl⟩
  · exact pumpLoop_snd _ tr

theorem wires_relayBackpressure {e : Engine} {tr : Transport} {b : Entry} {rest : List Entry}
    {throws : Bool} {ev : PumpEvent} (hb : b ∈ tr.pump.entries)
    (hsends : ¬ relayBufHigh < tr.bufferedAmount → throws = false → tr.sends ev = true) :
    Wires tr ev (relayBackpressure e tr b rest throws).2 := by
  rw [relayBackpressure]
  split_ifs with hfull hclosed hthrows hrest
  · exact .setPump tr ev _
  · exact .setPump tr ev _
  · exact .setPump tr ev _
  · obtain ⟨p, hp⟩ := pumpLoop_snd (e.countSent b.size) (tr.push (.chunk b) b.data.length)
    simp only [hp]
    exact .push hb (hsends hfull (by simpa using hthrows)) p
  · exact .push hb (hsends hfull (by simpa using hthrows)) _

theorem wires_blast {e : Engine} {tr : Transport} {b : Entry} {rest : List Entry}
    {throws : Bool} {ev : PumpEvent} (hb : b ∈ tr.pump.entries)
    (hsends : tr.readyState = .opened → ¬ p2pBufHigh < tr.bufferedAmount → throws = false →
      tr.sends ev = true) :
    Wires tr ev (blast e tr b rest throws).2 := by
  rw [blast]
  split_ifs with hclosed hfull hthrows hrest
  · exact .setPump tr ev _
  · exact .setPump tr ev _
  · exact .setPump tr ev _
  · exact .push hb (hsends (by simpa using hclosed) hfull (by simpa using hthrows)) _
  · exact .push hb (hsends (by simpa using hclosed) hfull (by simpa using hthrows)) _

theorem Turn.wires {e : Engine} {tr : Transport} {ev : PumpEvent} {x : Engine × Transport}
    (h : Turn e tr ev x) : Wires tr ev x.2 := by
  cases h with
  | @read claim ok hpump =>
      obtain ⟨p, hp⟩ := finishRead_snd e tr claim ok
      rw [hp]
      exact .setPump tr _ p
  | relaySend throws hkind hpump =>
      rw [Web.relaySend]
      split_ifs with hclosed
      · exact .setPump tr _ _
      · apply wires_relayBackpressure (by simp [hpump, Pump.entries])
        intro hfull hthrows
        simp [Transport.sends, hkind, hfull, hthrows] at hclosed ⊢
        exact hclosed
  | p2pSend throws hkind hpump =>
      apply wires_blast (by simp [hpump, Pump.entries])
      intro hopen hfull hthrows
      simpa [Transport.sends, hkind, hopen, hthrows] using hfull
  | relayWake throws hkind hpump =>
      apply wires_relayBackpressure (by simp [hpump, Pump.entries])
      intro hfull hthrows
      simpa [Transport.sends, hkind, hthrows] using hfull
  | p2pWake throws hkind hpump hopen =>
      apply wires_blast (by simp [hpump, Pump.entries])
      intro _ hfull hthrows
      simpa [Transport.sends, hkind, hopen, hthrows] using hfull
  | @resume batch failed hpump =>
      obtain ⟨p, hp⟩ := afterBlast_snd e tr batch failed
      rw [hp]
      exact .setPump tr _ p

namespace Sender

/-! ## The transports and the tables of connections -/

/-- Every P2P transport is in `connections`, and a transport that has not opened
has no pump. -/
structure Wired (s : Sender) : Prop where
  p2p : ∀ t tr idx, s.transports[t]? = some tr → tr.kind = .p2p idx → t ∈ s.connections
  unopened : ∀ tr ∈ s.transports, tr.readyState = .connecting →
    tr.pump = .notStarted ∧ tr.ready = false

section Wired

variable {s : Sender}

theorem Wired.set (h : Wired s) {t : Nat} {tr tr' : Transport} (e : Engine)
    (ht : s.transports[t]? = some tr) (hkind : tr'.kind = tr.kind)
    (hunopened : tr'.readyState = .connecting → tr'.pump = .notStarted ∧ tr'.ready = false) :
    Wired { s with toEngine := e, transports := s.transports.set t tr' } := by
  refine ⟨?_, Tally.forall_mem_set h.unopened hunopened⟩
  intro u v idx hu hv
  rcases Tally.getElem?_set_cases hu with ⟨rfl, rfl⟩ | ⟨-, hu⟩
  · exact h.p2p u tr idx ht (hkind ▸ hv)
  · exact h.p2p u v idx hu hv

theorem Wired.tryStart (h : Wired s) : Wired s.tryStart := by
  refine tryStart_rule (fun s t tr h _ ht _ hready => ?_) (fun _ h _ => ⟨h.p2p, h.unopened⟩) h
  obtain ⟨p, hp⟩ := pumpLoop_snd s.toEngine tr
  apply h.set _ ht (by rw [hp])
  rw [hp]
  intro hstate
  have hnot := (h.unopened tr (List.mem_of_getElem? ht) hstate).2
  rcases hready with hopen | hr
  · exact absurd (hstate.symm.trans hopen) (by decide)
  · exact absurd (hnot.symm.trans hr) Bool.false_ne_true

/-- The transports after a `createOffer`: the old ones, and new ones at the end. -/
theorem createOffer_getElem? {cfg : Config} {file : File} {u : Nat} {v : Transport}
    (h : (s.createOffer cfg file).transports[u]? = some v) :
    s.transports[u]? = some v ∨ (∃ i, v = { kind := .relay i }) ∨
      ∃ i < cfg.numP2P, u = s.transports.length + cfg.numRelay + i ∧ v = { kind := .p2p i } := by
  simp only [Sender.createOffer, List.getElem?_append, List.getElem?_map, List.length_append,
    List.length_map, List.length_range] at h
  split_ifs at h with hrelay hold
  · exact .inl h
  · obtain ⟨i, -, rfl⟩ := Option.map_eq_some_iff.mp h
    exact .inr (.inl ⟨i, rfl⟩)
  · obtain ⟨i, hi, rfl⟩ := Option.map_eq_some_iff.mp h
    obtain ⟨hlt, rfl⟩ := List.getElem?_eq_some_iff.mp hi
    rw [List.length_range] at hlt
    rw [List.getElem_range]
    exact .inr (.inr ⟨_, hlt, by omega, rfl⟩)

theorem opened_wire (s : Sender) (cfg : Config) (tr : Transport) :
    (s.opened cfg tr).kind = tr.kind ∧ (s.opened cfg tr).readyState = .opened ∧
      (s.opened cfg tr).buffered = tr.buffered ∧
      (s.opened cfg tr).delivered = tr.delivered ∧
      ∀ q ∈ (s.opened cfg tr).buffer, q.frame.chunkIndex.isSome → q ∈ tr.buffer := by
  rw [Sender.opened]
  split
  next =>
    split_ifs
    · refine ⟨rfl, rfl, by simp [Transport.buffered, Transport.push, Frame.chunkIndex], rfl, ?_⟩
      intro q hq hchunk
      rcases List.mem_append.mp hq with hq | hq
      · exact hq
      · rw [List.mem_singleton.mp hq] at hchunk
        simp [Frame.chunkIndex] at hchunk
    · exact ⟨rfl, rfl, rfl, rfl, fun q hq _ => hq⟩
  next => exact ⟨rfl, rfl, rfl, rfl, fun q hq _ => hq⟩

/-- A byte that leaves takes no chunk out of the buffer other than into `drained`. -/
theorem drain_wire {tr tr' : Transport} (h : tr.drain = some tr') :
    tr'.kind = tr.kind ∧ tr'.readyState = tr.readyState ∧
      (tr'.buffered ≠ [] → tr.buffered ≠ []) ∧ tr.delivered ⊆ tr'.delivered ∧
      ((∀ q ∈ tr.buffer, q.frame.chunkIndex.isSome → 0 < q.left) →
        ∀ q ∈ tr'.buffer, q.frame.chunkIndex.isSome → 0 < q.left) := by
  rw [Transport.drain] at h
  split at h
  next => exact absurd h (by simp)
  next q rest hbuffer =>
    split_ifs at h with hleft
    · obtain rfl := Option.some.inj h
      refine ⟨rfl, rfl, ?_, fun i hi => hi, ?_⟩
      · simp [Transport.buffered, hbuffer]
      · intro hall q' hq' hchunk
        rcases List.mem_cons.mp hq' with rfl | hq'
        · show 0 < q.left - 1
          omega
        · exact hall q' (hbuffer ▸ List.mem_cons_of_mem _ hq') hchunk
    · obtain rfl := Option.some.inj h
      refine ⟨rfl, rfl, ?_, ?_, ?_⟩
      · intro hne hnil
        rw [Transport.buffered, hbuffer, List.map_cons, List.filterMap_cons] at hnil
        split at hnil
        · exact hne hnil
        · simp at hnil
      · intro i hi
        rw [Transport.delivered, List.filterMap_append]
        exact List.mem_append_left _ hi
      · exact fun hall q' hq' => hall q' (hbuffer ▸ List.mem_cons_of_mem _ hq')

theorem Wired.step {cfg : Config} {file : File} {s' : Sender} {a : Action} (h : Wired s)
    (hs : Steps cfg file s a s') : Wired s' := by
  cases hs with
  | createOffer =>
      constructor
      · intro u v idx hu hv
        rcases createOffer_getElem? hu with hold | ⟨i, rfl⟩ | ⟨i, hi, rfl, rfl⟩
        · exact List.mem_append_left _ (h.p2p u v idx hold hv)
        · simp at hv
        · refine List.mem_append_right _ (List.mem_range'_1.mpr ?_)
          omega
      · intro v hv
        obtain ⟨u, hu⟩ := List.mem_iff_getElem?.mp hv
        rcases createOffer_getElem? hu with hold | ⟨i, rfl⟩ | ⟨i, -, -, rfl⟩
        · exact h.unopened v (List.mem_of_getElem? hold)
        · exact fun _ => ⟨rfl, rfl⟩
        · exact fun _ => ⟨rfl, rfl⟩
  | @onopen t tr ht hstate =>
      obtain ⟨hkind, hopen, -⟩ := opened_wire s cfg tr
      have hset := h.set s.toEngine ht hkind fun hc => absurd (hopen.symm.trans hc) (by decide)
      exact Wired.tryStart ⟨hset.p2p, hset.unopened⟩
  | onclose ht hstate => exact h.set s.toEngine ht rfl (by simp)
  | @drain t tr tr' ht hstate hdrain =>
      obtain ⟨hkind, hready, -⟩ := drain_wire hdrain
      apply h.set s.toEngine ht hkind
      intro hc
      exact absurd ((hready.symm.trans hc).symm.trans hstate) (by decide)
  | @pump t tr ev x ht hturn =>
      have hw := hturn.wires
      apply h.set x.1 ht hw.kind
      intro hc
      -- a pump that takes a step is on a transport that has opened
      have hpump := (h.unopened tr (List.mem_of_getElem? ht) (hw.readyState ▸ hc)).1
      exact absurd hpump hturn.running.1
  | pollDrain hwait =>
      rw [Sender.pollDrain]
      split_ifs
      · exact ⟨h.p2p, h.unopened⟩
      · exact h

theorem wired_start (cfg : Config) (file : File) : Wired (start cfg file) :=
  Wired.step ⟨by simp, by simp⟩ (.createOffer (s := { file }))

end Wired

/-! ## Frames that the drain wait does not see -/

/-- `_waitForDrain` looks at this transport, if it is open. -/
def Watched (s : Sender) (t : Nat) : Prop := some t ∈ s.relayConns ∨ t ∈ s.connections

/-- No step takes a chunk frame out of the sight of the drain wait: no transport
closes, and no relay is replaced by the one of a later `createOffer`, with a
chunk frame in its buffer, and no chunk is handed to a relay that is closed or
replaced. -/
def KeepsFrames (s : Sender) : Action → Prop
  | .onclose t => ∀ tr ∈ s.transports[t]?, tr.buffered = []
  | .onopen t => ∀ tr ∈ s.transports[t]?, ∀ idx ∈ tr.kind.relayIdx,
      ∀ u ∈ s.relayConns[idx]?.join, ∀ old ∈ s.transports[u]?, old.buffered = []
  | .pump t ev => ∀ tr ∈ s.transports[t]?, tr.kind.relayIdx.isSome → tr.sends ev = true →
      tr.readyState = .opened ∧ some t ∈ s.relayConns
  | .createOffer | .drain _ | .pollDrain => True

instance decidableKeepsFrames (s : Sender) : (a : Action) → Decidable (KeepsFrames s a)
  | .onclose t => inferInstanceAs (Decidable (∀ tr ∈ s.transports[t]?, tr.buffered = []))
  | .onopen t => inferInstanceAs (Decidable (∀ tr ∈ s.transports[t]?, ∀ idx ∈ tr.kind.relayIdx,
      ∀ u ∈ s.relayConns[idx]?.join, ∀ old ∈ s.transports[u]?, old.buffered = []))
  | .pump t ev => inferInstanceAs (Decidable (∀ tr ∈ s.transports[t]?,
      tr.kind.relayIdx.isSome → tr.sends ev = true →
      tr.readyState = .opened ∧ some t ∈ s.relayConns))
  | .createOffer | .drain _ | .pollDrain => inferInstanceAs (Decidable True)

/-- Every chunk frame in a buffer is in sight of the drain wait. -/
structure InSight (s : Sender) : Prop where
  watched : ∀ t tr, s.transports[t]? = some tr → tr.buffered ≠ [] →
    tr.readyState = .opened ∧ s.Watched t
  left : ∀ tr ∈ s.transports, ∀ q ∈ tr.buffer, q.frame.chunkIndex.isSome → 0 < q.left

section Steps

variable {s : Sender}

theorem InSight.set (h : InSight s) {t : Nat} {tr tr' : Transport} (e : Engine)
    (ht : s.transports[t]? = some tr)
    (hwatched : tr'.buffered ≠ [] → tr'.readyState = .opened ∧ s.Watched t)
    (hleft : ∀ q ∈ tr'.buffer, q.frame.chunkIndex.isSome → 0 < q.left) :
    InSight { s with toEngine := e, transports := s.transports.set t tr' } := by
  have hlt : t < s.transports.length := (List.getElem?_eq_some_iff.mp ht).1
  refine ⟨?_, Tally.forall_mem_set h.left hleft⟩
  intro u v hu hv
  rcases Tally.getElem?_set_cases hu with ⟨rfl, rfl⟩ | ⟨-, hu⟩
  · exact hwatched hv
  · exact h.watched u v hu hv

/-- A step of a pump that keeps to the condition keeps every frame in sight. -/
theorem InSight.put (h : InSight s) {t : Nat} {tr : Transport} {ev : PumpEvent}
    {x : Engine × Transport} (ht : s.transports[t]? = some tr) (hw : Wires tr ev x.2)
    (hread : ∀ b ∈ tr.pump.entries, b = readChunk s.file b.index)
    (hok : tr.sends ev = true → tr.readyState = .opened ∧ s.Watched t) :
    InSight (s.put t x) := by
  apply h.set x.1 ht
  · intro hne
    rw [hw.readyState]
    rcases hw.buffer with hb | ⟨hsends, -⟩
    · rw [Transport.buffered, hb] at hne
      exact h.watched t tr ht hne
    · exact hok hsends
  · intro q hq hchunk
    have htr := List.mem_of_getElem? ht
    rcases hw.buffer with hb | ⟨-, b, hmem, hb⟩
    · exact h.left tr htr q (hb ▸ hq) hchunk
    · rw [hb] at hq
      rcases List.mem_append.mp hq with hq | hq
      · exact h.left tr htr q hq hchunk
      · obtain rfl := List.mem_singleton.mp hq
        -- the frame of a chunk starts with its four index bytes
        have hdata := congrArg Entry.data (hread b hmem)
        simp only [hdata, readChunk_data, setUint32, List.length_append,
          BigEndian.length_toBytes]
        omega

theorem InSight.setEngine (h : InSight s) (e : Engine) : InSight { s with toEngine := e } :=
  ⟨h.watched, h.left⟩

theorem InSight.tryStart (h : InSight s) : InSight s.tryStart := by
  refine tryStart_rule (fun s t tr h _ ht _ _ => ?_) (fun _ h _ => h.setEngine _) h
  obtain ⟨p, hp⟩ := pumpLoop_snd s.toEngine tr
  apply h.set _ ht
  · rw [hp]
    exact h.watched t tr ht
  · rw [hp]
    exact h.left tr (List.mem_of_getElem? ht)

/-- An entry of the array stays there, unless it is the one overwritten. -/
theorem mem_assign {arr : List (Option Nat)} {u : Nat} (idx t : Nat) (hu : some u ∈ arr) :
    some u ∈ assign arr idx t ∨ arr[idx]? = some (some u) := by
  obtain ⟨j, hj, hju⟩ := List.mem_iff_getElem.mp hu
  by_cases hij : idx = j
  · subst hij
    exact .inr (List.getElem?_eq_some_iff.mpr ⟨hj, hju⟩)
  · refine .inl (List.mem_iff_getElem?.mpr ⟨j, ?_⟩)
    rw [assign, List.getElem?_set_ne hij, List.getElem?_append_left hj]
    exact List.getElem?_eq_some_iff.mpr ⟨hj, hju⟩

theorem InSight.onopen (h : InSight s) (cfg : Config) {t : Nat} {tr : Transport}
    (ht : s.transports[t]? = some tr) (hstate : tr.readyState = .connecting)
    (hok : KeepsFrames s (.onopen t)) : InSight (s.onopen cfg t tr) := by
  obtain ⟨-, -, hbuffered, -, hmem⟩ := opened_wire s cfg tr
  -- a transport that is not open yet holds no chunk
  have hnone : tr.buffered = [] := by
    by_contra hne
    have := (h.watched t tr ht hne).1
    simp [hstate] at this
  have hset : InSight { s with transports := s.transports.set t (s.opened cfg tr) } := by
    apply h.set s.toEngine ht fun hne => absurd (hbuffered.trans hnone) hne
    exact fun q hq hchunk => h.left tr (List.mem_of_getElem? ht) q (hmem q hq hchunk) hchunk
  refine InSight.tryStart ⟨?_, hset.left⟩
  intro u v hu hv
  obtain ⟨hopen, hwatched⟩ := hset.watched u v hu hv
  refine ⟨hopen, ?_⟩
  rcases hwatched with hrelay | hp2p
  · cases hk : tr.kind with
    | p2p idx => exact .inl (by simpa only [hk] using hrelay)
    | relay idx =>
        rcases mem_assign idx t hrelay with hin | hold
        · exact .inl (by simpa only [hk] using hin)
        · -- the relay replaced holds no chunk frame
          exfalso
          rcases Tally.getElem?_set_cases hu with ⟨rfl, rfl⟩ | ⟨-, hu⟩
          · exact hv (hbuffered.trans hnone)
          · exact hv (hok tr ht idx (by rw [hk]; rfl) u (by simp [hold]) v hu)
  · exact .inr hp2p

theorem InSight.createOffer (h : InSight s) (cfg : Config) (file : File) :
    InSight (s.createOffer cfg file) := by
  constructor
  · intro u v hu hv
    rcases createOffer_getElem? hu with hold | ⟨i, rfl⟩ | ⟨i, -, -, rfl⟩
    · exact (h.watched u v hold hv).imp id fun hw => hw.imp id (List.mem_append_left _)
    · exact absurd rfl hv
    · exact absurd rfl hv
  · intro v hv q hq
    obtain ⟨u, hu⟩ := List.mem_iff_getElem?.mp hv
    rcases createOffer_getElem? hu with hold | ⟨i, rfl⟩ | ⟨i, -, -, rfl⟩
    · exact h.left v (List.mem_of_getElem? hold) q hq
    · simp at hq
    · simp at hq

theorem InSight.step {cfg : Config} {file : File} {s' : Sender} {a : Action} (h : InSight s)
    (hwired : Wired s) (hread : ∀ tr ∈ s.transports, tr.WellRead s.file) (hok : KeepsFrames s a)
    (hs : Steps cfg file s a s') : InSight s' := by
  cases hs with
  | createOffer => exact h.createOffer cfg file
  | onopen ht hstate => exact h.onopen cfg ht hstate hok
  | @onclose t tr ht hstate =>
      refine h.set s.toEngine ht (fun hne => absurd (hok tr ht) hne) ?_
      exact h.left tr (List.mem_of_getElem? ht)
  | @drain t tr tr' ht hstate hdrain =>
      obtain ⟨-, hready, hne, -, hleft⟩ := drain_wire hdrain
      refine h.set s.toEngine ht (fun hne' => ?_)
        (hleft (h.left tr (List.mem_of_getElem? ht)))
      rw [hready]
      exact h.watched t tr ht (hne hne')
  | @pump t tr ev x ht hturn =>
      refine h.put ht hturn.wires (hread tr (List.mem_of_getElem? ht)) fun hsends => ?_
      cases hk : tr.kind with
      | relay idx => exact (hok tr ht (by rw [hk]; rfl) hsends).imp id .inl
      | p2p idx =>
          refine ⟨?_, .inr (hwired.p2p t tr idx ht hk)⟩
          cases ev <;> simp_all [Transport.sends]
  | pollDrain hwait =>
      rw [Sender.pollDrain]
      split_ifs
      · exact h.setEngine _
      · exact h

end Steps

/-! ## The completion is true -/

/-- This chunk has left a buffer; it can only leave one that is open. -/
def HasDelivered (s : Sender) (i : Nat) : Prop := ∃ tr ∈ s.transports, i ∈ tr.delivered

section Completion

variable {s : Sender} {i : Nat}

theorem HasDelivered.set (h : HasDelivered s i) {t : Nat} {tr tr' : Transport} (e : Engine)
    (ht : s.transports[t]? = some tr) (hsub : tr.delivered ⊆ tr'.delivered) :
    HasDelivered { s with toEngine := e, transports := s.transports.set t tr' } i := by
  obtain ⟨v, hv, hi⟩ := h
  obtain ⟨u, hu⟩ := List.mem_iff_getElem?.mp hv
  have hlt : t < s.transports.length := (List.getElem?_eq_some_iff.mp ht).1
  by_cases htu : t = u
  · subst htu
    obtain rfl := Option.mem_unique ht hu
    exact ⟨tr', List.mem_set hlt tr', hsub hi⟩
  · refine ⟨v, List.mem_iff_getElem?.mpr ⟨u, ?_⟩, hi⟩
    rw [List.getElem?_set_ne htu]
    exact hu

/-- A completion that was reported is true. -/
def Truthful (file : File) (s : Sender) : Prop :=
  0 < s.onCompleteCalls → ∀ i < Web.totalChunks file, HasDelivered s i

theorem Truthful.put {file : File} (h : Truthful file s) {t : Nat} {tr : Transport}
    {x : Engine × Transport} (ht : s.transports[t]? = some tr)
    (hcalls : x.1.onCompleteCalls = s.onCompleteCalls)
    (hdrained : x.2.drained = tr.drained) : Truthful file (s.put t x) := by
  intro hpos i hi
  apply (h (hcalls ▸ hpos) i hi).set x.1 ht
  rw [Transport.delivered, Transport.delivered, hdrained]
  exact List.Subset.refl _

/-- With nothing in sight of the drain wait, nothing is in any buffer. -/
theorem InSight.buffered_eq_nil (h : InSight s) (hzero : s.totalBuffered = 0) :
    ∀ tr ∈ s.transports, tr.buffered = [] := by
  intro tr htr
  by_contra hne
  obtain ⟨t, ht⟩ := List.mem_iff_getElem?.mp htr
  obtain ⟨hopen, hwatched⟩ := h.watched t tr ht hne
  have hmem : t ∈ s.relayConns.filterMap id ++ s.connections := by
    simpa [Watched] using hwatched
  have hamount : tr.bufferedAmount = 0 := by
    have := List.sum_eq_zero_iff.mp hzero _ (List.mem_map_of_mem hmem)
    simpa [ht, hopen] using this
  -- a chunk frame in the buffer has bytes left
  obtain ⟨j, hj⟩ := List.exists_mem_of_ne_nil _ hne
  obtain ⟨f, hf, hchunk⟩ := List.mem_filterMap.mp hj
  obtain ⟨q, hq, rfl⟩ := List.mem_map.mp hf
  have hleft := h.left tr htr q hq (by simp [hchunk])
  have := List.sum_eq_zero_iff.mp hamount _ (List.mem_map_of_mem hq)
  omega

theorem Truthful.pollDrain {file : File} {lost : List Nat} (h : Truthful file s)
    (hown : Owned file lost s) (hsight : InSight s) (hwait : 0 < s.drainWaits) :
    Truthful file s.pollDrain := by
  rw [Sender.pollDrain]
  split_ifs with hzero
  · intro _ i hi
    have hfired : s.completeFired = true := by
      have := hown.completions
      cases hf : s.completeFired with
      | true => rfl
      | false => simp_all
    obtain ⟨tr, htr, hmem⟩ := List.mem_flatMap.mp (hown.all_sent hfired i hi)
    rw [Transport.handed_eq, hsight.buffered_eq_nil hzero tr htr, List.append_nil] at hmem
    exact ⟨tr, htr, hmem⟩
  · exact h

theorem Truthful.step {cfg : Config} {file : File} {lost : List Nat} {s' : Sender} {a : Action}
    (h : Truthful file s) (hown : Owned file lost s) (hsight : InSight s)
    (hs : Steps cfg file s a s') : Truthful file s' := by
  cases hs with
  | createOffer =>
      intro hpos i hi
      obtain ⟨tr, htr, hmem⟩ := h hpos i hi
      exact ⟨tr, by simp [createOffer, htr], hmem⟩
  | @onopen t tr ht hstate =>
      have hlaunch : ∀ (s : Sender) (t : Nat) (tr : Transport), Truthful file s →
          s.transports[t]? = some tr → Truthful file (s.put t (pumpLoop s.toEngine tr)) := by
        intro s t tr h ht
        obtain ⟨p, hp⟩ := pumpLoop_snd s.toEngine tr
        refine h.put ht ?_ (by rw [hp])
        rw [pumpLoop]
        split_ifs <;> rfl
      refine tryStart_rule (fun s t tr h _ ht _ _ => hlaunch s t tr h ht) (fun _ h _ => h) ?_
      intro hpos i hi
      have hsub : tr.delivered ⊆ (s.opened cfg tr).delivered :=
        (opened_wire s cfg tr).2.2.2.1 ▸ List.Subset.refl _
      exact (h hpos i hi).set s.toEngine ht hsub
  | onclose ht hstate =>
      exact fun hpos i hi => (h hpos i hi).set s.toEngine ht (List.Subset.refl _)
  | drain ht hstate hdrain =>
      exact fun hpos i hi => (h hpos i hi).set s.toEngine ht (drain_wire hdrain).2.2.2.1
  | @pump t tr ev x ht hturn =>
      have hread := hown.wellRead tr (List.mem_of_getElem? ht)
      rw [← hown.file_eq] at hread
      exact h.put ht (hturn.moves hread).calls hturn.wires.drained
  | pollDrain hwait => exact h.pollDrain hown hsight hwait

end Completion

/-- **No false completion**: in a run where no chunk frame is taken out of sight
of the drain wait, when `onComplete` has fired every chunk has left the buffer
of a transport, while that was open. -/
theorem complete_delivered (cfg : Config) (file : File) (s : Sender)
    (h : Runs.ReachWhen (step cfg file) KeepsFrames (start cfg file) s)
    (hdone : 0 < s.onCompleteCalls) :
    ∀ i < Web.totalChunks file, HasDelivered s i := by
  have hinv : (∃ lost, Owned file lost s) ∧ Wired s ∧ InSight s ∧ Truthful file s := by
    refine Runs.ReachWhen.invariant
      (I := fun s => (∃ lost, Owned file lost s) ∧ Wired s ∧ InSight s ∧ Truthful file s) h
      ⟨⟨[], owned_start cfg file⟩, wired_start cfg file, ?_, ?_⟩ ?_
    · exact InSight.createOffer ⟨by simp, by simp⟩ cfg file
    · intro hpos
      simp [start, createOffer] at hpos
    · rintro u a v ⟨⟨lost, hown⟩, hwired, hsight, htrue⟩ hok hs
      have hstep := step_iff.mp hs
      have hread := hown.wellRead
      rw [← hown.file_eq] at hread
      exact ⟨⟨_, hown.step hstep⟩, hwired.step hstep, hsight.step hwired hread hok hstep,
        htrue.step hown hsight hstep⟩
  exact hinv.2.2.2 hdone

/-- Relay 1 sends the only chunk, and the five bytes of its frame drain. -/
def drainedRun : List Action :=
  [.onopen 1, .pump 1 (.read true), .pump 1 (.send false), .drain 1, .drain 1, .drain 1, .drain 1,
    .drain 1, .pollDrain]

theorem complete_delivered_drained :
    ∃ s, Runs.run (step sampleConfig oneByteFile) (start sampleConfig oneByteFile) drainedRun
      = some s ∧ HasDelivered s 0 :=
  ⟨_, rfl, complete_delivered sampleConfig oneByteFile _
    (Runs.reachWhen_of_run drainedRun rfl (by decide)) (by decide) 0 (by decide)⟩

/-- Relay 0 closes with the only chunk in its buffer. -/
def lostRun : List Action :=
  [.onopen 0, .pump 0 (.read true), .pump 0 (.send false), .onclose 0, .pollDrain]

/-- The chunk is lost with the buffer, and `onComplete` fires: the drain wait
looks only at the transports that are open. -/
theorem not_complete_delivered_lost :
    ¬ ∀ (cfg : Config) (file : File) (s : Sender),
      Runs.Reach (step cfg file) (start cfg file) s → 0 < s.onCompleteCalls →
        ∀ i < Web.totalChunks file, HasDelivered s i := by
  intro h
  have hlost := h sampleConfig oneByteFile _ (Runs.reach_of_run lostRun rfl) (by decide) 0
    (by decide)
  exact absurd hlost (by unfold HasDelivered; decide)

end Sender

end FastTransfer.Web
