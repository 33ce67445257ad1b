import FastTransfer.Web.ReceiverRuns
import FastTransfer.Web.SenderWork

/-!
# The transfer end to end

The sender, its transports and a receiver whose downloader is ready, with the
frames of a transport delivered in the order in which they left its buffer, and
those of different transports in any order. Nothing fails here: no transport
closes, no `send` throws and no file read fails, and `createOffer` is called
once.

The file-info comes over relay 0. Its second copy, on the control channel, is not
among the frames here: the receiver ignores every file-info but the first.
-/

namespace FastTransfer.Web

/-! ## A sender without failures -/

/-- A pump whose `send` threw, between `blast` and its end. -/
def Pump.failed : Pump → Bool
  | .resolved _ failed => failed
  | .notStarted | .reading _ | .sending _ | .waiting _ | .ended => false

theorem pumpLoop_succeeds (e : Engine) (tr : Transport) :
    (pumpLoop e tr).2.pump.failed = false := by
  rw [pumpLoop]
  split_ifs
  · rfl
  · rfl

theorem relayBackpressure_succeeds (e : Engine) (tr : Transport) (b : Entry) (rest : List Entry)
    (throws : Bool) : (relayBackpressure e tr b rest throws).2.pump.failed = false := by
  rw [relayBackpressure]
  split_ifs
  · rfl
  · rfl
  · rfl
  · exact pumpLoop_succeeds _ _
  · rfl

theorem blast_succeeds (e : Engine) (tr : Transport) (b : Entry) (rest : List Entry) :
    (blast e tr b rest false).2.pump.failed = false := by
  rw [blast]
  split_ifs with _ _ hthrows
  · rfl
  · rfl
  · exact hthrows.elim
  · rfl
  · rfl

/-- A step that is no failure leaves no failure behind. -/
theorem Turn.succeeds {e : Engine} {tr : Transport} {ev : PumpEvent} {x : Engine × Transport}
    (h : Turn e tr ev x) (hev : ev.succeeds = true) : x.2.pump.failed = false := by
  cases h with
  | @read claim ok hpump =>
      obtain rfl : ok = true := hev
      rw [finishRead_ok]
      by_cases hempty : claim.indices = []
      · simp [hempty, Pump.failed]
      · simp [hempty, Pump.failed]
  | relaySend throws hkind hpump =>
      rw [Web.relaySend]
      split_ifs
      · rfl
      · exact relayBackpressure_succeeds ..
  | p2pSend throws hkind hpump | p2pWake throws hkind hpump hopen =>
      obtain rfl : throws = false := by simpa [PumpEvent.succeeds] using hev
      exact blast_succeeds ..
  | relayWake throws hkind hpump => exact relayBackpressure_succeeds ..
  | @resume batch failed hpump =>
      rw [afterBlast_eq]
      split_ifs with hquit
      · rfl
      · exact pumpLoop_succeeds _ _

/-- On an open transport, with nothing failing, no pump gives up. -/
theorem givesUp_of_succeeds {tr : Transport} {ev : PumpEvent} (hopen : tr.readyState = .opened)
    (hfailed : tr.pump.failed = false) (hev : ev.succeeds = true) : tr.givesUp ev = false := by
  cases ev with
  | read ok => rfl
  | send throws =>
      obtain rfl : throws = false := by simpa [PumpEvent.succeeds] using hev
      cases hp : tr.pump <;> cases hk : tr.kind <;> simp [Transport.givesUp, hp, hk, hopen]
  | wake throws =>
      obtain rfl : throws = false := by simpa [PumpEvent.succeeds] using hev
      cases hp : tr.pump <;> cases hk : tr.kind <;> simp [Transport.givesUp, hp, hk, hopen]
  | resume =>
      cases hp : tr.pump with
      | resolved batch failed =>
          rw [hp] at hfailed
          simpa [Transport.givesUp, hp, hopen, Pump.failed] using hfailed
      | notStarted | reading claim | sending batch | waiting batch | ended =>
          simp [Transport.givesUp, hp]

namespace Sender

/-- Nothing fails, and the engine is not started again. -/
def FailureFree : Action → Prop
  | .pump _ ev => ev.succeeds = true
  | .createOffer | .onclose _ => False
  | .onopen _ | .drain _ | .pollDrain => True

instance decidableFailureFree : (a : Action) → Decidable (FailureFree a)
  | .pump _ ev => inferInstanceAs (Decidable (ev.succeeds = true))
  | .createOffer | .onclose _ => inferInstanceAs (Decidable False)
  | .onopen _ | .drain _ | .pollDrain => inferInstanceAs (Decidable True)

/-- The frames that a transport has been given are those of this file. -/
def FramesOf (file : File) (tr : Transport) : Prop :=
  ∀ f ∈ tr.drained ++ tr.buffer.map (·.frame),
    f = .fileInfo (fileInfo file) ∨ ∃ i, f = .chunk (readChunk file i)

theorem framesOf_fresh (file : File) (kind : TransportKind) : FramesOf file { kind } := by
  simp [FramesOf]

theorem FramesOf.opened {file : File} {s : Sender} {tr : Transport} (h : FramesOf file tr)
    (hfile : s.file = file) (cfg : Config) : FramesOf file (s.opened cfg tr) := by
  intro f hf
  rw [Sender.opened] at hf
  split at hf
  next =>
    split_ifs at hf
    · simp only [Transport.push, List.map_append, List.map_singleton, ← List.append_assoc] at hf
      rcases List.mem_append.mp hf with hf | hf
      · exact h f hf
      · exact .inl (by rw [List.mem_singleton.mp hf, hfile])
    · exact h f hf
  next => exact h f hf

theorem FramesOf.turn {file : File} {tr : Transport} (h : FramesOf file tr) {e : Engine}
    {ev : PumpEvent} {x : Engine × Transport} (hturn : Turn e tr ev x)
    (hread : tr.WellRead file) : FramesOf file x.2 := by
  have hw := hturn.wires
  intro f hf
  rw [hw.drained] at hf
  rcases hw.buffer with hb | ⟨-, b, hmem, hb⟩
  · rw [hb] at hf
    exact h f hf
  · rw [hb, List.map_append, ← List.append_assoc] at hf
    rcases List.mem_append.mp hf with hf | hf
    · exact h f hf
    · refine .inr ⟨b.index, ?_⟩
      rw [List.mem_singleton.mp hf, ← hread b hmem]

theorem FramesOf.drain {file : File} {tr tr' : Transport} (h : FramesOf file tr)
    (hdrain : tr.drain = some tr') : FramesOf file tr' := by
  intro f hf
  apply h f
  rw [Transport.drain] at hdrain
  split at hdrain
  next => exact absurd hdrain (by simp)
  next q rest hbuffer =>
    split_ifs at hdrain
    · obtain rfl := Option.some.inj hdrain
      simpa [hbuffer] using hf
    · obtain rfl := Option.some.inj hdrain
      simpa [hbuffer] using hf

/-- Without failures a transport is open or has not been touched. -/
structure Healthy (file : File) (tr : Transport) : Prop where
  opened : tr.readyState = .opened ∨ tr = { kind := tr.kind }
  succeeded : tr.pump.failed = false
  frames : FramesOf file tr

theorem healthy_fresh (file : File) (kind : TransportKind) : Healthy file { kind } :=
  ⟨.inr rfl, rfl, framesOf_fresh file kind⟩

theorem Healthy.onopen {file : File} {s : Sender} {tr : Transport} (h : Healthy file tr)
    (hfile : s.file = file) (cfg : Config) : Healthy file (s.opened cfg tr) := by
  refine ⟨.inl (opened_wire s cfg tr).2.1, ?_, h.frames.opened hfile cfg⟩
  rw [(opened_spec s cfg tr).1]
  exact h.succeeded

/-- A transport whose pump takes a step is open. -/
theorem Healthy.opened_of_turn {file : File} {tr : Transport} (h : Healthy file tr) {e : Engine}
    {ev : PumpEvent} {x : Engine × Transport} (hturn : Turn e tr ev x) :
    tr.readyState = .opened := by
  apply h.opened.resolve_right
  intro hfresh
  exact hturn.running.1 (by rw [hfresh])

theorem Healthy.turn {file : File} {tr : Transport} (h : Healthy file tr) {e : Engine}
    {ev : PumpEvent} {x : Engine × Transport} (hturn : Turn e tr ev x)
    (hev : ev.succeeds = true) (hread : tr.WellRead file) : Healthy file x.2 :=
  ⟨.inl (hturn.wires.readyState.trans (h.opened_of_turn hturn)), hturn.succeeds hev,
    h.frames.turn hturn hread⟩

theorem Healthy.drain {file : File} {tr tr' : Transport} (h : Healthy file tr)
    (hopen : tr.readyState = .opened) (hdrain : tr.drain = some tr') : Healthy file tr' := by
  refine ⟨.inl ((drain_wire hdrain).2.1.trans hopen), ?_, h.frames.drain hdrain⟩
  rw [(handed_drain hdrain).1]
  exact h.succeeded

/-- **Every step without failure keeps the transports healthy.** -/
theorem healthy_step {cfg : Config} {file : File} {lost : List Nat} {s s' : Sender} {a : Action}
    (h : ∀ tr ∈ s.transports, Healthy file tr) (hown : Owned file lost s) (hok : FailureFree a)
    (hs : Steps cfg file s a s') : ∀ tr ∈ s'.transports, Healthy file tr := by
  cases hs with
  | createOffer => exact hok.elim
  | onclose ht hstate => exact hok.elim
  | @onopen t tr ht hstate =>
      refine tryStart_rule (P := fun s => ∀ tr ∈ s.transports, Healthy file tr) ?_
        (fun _ h _ => h) (Tally.forall_mem_set h
          ((h tr (List.mem_of_getElem? ht)).onopen hown.file_eq cfg))
      intro s t tr h _ ht _ hready
      obtain ⟨p, hp⟩ := pumpLoop_snd s.toEngine tr
      have htr := h tr (List.mem_of_getElem? ht)
      refine Tally.forall_mem_set h ⟨?_, pumpLoop_succeeds _ _, ?_⟩
      · rw [hp]
        refine .inl (htr.opened.resolve_right fun hfresh => ?_)
        rw [hfresh] at hready
        simp at hready
      · rw [hp]
        exact htr.frames
  | @drain t tr tr' ht hstate hdrain =>
      exact Tally.forall_mem_set h ((h tr (List.mem_of_getElem? ht)).drain hstate hdrain)
  | @pump t tr ev x ht hturn =>
      have htr := List.mem_of_getElem? ht
      exact Tally.forall_mem_set h ((h tr htr).turn hturn hok (hown.wellRead tr htr))
  | pollDrain hwait =>
      rw [Sender.pollDrain]
      split_ifs
      · exact h
      · exact h

/-- Where a pump of a healthy transport is not at work, it holds no chunk. -/
theorem Healthy.held_eq_nil {file : File} {tr : Transport} (h : Healthy file tr)
    (hidle : tr.atWork = false) : tr.pump.held = [] := by
  have hopen : tr.pump ≠ .notStarted → tr.readyState = .opened :=
    fun hne => h.opened.resolve_right fun hfresh => hne (by rw [hfresh])
  cases hp : tr.pump with
  | notStarted | ended => rfl
  | reading claim => simpa [Transport.atWork, hp] using hidle
  | sending batch => simpa [Transport.atWork, hp, Pump.held] using hidle
  | resolved batch failed => simp [Transport.atWork, hp] at hidle
  | waiting batch =>
      have hstate := hopen (by simp [hp])
      cases hk : tr.kind with
      | relay idx => simpa [Transport.atWork, hp, hk, Pump.held] using hidle
      | p2p idx => simpa [Transport.atWork, hp, hk, hstate, Pump.held] using hidle

/-! ### A run of the sender without failures -/

/-- Without failures no pump gives up and no channel closes. -/
theorem staysStaffed {cfg : Config} {file : File} {s s' : Sender} {a : Action}
    (h : ∀ tr ∈ s.transports, Healthy file tr) (hok : FailureFree a)
    (hs : Steps cfg file s a s') : StaysStaffed s a := by
  cases hs with
  | onclose ht hstate => exact hok.elim
  | @pump t tr ev x ht hturn =>
      intro v hv hgives
      obtain rfl := Option.mem_unique ht hv
      have htr := h tr (List.mem_of_getElem? ht)
      have hnot := givesUp_of_succeeds (htr.opened_of_turn hturn) htr.succeeded hok
      exact absurd (hnot.symm.trans hgives) Bool.false_ne_true
  | createOffer | onopen ht hstate | drain ht hstate hdrain | pollDrain hwait => trivial

theorem readsSucceed {s : Sender} {a : Action} (hok : FailureFree a) :
    ReadsSucceed s a := by
  cases a with
  | pump t ev => exact fun hev => by simp [hev, FailureFree, PumpEvent.succeeds] at hok
  | createOffer | onopen t | onclose t | drain t | pollDrain => trivial

/-- What holds of the sender along every run without failures. -/
structure Working (file : File) (s : Sender) : Prop where
  owned : Owned file [] s
  wired : Wired s
  staffed : Staffed s
  healthy : ∀ tr ∈ s.transports, Healthy file tr

theorem working_start (cfg : Config) (file : File) : Working file (start cfg file) where
  owned := owned_start cfg file
  wired := wired_start cfg file
  staffed := staffed_start cfg file
  healthy := by
    intro tr htr
    obtain ⟨t, ht⟩ := List.mem_iff_getElem?.mp htr
    rcases createOffer_getElem? ht with hold | ⟨i, rfl⟩ | ⟨i, -, -, rfl⟩
    · simp at hold
    · exact healthy_fresh file _
    · exact healthy_fresh file _

theorem Working.step {cfg : Config} {file : File} {s s' : Sender} {a : Action}
    (h : Working file s) (hok : FailureFree a) (hs : Steps cfg file s a s') : Working file s' := by
  have hown := h.owned.step hs
  rw [lostBy_of_readsSucceed (readsSucceed hok)] at hown
  exact {
    owned := hown
    wired := h.wired.step hs
    staffed := h.staffed.step h.owned h.wired (readsSucceed hok) (staysStaffed h.healthy hok hs) hs
    healthy := healthy_step h.healthy h.owned hok hs }

/-- With no pump at work and a transport open, every chunk has been sent. -/
theorem Working.sent {file : File} {s : Sender} (h : Working file s)
    (hidle : ∀ tr ∈ s.transports, tr.atWork = false)
    (hopen : ∃ tr ∈ s.transports, tr.readyState = .opened) :
    s.sentIndices.Perm (List.range (totalChunks file)) := by
  have hnone : s.moreWork = false := by
    cases hmore : s.moreWork with
    | false => rfl
    | true =>
        rcases h.staffed hmore with ⟨tr, htr, hwork⟩ | hnone
        · exact absurd ((hidle tr htr).symm.trans hwork) Bool.false_ne_true
        · obtain ⟨tr, htr, hstate⟩ := hopen
          exact absurd hstate (hnone tr htr)
  obtain ⟨hretry, hnext⟩ := h.owned.of_moreWork hnone
  have hheld : s.held = [] :=
    List.flatMap_eq_nil_iff.mpr fun tr htr => (h.healthy tr htr).held_eq_nil (hidle tr htr)
  apply Tally.perm_range_of_count
  intro i
  have hcount := h.owned.count i
  rw [hretry, hheld, Engine.claimed, hnext] at hcount
  simpa using hcount

/-- With idle transports, empty buffers and no `_waitForDrain` going on, no step is
left but the opening of further transports, and failures. -/
theorem step_eq_none_of_idle {cfg : Config} {file : File} {s : Sender} {a : Action}
    (hidle : ∀ tr ∈ s.transports, (tr.pump = .notStarted ∨ tr.pump = .ended) ∧ tr.buffer = [])
    (hwaits : s.drainWaits = 0) (hok : FailureFree a) (hne : ∀ t, a ≠ .onopen t) :
    step cfg file s a = none := by
  cases hstep : step cfg file s a with
  | none => rfl
  | some s' =>
      cases step_iff.mp hstep with
      | createOffer | onclose ht hstate => exact hok.elim
      | @onopen t => exact absurd rfl (hne t)
      | drain ht hstate hdrain =>
          simp [Transport.drain, (hidle _ (List.mem_of_getElem? ht)).2] at hdrain
      | pump ht hturn =>
          rcases (hidle _ (List.mem_of_getElem? ht)).1 with hpump | hpump
          · exact absurd hpump hturn.running.1
          · exact absurd hpump hturn.running.2
      | pollDrain hwait => omega

/-- Every transport of `s'` is one of `s`, and has let out no less than there. -/
def Extends (s s' : Sender) : Prop :=
  ∀ (t : Nat) (tr' : Transport), s'.transports[t]? = some tr' →
    ∃ tr, s.transports[t]? = some tr ∧ tr.drained <+: tr'.drained

theorem Extends.refl (s : Sender) : Extends s s := fun _ tr h => ⟨tr, h, List.prefix_rfl⟩

theorem Extends.set {s s' : Sender} (h : Extends s s') {t : Nat} {tr tr' : Transport} (e : Engine)
    (ht : s'.transports[t]? = some tr) (hdrained : tr.drained <+: tr'.drained) :
    Extends s { s' with toEngine := e, transports := s'.transports.set t tr' } := by
  intro u v hv
  rcases Tally.getElem?_set_cases hv with ⟨rfl, rfl⟩ | ⟨-, hv⟩
  · obtain ⟨tr₀, h₀, hpre⟩ := h u tr ht
    exact ⟨tr₀, h₀, hpre.trans hdrained⟩
  · exact h u v hv

theorem drained_of_drain {tr tr' : Transport} (h : tr.drain = some tr') :
    tr.drained <+: tr'.drained := by
  rw [Transport.drain] at h
  split at h
  next => exact absurd h (by simp)
  next q rest hbuffer =>
    split_ifs at h
    · obtain rfl := Option.some.inj h
      exact List.prefix_rfl
    · obtain rfl := Option.some.inj h
      exact List.prefix_append _ _

theorem extends_step {cfg : Config} {file : File} {s s' : Sender} {a : Action}
    (hok : FailureFree a) (hs : Steps cfg file s a s') : Extends s s' := by
  cases hs with
  | createOffer => exact hok.elim
  | onclose ht hstate => exact hok.elim
  | @onopen t tr ht hstate =>
      have hopened : tr.drained <+: (s.opened cfg tr).drained := by
        rw [Sender.opened]
        split
        · split_ifs
          · exact List.prefix_rfl
          · exact List.prefix_rfl
        · exact List.prefix_rfl
      refine tryStart_rule (P := Extends s) ?_ (fun _ h _ => h)
        ((Extends.refl s).set s.toEngine ht hopened)
      intro s' t tr h _ ht _ _
      obtain ⟨p, hp⟩ := pumpLoop_snd s'.toEngine tr
      exact h.set _ ht (hp ▸ List.prefix_rfl)
  | drain ht hstate hdrain =>
      exact (Extends.refl s).set s.toEngine ht (drained_of_drain hdrain)
  | pump ht hturn =>
      exact (Extends.refl s).set _ ht (hturn.wires.drained ▸ List.prefix_rfl)
  | pollDrain hwait =>
      rw [Sender.pollDrain]
      split_ifs
      · exact Extends.refl s
      · exact Extends.refl s

end Sender

/-! ## The sender and the receiver -/

/-- A frame as the receiver gets it. -/
def Frame.message : Frame → Receiver.Message
  | .fileInfo info => .fileInfo info
  | .chunk entry => .chunk entry.data

/-- Both engines. -/
structure Transfer where
  sender : Sender
  receiver : Receiver
  /-- How many frames of each transport have been delivered. -/
  delivered : Nat → Nat := fun _ => 0

namespace Transfer

/-- A step of the sender, or the next frame of transport `t` is delivered. -/
inductive Action where
  | sender (a : Sender.Action)
  | deliver (t : Nat)
  deriving DecidableEq

/-- One step of the transfer. -/
def step (cfg : Config) (file : File) (x : Transfer) : Action → Option Transfer
  | .sender a => (Sender.step cfg file x.sender a).map fun s => { x with sender := s }
  | .deliver t => do
      let tr ← x.sender.transports[t]?
      let f ← tr.drained[x.delivered t]?
      some { x with
        receiver := x.receiver.onmessage f.message
        delivered := Function.update x.delivered t (x.delivered t + 1) }

/-- After `createOffer`, with the receiver's downloader ready. -/
def start (cfg : Config) (file : File) : Transfer where
  sender := Sender.start cfg file
  receiver := Receiver.ready (fileInfo file)

/-- "Nothing fails", as a condition on the steps of a run. -/
def FailureFree (_ : Transfer) : Action → Prop
  | .sender a => Sender.FailureFree a
  | .deliver _ => True

instance decidableFailureFree (x : Transfer) (a : Action) : Decidable (FailureFree x a) := by
  cases a <;> unfold FailureFree <;> infer_instance

/-- The receiver has got the chunks `evs`, in this order, all of them frames
that have left the buffers; how many of each transport, `delivered` counts. -/
structure Received (file : File) (x : Transfer) (evs : List Receiver.Incoming) : Prop where
  receiver : x.receiver = Receiver.receive file (.fileInfo :: evs)
  inFile : ∀ i, .chunk i ∈ evs → i < totalChunks file
  arrived : ∀ t tr, x.sender.transports[t]? = some tr → x.delivered t ≤ tr.drained.length ∧
    ∀ f ∈ tr.drained.take (x.delivered t), ∀ i, f.chunkIndex = some i → .chunk i ∈ evs

theorem received_start (cfg : Config) (file : File) : Received file (start cfg file) [] where
  receiver := rfl
  inFile := by simp
  arrived := fun _ _ _ => ⟨Nat.zero_le _, by simp [start]⟩

theorem Received.send {file : File} {x : Transfer} {evs : List Receiver.Incoming}
    (h : Received file x evs) {s : Sender} (hext : Sender.Extends x.sender s) :
    Received file { x with sender := s } evs where
  receiver := h.receiver
  inFile := h.inFile
  arrived := by
    intro t tr' htr'
    obtain ⟨tr, htr, ⟨rest, hrest⟩⟩ := hext t tr' htr'
    obtain ⟨hle, hmem⟩ := h.arrived t tr htr
    rw [← hrest]
    refine ⟨hle.trans (by simp), fun f hf => ?_⟩
    rw [List.take_append_of_le_length hle] at hf
    exact hmem f hf

theorem Received.deliver {file : File} {x : Transfer} {evs : List Receiver.Incoming}
    (h : Received file x evs) {lost : List Nat} (hown : Sender.Owned file lost x.sender)
    {t : Nat} {tr : Transport} {f : Frame} (ht : x.sender.transports[t]? = some tr)
    (hf : tr.drained[x.delivered t]? = some f)
    (hframe : f = .fileInfo (fileInfo file) ∨ ∃ i, f = .chunk (readChunk file i)) :
    ∃ ev, Received file { x with
      receiver := x.receiver.onmessage f.message
      delivered := Function.update x.delivered t (x.delivered t + 1) } (evs ++ [ev]) := by
  -- the event is the one that the frame stands for
  obtain ⟨ev, hmessage, hchunk⟩ : ∃ ev : Receiver.Incoming, f.message = ev.message file ∧
      ∀ i, ev = .chunk i ↔ f.chunkIndex = some i := by
    rcases hframe with rfl | ⟨i, rfl⟩
    · exact ⟨.fileInfo, rfl, by simp [Frame.chunkIndex]⟩
    · exact ⟨.chunk i, rfl, by simp [Frame.chunkIndex]⟩
  refine ⟨ev, ?_, ?_, ?_⟩
  · simp only [h.receiver, hmessage, Receiver.receive, List.map_cons, List.map_append,
      List.foldl_cons, List.foldl_append, List.map_nil, List.foldl_nil]
  · intro i hi
    rcases List.mem_append.mp hi with hi | hi
    · exact h.inFile i hi
    · have hidx := (hchunk i).mp (List.mem_singleton.mp hi).symm
      refine hown.sentIndices_nodup.2 i (List.mem_flatMap.mpr ⟨tr, List.mem_of_getElem? ht, ?_⟩)
      rw [Transport.handed_eq]
      exact List.mem_append_left _ (List.mem_filterMap.mpr ⟨f, List.mem_of_getElem? hf, hidx⟩)
  · intro u v hu
    obtain ⟨hle, hmem⟩ := h.arrived u v hu
    by_cases hut : u = t
    · subst hut
      obtain rfl := Option.mem_unique ht hu
      obtain ⟨hlt, hget⟩ := List.getElem?_eq_some_iff.mp hf
      simp only [Function.update_self]
      refine ⟨hlt, fun g hg i hi => ?_⟩
      rw [List.take_succ_eq_append_getElem hlt, List.mem_append, List.mem_singleton, hget] at hg
      rcases hg with hg | rfl
      · exact List.mem_append_left _ (hmem g hg i hi)
      · exact List.mem_append_right _ (List.mem_singleton.mpr ((hchunk i).mpr hi).symm)
    · simp only [Function.update_of_ne hut]
      exact ⟨hle, fun g hg i hi => List.mem_append_left _ (hmem g hg i hi)⟩

/-! ## The run without failures -/

/-- What holds along every run without failures. -/
structure Sound (file : File) (x : Transfer) : Prop where
  owned : Sender.Owned file [] x.sender
  wired : Sender.Wired x.sender
  staffed : Sender.Staffed x.sender
  healthy : ∀ tr ∈ x.sender.transports, Sender.Healthy file tr
  received : ∃ evs, Received file x evs

theorem Sound.of_working {file : File} {x : Transfer} {evs : List Receiver.Incoming}
    (h : Sender.Working file x.sender) (hr : Received file x evs) : Sound file x :=
  ⟨h.owned, h.wired, h.staffed, h.healthy, evs, hr⟩

theorem Sound.working {file : File} {x : Transfer} (h : Sound file x) :
    Sender.Working file x.sender :=
  ⟨h.owned, h.wired, h.staffed, h.healthy⟩

theorem sound_start (cfg : Config) (file : File) : Sound file (start cfg file) :=
  .of_working (Sender.working_start cfg file) (received_start cfg file)

theorem Sound.step {cfg : Config} {file : File} {x y : Transfer} {a : Action}
    (h : Sound file x) (hok : FailureFree x a) (hs : step cfg file x a = some y) :
    Sound file y := by
  cases a with
  | sender a =>
      obtain ⟨s, hstep, rfl⟩ := Option.map_eq_some_iff.mp hs
      have hsteps := Sender.step_iff.mp hstep
      obtain ⟨evs, hr⟩ := h.received
      exact .of_working (h.working.step hok hsteps) (hr.send (Sender.extends_step hok hsteps))
  | deliver t =>
      obtain ⟨tr, ht, hs⟩ := Option.bind_eq_some_iff.mp hs
      obtain ⟨f, hf, hs⟩ := Option.bind_eq_some_iff.mp hs
      obtain rfl := Option.some.inj hs
      obtain ⟨evs, hr⟩ := h.received
      have hframe := (h.healthy tr (List.mem_of_getElem? ht)).frames f
        (List.mem_append_left _ (List.mem_of_getElem? hf))
      obtain ⟨ev, hr'⟩ := hr.deliver h.owned ht hf hframe
      exact .of_working h.working hr'

theorem sound_of_reach {cfg : Config} {file : File} {x : Transfer}
    (h : Runs.ReachWhen (step cfg file) FailureFree (start cfg file) x) : Sound file x :=
  h.invariant (sound_start cfg file) fun _ _ _ hu hok hs => hu.step hok hs

/-! ## The final states -/

/-- No step is left but the opening of further transports, and failures. -/
def Final (cfg : Config) (file : File) (x : Transfer) : Prop :=
  ∀ a, FailureFree x a → (∀ t, a ≠ .sender (.onopen t)) → step cfg file x a = none

theorem Final.sender {cfg : Config} {file : File} {x : Transfer} (h : Final cfg file x)
    {a : Sender.Action} (hok : Sender.FailureFree a) (hne : ∀ t, a ≠ .onopen t) (s : Sender) :
    ¬ Sender.Steps cfg file x.sender a s := by
  intro hs
  have hnone := h (.sender a) hok (fun t heq => hne t (Action.sender.inj heq))
  simp [step, Sender.step_iff.mpr hs] at hnone

theorem Final.atWork {cfg : Config} {file : File} {x : Transfer} (h : Final cfg file x) :
    ∀ tr ∈ x.sender.transports, tr.atWork = false := by
  have hnone : ∀ t ev, ev.succeeds = true →
      Sender.step cfg file x.sender (.pump t ev) = none := by
    intro t ev hev
    cases hstep : Sender.step cfg file x.sender (.pump t ev) with
    | none => rfl
    | some s =>
        have hok : Sender.FailureFree (.pump t ev) := hev
        exact absurd (Sender.step_iff.mp hstep) (h.sender hok (by simp) s)
  exact Sender.atWork_eq_false hnone

/-- In a final state every buffer is empty. -/
theorem Final.buffer {cfg : Config} {file : File} {x : Transfer} (h : Final cfg file x)
    (hsound : Sound file x) : ∀ tr ∈ x.sender.transports, tr.buffer = [] := by
  intro tr htr
  by_contra hne
  obtain ⟨t, ht⟩ := List.mem_iff_getElem?.mp htr
  have hopen : tr.readyState = .opened :=
    (hsound.healthy tr htr).opened.resolve_right fun hfresh => hne (by rw [hfresh])
  obtain ⟨q, rest, hbuffer⟩ := List.exists_cons_of_ne_nil hne
  obtain ⟨tr', hdrain⟩ : ∃ tr', tr.drain = some tr' := by
    simp only [Transport.drain, hbuffer]
    split_ifs
    · exact ⟨_, rfl⟩
    · exact ⟨_, rfl⟩
  have hok : Sender.FailureFree (.drain t) := trivial
  exact h.sender hok (by simp) _ (.drain ht hopen hdrain)

/-- In a final state with an open transport every chunk has been sent. -/
theorem Final.sent {cfg : Config} {file : File} {x : Transfer} (h : Final cfg file x)
    (hsound : Sound file x) (hopen : ∃ tr ∈ x.sender.transports, tr.readyState = .opened) :
    x.sender.sentIndices.Perm (List.range (totalChunks file)) :=
  hsound.working.sent h.atWork hopen

/-- In a final state every frame that was sent has been received. -/
theorem Final.arrived {cfg : Config} {file : File} {x : Transfer} (h : Final cfg file x)
    (hsound : Sound file x) {evs : List Receiver.Incoming} (hr : Received file x evs) :
    ∀ i ∈ x.sender.sentIndices, .chunk i ∈ evs := by
  intro i hi
  obtain ⟨tr, htr, hmem⟩ := List.mem_flatMap.mp hi
  obtain ⟨t, ht⟩ := List.mem_iff_getElem?.mp htr
  obtain ⟨hle, hall⟩ := hr.arrived t tr ht
  -- nothing is left to deliver
  have hlen : x.delivered t = tr.drained.length := by
    by_contra hne
    have hlt : x.delivered t < tr.drained.length := by omega
    have hnone := h (.deliver t) trivial (by simp)
    simp [step, ht, List.getElem?_eq_getElem hlt] at hnone
  rw [Transport.handed, h.buffer hsound tr htr, List.map_nil, List.append_nil] at hmem
  obtain ⟨f, hf, hidx⟩ := List.mem_filterMap.mp hmem
  exact hall f (by rwa [hlen, List.take_length]) i hidx

/-! ## Completion -/

/-- The receiver has had the file-info first, and handled the chunks since then. -/
theorem Received.spec {file : File} {x : Transfer} {evs : List Receiver.Incoming}
    (h : Received file x evs) :
    Receiver.Receiving ((Receiver.chunkFrames file evs).map arrival) 0 x.receiver ∧
      x.receiver.totalChunks = totalChunks file ∧ x.receiver.downloader.isSome ∧
      (0 < totalChunks file → Receiver.Finishing x.receiver) := by
  obtain ⟨k, hk, hr, htotal, -, hsome, hfin⟩ :=
    @Receiver.receive_spec file [] evs (by simp) h.inFile
  obtain rfl : k = 0 := hk
  rw [List.nil_append] at hr htotal hsome hfin
  rw [h.receiver]
  exact ⟨hr, htotal, hsome, hfin rfl⟩

/-- The bytes in the downloader are a prefix of the file. -/
def WrittenPrefix (file : File) (x : Transfer) : Prop :=
  ∃ calls, x.receiver.downloader = some calls ∧ (writes calls).flatten <+: file.bytes

/-- Both sides are done: the bytes written are the file, the downloader is
closed once, and `onComplete` was called once on each side. -/
structure Complete (file : File) (x : Transfer) : Prop where
  written : ∃ calls, x.receiver.downloader = some calls ∧
    (writes calls).flatten = file.bytes ∧ closes calls = 1
  sender : x.sender.onCompleteCalls = 1
  receiver : x.receiver.completions.length = 1

theorem Sound.writtenPrefix {file : File} {x : Transfer} (h : Sound file x)
    (h32 : totalChunks file ≤ 2 ^ 32) : WrittenPrefix file x := by
  obtain ⟨evs, hr⟩ := h.received
  obtain ⟨hrecv, -, hsome, -⟩ := hr.spec
  obtain ⟨calls, hcalls⟩ := Option.isSome_iff_exists.mp hsome
  refine ⟨calls, hcalls, ?_⟩
  rw [(hrecv.writes_payload hr.inFile h32).1 calls hcalls, ← List.flatMap_def]
  exact payloads_below file _

/-- An empty file has no chunk that could complete it, and with more than
`2 ^ 32` chunks the write index never gets to the last of them. -/
theorem Sound.completions {file : File} {x : Transfer} (h : Sound file x)
    (hbad : ¬ (0 < file.size ∧ totalChunks file ≤ 2 ^ 32)) : x.receiver.completions = [] := by
  obtain ⟨evs, hr⟩ := h.received
  rcases Nat.eq_zero_or_pos (totalChunks file) with hzero | hpos
  · have hnone : Receiver.chunkFrames file evs = [] := by
      apply List.filterMap_eq_nil_iff.mpr
      intro ev hev
      cases ev with
      | fileInfo => rfl
      | chunk i => exact absurd (hr.inFile i hev) (show ¬ i < totalChunks file by omega)
    have hrun := Receiver.foldl_onmessage_of_some file evs
      (r := Receiver.ready (fileInfo file)) rfl
    rw [hnone] at hrun
    rw [hr.receiver]
    exact congrArg Receiver.completions hrun
  · obtain ⟨hrecv, htotal, -, hfin⟩ := hr.spec
    obtain ⟨hruns, hcompl, -⟩ := hfin hpos
    obtain ⟨hnext, -⟩ := hrecv.next_le hr.inFile
    have hsize : 0 < file.size :=
      List.length_pos_iff.mpr fun hnil => by rw [totalChunks_eq_zero.mpr hnil] at hpos; omega
    have hmany : ¬ totalChunks file ≤ 2 ^ 32 := fun h32 => hbad ⟨hsize, h32⟩
    rw [if_neg (by omega)] at hruns
    exact List.length_eq_zero_iff.mp (hcompl.trans hruns)

/-- In a final state the sender has called `onComplete`. -/
theorem Final.onCompleteCalls {cfg : Config} {file : File} {x : Transfer} (h : Final cfg file x)
    (hsound : Sound file x) (hopen : ∃ tr ∈ x.sender.transports, tr.readyState = .opened)
    (hpos : 0 < totalChunks file) : x.sender.onCompleteCalls = 1 := by
  have hsent : x.sender.sentChunks = totalChunks file := by
    rw [hsound.owned.sentChunks_eq, (h.sent hsound hopen).length_eq, List.length_range]
  have hfired := hsound.owned.done (show 0 < x.sender.sentChunks by omega)
    (hsent.trans hsound.owned.total.symm)
  have hwaits : ¬ 0 < x.sender.drainWaits := by
    intro hwait
    have hok : Sender.FailureFree .pollDrain := trivial
    exact h.sender hok (by simp) _ (.pollDrain hwait)
  have hcalls := hsound.owned.completions
  rw [hfired, Bool.toNat_true] at hcalls
  omega

theorem Final.complete {cfg : Config} {file : File} {x : Transfer} (h : Final cfg file x)
    (hsound : Sound file x) (hopen : ∃ tr ∈ x.sender.transports, tr.readyState = .opened)
    (hpos : 0 < totalChunks file) (h32 : totalChunks file ≤ 2 ^ 32) : Complete file x := by
  obtain ⟨evs, hr⟩ := hsound.received
  obtain ⟨hrecv, htotal, hsome, hfin⟩ := hr.spec
  obtain ⟨hruns, hcompl, hcloses⟩ := hfin hpos
  obtain ⟨hwrites, hnext⟩ := hrecv.writes_payload hr.inFile h32
  obtain ⟨calls, hcalls⟩ := Option.isSome_iff_exists.mp hsome
  -- every chunk was sent, and has arrived
  have hall : ∀ i < totalChunks file, .chunk i ∈ evs := fun i hi =>
    h.arrived hsound hr i ((h.sent hsound hopen).mem_iff.mpr (List.mem_range.mpr hi))
  have hnext := hnext hall
  rw [htotal, if_pos hnext] at hruns
  refine ⟨⟨calls, hcalls, ?_, (hcloses calls hcalls).trans hruns⟩,
    h.onCompleteCalls hsound hopen hpos, hcompl.trans hruns⟩
  rw [hwrites calls hcalls, hnext, ← List.flatMap_def]
  exact flatMap_payload file

/-- **The transfer without failures**, along every run: up to `2 ^ 32` chunks
the bytes written are a prefix of the file, and in a final state with an open
transport the transfer is complete exactly when the file is not empty and its
chunk indices fit into the frame header. -/
theorem transfer_complete_iff (cfg : Config) (file : File) (x : Transfer)
    (h : Runs.ReachWhen (step cfg file) FailureFree (start cfg file) x) :
    (totalChunks file ≤ 2 ^ 32 → WrittenPrefix file x) ∧
      (Final cfg file x → (∃ tr ∈ x.sender.transports, tr.readyState = .opened) →
        (Complete file x ↔ 0 < file.size ∧ totalChunks file ≤ 2 ^ 32)) := by
  have hsound := sound_of_reach h
  refine ⟨hsound.writtenPrefix, fun hfinal hopen => ?_⟩
  constructor
  · intro hcomplete
    by_contra hbad
    have hcalls := hcomplete.receiver
    rw [hsound.completions hbad] at hcalls
    simp at hcalls
  · rintro ⟨hsize, h32⟩
    have hpos : 0 < totalChunks file := Nat.pos_of_ne_zero fun hzero => by
      rw [File.size, totalChunks_eq_zero.mp hzero] at hsize
      simp at hsize
    exact hfinal.complete hsound hopen hpos h32

/-- A state is final when its transports are idle with empty buffers, their
frames are delivered and no `_waitForDrain` goes on. -/
theorem final_of_idle {cfg : Config} {file : File} {x : Transfer}
    (hidle : ∀ tr ∈ x.sender.transports,
      (tr.pump = .notStarted ∨ tr.pump = .ended) ∧ tr.buffer = [])
    (hdelivered : ∀ t < x.sender.transports.length, ∀ tr ∈ x.sender.transports[t]?,
      tr.drained.length ≤ x.delivered t)
    (hwaits : x.sender.drainWaits = 0) : Final cfg file x := by
  intro a hok hne
  cases a with
  | sender a =>
      have hnone : Sender.step cfg file x.sender a = none :=
        Sender.step_eq_none_of_idle hidle hwaits hok fun t ha => hne t (ha ▸ rfl)
      simp [step, hnone]
  | deliver t =>
      cases hstep : step cfg file x (.deliver t) with
      | none => rfl
      | some y =>
          obtain ⟨tr, ht, hstep⟩ := Option.bind_eq_some_iff.mp hstep
          obtain ⟨f, hf, -⟩ := Option.bind_eq_some_iff.mp hstep
          have hle := hdelivered t (List.getElem?_eq_some_iff.mp ht).1 tr ht
          have hlt := (List.getElem?_eq_some_iff.mp hf).1
          omega

/-- One relay sends the only chunk of the file, and its buffer drains. -/
def oneRelayRun : List Action :=
  [.sender (.onopen 1), .sender (.pump 1 (.read true)), .sender (.pump 1 (.send false))] ++
    List.replicate 5 (.sender (.drain 1)) ++ [.deliver 1, .sender .pollDrain]

theorem transfer_complete_iff_oneByteFile :
    ∃ x, Runs.run (step Sender.sampleConfig oneByteFile) (start Sender.sampleConfig oneByteFile)
      oneRelayRun = some x ∧ Complete oneByteFile x :=
  ⟨_, rfl, ((transfer_complete_iff Sender.sampleConfig oneByteFile _
    (Runs.reachWhen_of_run oneRelayRun rfl (by decide))).2
    (final_of_idle (by decide) (by decide) rfl) (by decide)).mpr ⟨by decide, by decide⟩⟩

/-- The empty file has no chunk, and so no side ever completes it. -/
theorem not_transfer_complete_empty :
    ¬ ∀ (cfg : Config) (file : File) (x : Transfer),
      Runs.ReachWhen (step cfg file) FailureFree (start cfg file) x →
      WrittenPrefix file x ∧
        (Final cfg file x → (∃ tr ∈ x.sender.transports, tr.readyState = .opened) →
          Complete file x) := by
  intro h
  have hcomplete := (h Sender.sampleConfig ⟨"a.txt", "text/plain", []⟩ _
    (Runs.reachWhen_of_run [.sender (.onopen 1)] rfl (by decide))).2
    (final_of_idle (by decide) (by decide) rfl) (by decide)
  exact absurd hcomplete.receiver (by decide)

end Transfer

end FastTransfer.Web
