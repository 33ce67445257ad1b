import FastTransfer.Lib.Tally
import FastTransfer.Web.SenderMoves

/-!
# Who owns a chunk

The ownership invariant of the sender, for all its runs: every index below
`totalChunks` is in exactly one place, the counters count what has been sent,
and the completion block runs once, after the last chunk.
-/

namespace FastTransfer.Web

namespace Sender

/-- **The ownership invariant**, as sums over the transports; `lost` are the
indices that failed reads have dropped. -/
structure Owned (file : File) (lost : List Nat) (s : Sender) : Prop where
  file_eq : s.file = file
  total : s.totalChunks = Web.totalChunks file
  next_le : s.nextChunkIndex ≤ s.totalChunks
  balance : ∀ i, s.retryIndices.count i + (s.transports.map (·.holds i)).sum + lost.count i =
    s.claimed i
  sent : s.sentChunks = (s.transports.map (·.handed.length)).sum
  bytes : s.bytesTransferred = (s.transports.map fun tr => payloadSize file tr.handed).sum
  wellRead : ∀ tr ∈ s.transports, tr.WellRead file
  completions : s.drainWaits + s.onCompleteCalls = s.completeFired.toNat
  fired : s.completeFired = true → s.totalChunks ≤ s.sentChunks
  done : 0 < s.sentChunks → s.sentChunks = s.totalChunks → s.completeFired = true
  idle : s.sendingStarted = false →
    s.nextChunkIndex = 0 ∧ s.sentChunks = 0 ∧ s.bytesTransferred = 0 ∧
      ∀ tr ∈ s.transports, tr.pump = .notStarted

section Steps

variable {file : File} {lost : List Nat} {s : Sender}

/-- What a pump does to its transport and the shared fields keeps the invariant. -/
theorem Owned.put (h : Owned file lost s) {l : List Nat} {t : Nat} {tr : Transport}
    {x : Engine × Transport} (ht : s.transports[t]? = some tr)
    (hm : Moves l s.toEngine tr x.1 x.2) (hstarted : s.sendingStarted = true) :
    Owned file (lost ++ l) (s.put t x) where
  file_eq := hm.file.trans h.file_eq
  total := hm.total.trans h.total
  next_le := hm.total ▸ hm.next_le h.next_le
  balance i := by
    have := h.balance i
    have := hm.balance i
    have := Tally.sum_map_set (·.holds i) (x := x.2) ht
    rw [List.count_append]
    simp only [Sender.put] at *
    omega
  sent := by
    have := h.sent
    have := hm.sent
    have := Tally.sum_map_set (·.handed.length) (x := x.2) ht
    simp only [Sender.put] at *
    omega
  bytes := by
    have := h.bytes
    have := hm.bytes
    have := Tally.sum_map_set (fun tr => payloadSize file tr.handed) (x := x.2) ht
    rw [← h.file_eq] at *
    simp only [Sender.put] at *
    omega
  wellRead := Tally.forall_mem_set h.wellRead (h.file_eq ▸ hm.wellRead)
  completions := by
    have := h.completions
    have := hm.completions
    simp only [Sender.put] at *
    omega
  fired hfired := by
    have := hm.sent_le
    have := hm.total
    have := h.fired
    simp only [Sender.put] at *
    rcases hm.fired hfired with hf | hle
    · have := h.fired hf
      omega
    · omega
  done hpos hdone := by
    have htotal : x.1.totalChunks = s.totalChunks := hm.total
    have hdone' : x.1.sentChunks = s.totalChunks := hdone.trans htotal
    have hpos' : 0 < x.1.sentChunks := hpos
    rcases hm.done hdone' with heq | hfired
    · exact hm.kept (h.done (show 0 < s.sentChunks by omega)
        (show s.sentChunks = s.totalChunks by omega))
    · exact hfired
  idle hidle := by
    have := hm.started
    simp only [Sender.put] at hidle
    simp [hidle, hstarted] at this

/-- A change of a transport that moves no chunk. -/
theorem Owned.setTransport (h : Owned file lost s) {t : Nat}
    {tr tr' : Transport} (ht : s.transports[t]? = some tr) (hpump : tr'.pump = tr.pump)
    (hhanded : tr'.handed = tr.handed) :
    Owned file lost { s with transports := s.transports.set t tr' } := by
  have htr : tr ∈ s.transports := List.mem_of_getElem? ht
  have hsum : ∀ f : Transport → Nat, f tr' = f tr →
      ((s.transports.set t tr').map f).sum = (s.transports.map f).sum := by
    intro f hf
    have := Tally.sum_map_set f (x := tr') ht
    omega
  refine ⟨h.file_eq, h.total, h.next_le, ?_, ?_, ?_, ?_, h.completions, h.fired, h.done,
    ?_⟩
  · intro i
    rw [hsum _ (by simp only [Transport.holds, hpump, hhanded])]
    exact h.balance i
  · rw [hsum _ (by rw [hhanded])]
    exact h.sent
  · rw [hsum _ (by rw [hhanded])]
    exact h.bytes
  · apply Tally.forall_mem_set h.wellRead
    have := h.wellRead tr htr
    rwa [Transport.WellRead, ← hpump] at this
  · intro hidle
    obtain ⟨hnext, hsent, hbytes, hpumps⟩ := h.idle hidle
    exact ⟨hnext, hsent, hbytes, Tally.forall_mem_set hpumps (hpump.trans (hpumps tr htr))⟩

/-- The first start sets the counters to what they are anyway. -/
theorem Owned.reset (h : Owned file lost s)
    (hidle : s.sendingStarted = false) :
    Owned file lost { s with
      sendingStarted := true, sentChunks := 0, bytesTransferred := 0, nextChunkIndex := 0 } := by
  obtain ⟨hnext, hsent, hbytes, -⟩ := h.idle hidle
  refine ⟨h.file_eq, h.total, Nat.zero_le _, ?_, hsent ▸ h.sent, hbytes ▸ h.bytes, h.wellRead,
    h.completions, hsent ▸ h.fired, by simp, by simp⟩
  intro i
  have := h.balance i
  rw [Engine.claimed, hnext] at this
  rwa [Engine.claimed]

theorem Owned.tryStart (h : Owned file lost s) : Owned file lost s.tryStart := by
  refine tryStart_rule (fun s t tr h hstarted ht hpump _ => ?_) (fun _ h hidle => h.reset hidle) h
  have hput := h.put ht (moves_pumpLoop s.toEngine tr (by rw [hpump]; rfl)) hstarted
  rwa [List.append_nil] at hput

theorem opened_spec (s : Sender) (cfg : Config) (tr : Transport) :
    (s.opened cfg tr).pump = tr.pump ∧ (s.opened cfg tr).handed = tr.handed := by
  rw [Sender.opened]
  split
  next =>
    split_ifs
    · exact ⟨rfl, by simp [Transport.handed, Transport.push, Frame.chunkIndex]⟩
    · exact ⟨rfl, rfl⟩
  next => exact ⟨rfl, rfl⟩

/-- The tables of connections play no part in the ownership of chunks. -/
theorem Owned.setRelayConns (h : Owned file lost s)
    (conns : List (Option Nat)) : Owned file lost { s with relayConns := conns } :=
  ⟨h.file_eq, h.total, h.next_le, h.balance, h.sent, h.bytes, h.wellRead, h.completions, h.fired,
    h.done, h.idle⟩

theorem Owned.onopen (h : Owned file lost s) (cfg : Config) {t : Nat}
    {tr : Transport} (ht : s.transports[t]? = some tr) : Owned file lost (s.onopen cfg t tr) := by
  obtain ⟨hpump, hhanded⟩ := opened_spec s cfg tr
  exact ((h.setTransport ht hpump hhanded).setRelayConns _).tryStart

theorem handed_drain {tr tr' : Transport} (h : tr.drain = some tr') :
    tr'.pump = tr.pump ∧ tr'.handed = tr.handed := by
  rw [Transport.drain] at h
  split at h
  next => exact absurd h (by simp)
  next q rest hbuffer =>
    split_ifs at h with hleft
    · obtain rfl := Option.some.inj h
      exact ⟨rfl, by simp [Transport.handed, hbuffer]⟩
    · obtain rfl := Option.some.inj h
      exact ⟨rfl, by simp [Transport.handed, hbuffer]⟩

theorem Owned.createOffer (h : Owned file lost s) (cfg : Config) :
    Owned file lost (s.createOffer cfg file) := by
  -- the new transports hold nothing
  have hnew : ∀ f : Transport → Nat, (∀ kind, f { kind } = 0) →
      ((s.createOffer cfg file).transports.map f).sum = (s.transports.map f).sum := by
    intro f hf
    simp [Sender.createOffer, Function.comp_def, hf]
  have hmem : ∀ tr ∈ (s.createOffer cfg file).transports,
      tr ∈ s.transports ∨ ∃ kind, tr = { kind } := by
    intro tr htr
    simp only [Sender.createOffer, List.mem_append, List.mem_map] at htr
    rcases htr with (htr | ⟨i, -, rfl⟩) | ⟨i, -, rfl⟩
    · exact .inl htr
    · exact .inr ⟨_, rfl⟩
    · exact .inr ⟨_, rfl⟩
  have htotal : (s.createOffer cfg file).totalChunks = s.totalChunks := h.total.symm
  refine ⟨rfl, rfl, htotal ▸ h.next_le, ?_, ?_, ?_, ?_, h.completions, htotal ▸ h.fired,
    htotal ▸ h.done, ?_⟩
  · intro i
    rw [hnew _ fun kind => rfl]
    exact h.balance i
  · rw [hnew _ fun kind => rfl]
    exact h.sent
  · rw [hnew _ fun kind => rfl]
    exact h.bytes
  · intro tr htr
    rcases hmem tr htr with hold | ⟨kind, rfl⟩
    · exact h.wellRead tr hold
    · simp [Transport.WellRead, Pump.entries]
  · intro hidle
    obtain ⟨hnext, hsent, hbytes, hpumps⟩ := h.idle hidle
    refine ⟨hnext, hsent, hbytes, fun tr htr => ?_⟩
    rcases hmem tr htr with hold | ⟨kind, rfl⟩
    · exact hpumps tr hold
    · rfl

theorem Owned.pollDrain (h : Owned file lost s) (hwait : 0 < s.drainWaits) :
    Owned file lost s.pollDrain := by
  rw [Sender.pollDrain]
  split_ifs
  · refine ⟨h.file_eq, h.total, h.next_le, h.balance, h.sent, h.bytes, h.wellRead, ?_, h.fired,
      h.done, h.idle⟩
    have := h.completions
    simp only
    omega
  · exact h

end Steps

/-- The indices that a step loses: those claimed by a pump whose file read fails. -/
def lostBy (s : Sender) : Action → List Nat
  | .pump t ev => ((s.transports[t]?).map (·.lostBy ev)).getD []
  | .createOffer | .onopen _ | .onclose _ | .drain _ | .pollDrain => []

/-- **Every step keeps the invariant.** -/
theorem Owned.step {file : File} {lost : List Nat} {cfg : Config} {s s' : Sender} {a : Action}
    (h : Owned file lost s) (hs : Steps cfg file s a s') : Owned file (lost ++ s.lostBy a) s' := by
  cases hs with
  | createOffer =>
      rw [lostBy, List.append_nil]
      exact h.createOffer cfg
  | onopen ht hstate =>
      rw [lostBy, List.append_nil]
      exact h.onopen cfg ht
  | onclose ht hstate =>
      rw [lostBy, List.append_nil]
      exact h.setTransport ht rfl rfl
  | drain ht hstate hdrain =>
      obtain ⟨hpump, hhanded⟩ := handed_drain hdrain
      rw [lostBy, List.append_nil]
      exact h.setTransport ht hpump hhanded
  | @pump t tr ev x ht hturn =>
      have htr := List.mem_of_getElem? ht
      have hread := h.wellRead tr htr
      rw [← h.file_eq] at hread
      have hlost : s.lostBy (.pump t ev) = tr.lostBy ev := by simp [lostBy, ht]
      rw [hlost]
      apply h.put ht (hturn.moves hread)
      -- a pump that takes a step has been started
      by_contra hidle
      exact hturn.running.1 ((h.idle (by simpa using hidle)).2.2.2 tr htr)
  | pollDrain hwait =>
      rw [lostBy, List.append_nil]
      exact h.pollDrain hwait

theorem owned_start (cfg : Config) (file : File) : Owned file [] (start cfg file) := by
  -- `createOffer` sets `totalChunks`, whatever it was
  have hstart : start cfg file =
      createOffer { file, totalChunks := Web.totalChunks file } cfg file := by
    simp only [start, Sender.createOffer]
  rw [hstart]
  apply Owned.createOffer
  exact ⟨rfl, rfl, Nat.zero_le _, fun i => by simp [Engine.claimed], rfl, rfl, by simp, rfl,
    by simp, by simp, by simp⟩

theorem lostBy_of_readsSucceed {s : Sender} {a : Action} (hok : ReadsSucceed s a) :
    s.lostBy a = [] := by
  cases a with
  | pump t ev =>
      have hnone : ∀ tr : Transport, tr.lostBy ev = [] := fun tr => if_neg hok
      cases ht : s.transports[t]? with
      | none => simp [lostBy, ht]
      | some tr => simp [lostBy, ht, hnone]
  | createOffer | onopen t | onclose t | drain t | pollDrain => rfl

/-- While the file reads succeed, nothing is lost. -/
theorem owned_of_readsSucceed {cfg : Config} {file : File} {s : Sender}
    (h : Runs.ReachWhen (step cfg file) ReadsSucceed (start cfg file) s) : Owned file [] s := by
  apply h.invariant (owned_start cfg file)
  intro u a v hu hok hs
  have hv := hu.step (step_iff.mp hs)
  rwa [lostBy_of_readsSucceed hok] at hv

/-! ## One place for every chunk -/

/-- The unsent indices in the batches of all pumps. -/
def held (s : Sender) : List Nat := s.transports.flatMap (·.pump.held)

/-- The indices handed to the transports. -/
def sentIndices (s : Sender) : List Nat := s.transports.flatMap (·.handed)

/-- How often the completion block of `_checkDone` was entered: each time it
starts a `_waitForDrain`, which goes on or has ended in `onComplete`. -/
def completionBlocks (s : Sender) : Nat := s.drainWaits + s.onCompleteCalls

/-- Every index is in exactly one place, exactly once, and the counters count
what has been sent. -/
structure ChunksOwned (file : File) (s : Sender) : Prop where
  once : ∀ i < Web.totalChunks file,
    (if s.nextChunkIndex ≤ i then 1 else 0) + s.retryIndices.count i + s.held.count i +
      s.sentIndices.count i = 1
  outside : ∀ i, Web.totalChunks file ≤ i →
    i ∉ s.retryIndices ∧ i ∉ s.held ∧ i ∉ s.sentIndices
  sentChunks : s.sentChunks = s.sentIndices.length
  sentChunks_le : s.sentChunks ≤ Web.totalChunks file
  bytes : s.bytesTransferred = payloadSize file s.sentIndices
  completedOnce : s.completionBlocks ≤ 1
  completed : 0 < s.completionBlocks → ∀ i < Web.totalChunks file, i ∈ s.sentIndices

section Counts

variable {file : File} {lost : List Nat} {s : Sender}

theorem Owned.count (h : Owned file lost s) (i : Nat) :
    s.retryIndices.count i + s.held.count i + s.sentIndices.count i + lost.count i =
      s.claimed i := by
  have hsum : (s.transports.map (·.holds i)).sum = s.held.count i + s.sentIndices.count i := by
    rw [held, sentIndices, List.count_flatMap, List.count_flatMap, ← List.sum_map_add]
    rfl
  have := h.balance i
  omega

theorem Owned.sentChunks_eq (h : Owned file lost s) :
    s.sentChunks = s.sentIndices.length := by
  rw [h.sent, sentIndices, List.length_flatMap]

/-- The indices sent are different, and below `totalChunks`. -/
theorem Owned.sentIndices_nodup (h : Owned file lost s) :
    s.sentIndices.Nodup ∧ ∀ i ∈ s.sentIndices, i < Web.totalChunks file := by
  constructor
  · rw [List.nodup_iff_count]
    intro i
    have hcount := h.count i
    rw [Engine.claimed] at hcount
    split_ifs at hcount <;> omega
  · intro i hi
    have hcount := h.count i
    have hpos := List.count_pos_iff.mpr hi
    have hle := h.next_le
    rw [h.total] at hle
    rw [Engine.claimed] at hcount
    split_ifs at hcount <;> omega

theorem Owned.sentChunks_le (h : Owned file lost s) :
    s.sentChunks ≤ Web.totalChunks file := by
  obtain ⟨hnodup, hlt⟩ := h.sentIndices_nodup
  have hsub : s.sentIndices ⊆ List.range (Web.totalChunks file) :=
    fun i hi => List.mem_range.mpr (hlt i hi)
  have hlen := (hnodup.subperm hsub).length_le
  rwa [List.length_range, ← h.sentChunks_eq] at hlen

/-- Once the completion block has run, every chunk has been sent. -/
theorem Owned.all_sent (h : Owned file lost s)
    (hfired : s.completeFired = true) : ∀ i < Web.totalChunks file, i ∈ s.sentIndices := by
  obtain ⟨hnodup, hlt⟩ := h.sentIndices_nodup
  have hle := h.fired hfired
  have hle' := h.sentChunks_le
  rw [h.total] at hle
  exact Tally.mem_of_nodup_of_length hnodup hlt (by rw [← h.sentChunks_eq]; omega)

end Counts

/-- **Chunk ownership**: in every state that the sender can reach while its file
reads succeed, however its transports open, close and throw. -/
theorem chunks_owned (cfg : Config) (file : File) (s : Sender)
    (h : Runs.ReachWhen (step cfg file) ReadsSucceed (start cfg file) s) :
    ChunksOwned file s := by
  have hown := owned_of_readsSucceed h
  have hle := hown.next_le
  rw [hown.total] at hle
  have hblocks : 0 < s.completionBlocks → s.completeFired = true := by
    intro hpos
    have := hown.completions
    rw [completionBlocks] at hpos
    cases hf : s.completeFired with
    | false => simp_all
    | true => rfl
  refine ⟨?_, ?_, hown.sentChunks_eq, hown.sentChunks_le, ?_, ?_, ?_⟩
  · intro i hi
    have hcount := hown.count i
    rw [Engine.claimed, List.count_nil] at hcount
    split_ifs at hcount ⊢ <;> omega
  · intro i hi
    have hcount := hown.count i
    rw [Engine.claimed, if_neg (show ¬ i < s.nextChunkIndex by omega)] at hcount
    refine ⟨?_, ?_, ?_⟩ <;> exact fun hmem => by
      have := List.count_pos_iff.mpr hmem
      omega
  · rw [hown.bytes, sentIndices, payloadSize, List.map_flatMap, List.flatMap_def, List.sum_flatten,
      List.map_map]
    rfl
  · have := hown.completions
    have := Bool.toNat_le s.completeFired
    rw [completionBlocks]
    omega
  · exact fun hpos => hown.all_sent (hblocks hpos)

/-- The source's numbers of transports, with a file-info text of 90 bytes. -/
def sampleConfig : Config := { infoLength := fun _ => 90 }

/-- Relay 0 closes while its pump reads the chunk; relay 1 sends it. -/
def requeuedRun : List Action :=
  [.onopen 0, .onclose 0, .pump 0 (.read true), .pump 0 (.send false), .onopen 1,
    .pump 1 (.read true), .pump 1 (.send false)]

theorem chunks_owned_requeued :
    ∃ s, Runs.run (step sampleConfig oneByteFile) (start sampleConfig oneByteFile) requeuedRun
      = some s ∧ s.sentIndices = [0] ∧ ChunksOwned oneByteFile s := by
  exact ⟨_, rfl, by decide, chunks_owned sampleConfig oneByteFile _
    (Runs.reachWhen_of_run requeuedRun rfl (by decide))⟩

end Sender

end FastTransfer.Web
