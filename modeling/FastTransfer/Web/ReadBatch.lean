import FastTransfer.Web.ReceiverInvariant
import FastTransfer.Web.SenderChunks

/-!
# The reads of a batch

`_readBatch` read by read. It takes its indices before the first of its reads,
one for each retried index and one for the contiguous rest; any of them may be
rejected. When all succeed, the frames are those of the indices taken, whichever
read they were cut from; when one is rejected, nobody has the indices any more.
-/

namespace FastTransfer.Web

open Tiling

/-- How many reads the batch of a claim takes. -/
def Claim.reads (c : Claim) : Nat := c.retryIdx.length + if 0 < c.count then 1 else 0

/-- The per-index reads, from the `n`-th read on; `resolves` says which reads do
not reject. -/
def readEach (file : File) (resolves : Nat → Bool) : Nat → List Nat → Option (List Entry)
  | _, [] => some []
  | n, chunkIdx :: rest =>
      if resolves n then (readEach file resolves (n + 1) rest).map (readChunk file chunkIdx :: ·)
      else none

/-- `_readBatch` from its first read on; `none` if it throws. -/
def Engine.awaitBatch (e : Engine) (c : Claim) (resolves : Nat → Bool) : Option (List Entry) := do
  let batch ← readEach e.file resolves 0 c.retryIdx
  if 0 < c.count then
    if resolves c.retryIdx.length then some (batch ++ readBulk e.file c.startIdx c.count) else none
  else some batch

/-- A pump after its `await this._readBatch()`. -/
def finishReads (e : Engine) (tr : Transport) (claim : Claim) (resolves : Nat → Bool) :
    Engine × Transport :=
  match e.awaitBatch claim resolves with
  | some [] => (e, { tr with pump := .ended })
  | some batch => (e, { tr with pump := .sending batch })
  | none => (e, { tr with pump := .ended })

section Reads

variable (e : Engine) (tr : Transport) (c : Claim) (resolves : Nat → Bool)

theorem readEach_eq (file : File) (n : Nat) (is : List Nat) :
    readEach file resolves n is =
      if ∀ k < is.length, resolves (n + k) = true then some (is.map (readChunk file))
      else none := by
  induction is generalizing n with
  | nil => simp [readEach]
  | cons i is ih =>
      have hsplit : (∀ k < (i :: is).length, resolves (n + k) = true) ↔
          resolves n = true ∧ ∀ k < is.length, resolves (n + 1 + k) = true := by
        constructor
        · intro h
          refine ⟨h 0 (Nat.succ_pos _), fun k hk => ?_⟩
          rw [(show n + 1 + k = n + (k + 1) by omega)]
          exact h (k + 1) (Nat.succ_lt_succ hk)
        · rintro ⟨hfirst, hrest⟩ k hk
          cases k with
          | zero => exact hfirst
          | succ k =>
              rw [(show n + (k + 1) = n + 1 + k by omega)]
              exact hrest k (Nat.lt_of_succ_lt_succ hk)
      rw [readEach, ih]
      by_cases hfirst : resolves n = true
      · by_cases hrest : ∀ k < is.length, resolves (n + 1 + k) = true
        · rw [if_pos hfirst, if_pos hrest, if_pos (hsplit.mpr ⟨hfirst, hrest⟩)]
          rfl
        · rw [if_pos hfirst, if_neg hrest, if_neg fun h => hrest (hsplit.mp h).2]
          rfl
      · rw [if_neg hfirst, if_neg fun h => hfirst (hsplit.mp h).1]

/-- The batch, if all its reads succeed. -/
theorem awaitBatch_eq :
    e.awaitBatch c resolves =
      if ∀ n < c.reads, resolves n = true then some (e.readBatch c) else none := by
  have heach := readEach_eq resolves e.file 0 c.retryIdx
  simp only [Nat.zero_add] at heach
  rw [Engine.awaitBatch, heach]
  by_cases hcount : 0 < c.count
  · have hsplit : (∀ n < c.reads, resolves n = true) ↔
        (∀ n < c.retryIdx.length, resolves n = true) ∧ resolves c.retryIdx.length = true := by
      rw [Claim.reads, if_pos hcount]
      constructor
      · intro h
        exact ⟨fun n hn => h n (by omega), h _ (by omega)⟩
      · rintro ⟨hretry, hbulk⟩ n hn
        rcases Nat.lt_succ_iff_lt_or_eq.mp hn with hn | rfl
        · exact hretry n hn
        · exact hbulk
    by_cases hretry : ∀ n < c.retryIdx.length, resolves n = true
    · by_cases hbulk : resolves c.retryIdx.length = true
      · rw [if_pos hretry, if_pos (hsplit.mpr ⟨hretry, hbulk⟩)]
        simp [hcount, hbulk, Engine.readBatch]
      · rw [if_pos hretry, if_neg fun h => hbulk (hsplit.mp h).2]
        simp [hcount, hbulk]
    · rw [if_neg hretry, if_neg fun h => hretry (hsplit.mp h).1]
      rfl
  · have hzero : c.count = 0 := by omega
    have hreads : c.reads = c.retryIdx.length := by
      rw [Claim.reads, if_neg hcount, Nat.add_zero]
    rw [hreads]
    split_ifs
    · simp [hzero, Engine.readBatch, readBulk]
    · rfl

/-- The pump sees whether all reads have succeeded, and no more. -/
theorem finishReads_eq :
    finishReads e tr c resolves =
      finishRead e tr c (decide (∀ n < c.reads, resolves n = true)) := by
  rw [finishReads, awaitBatch_eq, finishRead]
  by_cases hall : ∀ n < c.reads, resolves n = true
  · rw [if_pos hall, decide_eq_true hall, if_pos rfl]
    cases e.readBatch c with
    | nil => simp
    | cons b rest => simp
  · rw [if_neg hall, decide_eq_false hall, if_neg Bool.false_ne_true]

end Reads

/-! ## The frames of a batch -/

/-- The frame of an index of the file: four bytes of the index and its part of
the file, as `_handleChunk` decodes it. -/
structure FrameOf (file : File) (b : Entry) : Prop where
  index_lt : b.index < totalChunks file
  data : b.data = BigEndian.toBytes 4 b.index ++ slice file.bytes (b.index * chunkPayloadSize)
    (min ((b.index + 1) * chunkPayloadSize) file.size)
  size : b.size = (slice file.bytes (b.index * chunkPayloadSize)
    (min ((b.index + 1) * chunkPayloadSize) file.size)).length
  bounds : 1 ≤ b.size ∧ b.size ≤ chunkPayloadSize
  decoded : arrival b.data = (b.index, slice file.bytes (b.index * chunkPayloadSize)
    (min ((b.index + 1) * chunkPayloadSize) file.size))

theorem payload_eq (file : File) (i : Nat) :
    payload file i =
      slice file.bytes (i * chunkPayloadSize) (min ((i + 1) * chunkPayloadSize) file.size) := by
  rw [payload, block, File.size, slice_min_length, Nat.succ_mul]

theorem frameOf_readChunk {file : File} {i : Nat} (hi : i < totalChunks file)
    (hsize : totalChunks file ≤ 2 ^ 32) : FrameOf file (readChunk file i) := by
  have hdata := readChunk_data file i
  have hlen := readChunk_size file i
  obtain ⟨hindex, hpayload⟩ := decode_readChunk file i
  have hpos : 0 < (payload file i).length := block_length_pos chunkPayloadSize_pos hi
  have hle : (payload file i).length ≤ chunkPayloadSize := by
    rw [payload, length_block]
    exact Nat.min_le_left _ _
  rw [Nat.mod_eq_of_lt (hi.trans_le hsize)] at hindex
  refine ⟨hi, ?_, ?_, hlen ▸ ⟨hpos, hle⟩, ?_⟩
  · rw [hdata, payload_eq]
    rfl
  · rw [hlen, payload_eq]
    rfl
  · rw [arrival, hindex, hpayload, payload_eq]
    rfl

/-- What a claim takes: the oldest indices to be sent again, and the next ones
of the file. -/
theorem claimBatch_indices (e : Engine) :
    e.claimBatch.1.indices = e.retryIndices.take batchSize ++
      List.range' e.nextChunkIndex (min (batchSize - (e.retryIndices.take batchSize).length)
        (e.totalChunks - e.nextChunkIndex)) := rfl

/-- **The frames of a batch**, from both kinds of reads, and what they tile. -/
theorem frames_tile (e : Engine) (htotal : e.totalChunks = totalChunks e.file)
    (hretry : ∀ i ∈ e.retryIndices, i < e.nextChunkIndex) (hnext : e.nextChunkIndex ≤ e.totalChunks)
    (hsize : e.totalChunks ≤ 2 ^ 32) :
    let claim := e.claimBatch.1
    let batch := e.claimBatch.2.readBatch claim
    (∀ resolves : Nat → Bool, (∀ n < claim.reads, resolves n = true) →
      e.claimBatch.2.awaitBatch claim resolves = some batch) ∧
    batch.map (·.index) = e.retryIndices.take batchSize ++
      List.range' e.nextChunkIndex (min (batchSize - (e.retryIndices.take batchSize).length)
        (e.totalChunks - e.nextChunkIndex)) ∧
    batch.length ≤ batchSize ∧ (∀ b ∈ batch, FrameOf e.file b) ∧
    (∀ start count, start + count ≤ e.totalChunks →
      (readBulk e.file start count).map (·.index) = List.range' start count ∧
        ∀ b ∈ readBulk e.file start count, FrameOf e.file b) ∧
    (List.range e.totalChunks).flatMap (fun i => (arrival (readChunk e.file i).data).2) =
      e.file.bytes := by
  intro claim batch
  have hbatch : batch = claim.indices.map (readChunk e.file) := readBatch_eq e.claimBatch.2 claim
  have hindices : batch.map (·.index) = claim.indices := by
    simp [hbatch, Function.comp_def]
  have hframe : ∀ i < e.totalChunks, FrameOf e.file (readChunk e.file i) := by
    intro i hi
    rw [htotal] at hi hsize
    exact frameOf_readChunk hi hsize
  refine ⟨fun resolves hall => ?_, hindices.trans (claimBatch_indices e), ?_, fun b hb => ?_,
    fun start count hle => ⟨?_, fun b hb => ?_⟩, ?_⟩
  · rw [awaitBatch_eq, if_pos hall]
  · have hlen := congrArg List.length (hindices.trans (claimBatch_indices e))
    rw [List.length_map, List.length_append, List.length_range'] at hlen
    have hle := List.length_take_le batchSize e.retryIndices
    omega
  · rw [hbatch] at hb
    obtain ⟨i, hi, rfl⟩ := List.mem_map.mp hb
    apply hframe
    rcases List.mem_append.mp hi with hi | hi
    · exact (hretry i (List.mem_of_mem_take hi)).trans_le hnext
    · have hlt := (List.mem_range'_1.mp hi).2
      have hcount : claim.count ≤ e.totalChunks - e.nextChunkIndex := Nat.min_le_right _ _
      have hstart : claim.startIdx = e.nextChunkIndex := rfl
      omega
  · rw [readBulk_eq, List.map_map, List.range'_eq_map_range]
    rfl
  · rw [readBulk_eq] at hb
    obtain ⟨i, hi, rfl⟩ := List.mem_map.mp hb
    have hlt := List.mem_range.mp hi
    exact hframe _ (by omega)
  · rw [htotal, ← flatMap_payload e.file]
    congr 1
    funext i
    exact (decode_readChunk e.file i).2

/-- An engine whose only chunk is to be sent again. -/
def retryEngine : Engine where
  file := ⟨"a.txt", "text/plain", [1, 2, 3]⟩
  totalChunks := 1
  nextChunkIndex := 1
  retryIndices := [0]

theorem frames_tile_retry :
    (retryEngine.claimBatch.2.readBatch retryEngine.claimBatch.1).map (·.index) = [0] ∧
      ∀ b ∈ retryEngine.claimBatch.2.readBatch retryEngine.claimBatch.1,
        FrameOf retryEngine.file b := by
  obtain ⟨-, hindices, -, hframes, -⟩ := frames_tile retryEngine (by decide) (by decide)
    (by decide) (by decide)
  exact ⟨hindices, hframes⟩

/-! ## A read that fails -/

namespace Sender

/-- How many pumps could still take an index: it is in `retryIndices`, or not
claimed yet. -/
def available (s : Sender) (i : Nat) : Nat :=
  s.retryIndices.count i + if s.nextChunkIndex ≤ i ∧ i < s.totalChunks then 1 else 0

/-- Whatever a claim took is there again, once. -/
def Restored (claim : Claim) (s : Sender) : Prop := ∀ i ∈ claim.indices, s.available i = 1

/-- What has been lost is available no more. -/
theorem Owned.available_eq_zero {file : File} {lost : List Nat} {s : Sender}
    (h : Owned file lost s) {i : Nat} (hi : i ∈ lost) : s.available i = 0 := by
  have hcount := h.count i
  have hpos := List.count_pos_iff.mpr hi
  rw [Engine.claimed] at hcount
  rw [available]
  split_ifs at hcount ⊢ <;> omega

theorem indices_ne_nil {claim : Claim} {n : Nat} (hn : n < claim.reads) : claim.indices ≠ [] := by
  intro hnil
  obtain ⟨hretry, hrange⟩ := List.append_eq_nil_iff.mp hnil
  have hcount := List.range'_eq_nil_iff.mp hrange
  simp [Claim.reads, hretry, hcount] at hn

/-- **A failed read loses the whole batch**: whenever a read of a batch is
rejected, the pump ends, and from then on no pump can take any of its indices. -/
theorem failed_read_loses (cfg : Config) (file : File) (s : Sender)
    (h : Runs.Reach (step cfg file) (start cfg file) s) (t : Nat) (tr : Transport) (claim : Claim)
    (ht : s.transports[t]? = some tr) (hpump : tr.pump = .reading claim) (resolves : Nat → Bool)
    (n : Nat) (hn : n < claim.reads) (hrejects : resolves n = false) :
    let x := finishReads s.toEngine tr claim resolves
    x.2.pump = .ended ∧ step cfg file s (.pump t (.read false)) = some (s.put t x) ∧
      ∀ u, Runs.Reach (step cfg file) (s.put t x) u →
        (∀ i ∈ claim.indices, u.available i = 0) ∧ ¬ Restored claim u := by
  intro x
  have hx : x = finishRead s.toEngine tr claim false := by
    show finishReads s.toEngine tr claim resolves = _
    rw [finishReads_eq, decide_eq_false fun hall =>
      Bool.false_ne_true (hrejects.symm.trans (hall n hn))]
  have hstep : step cfg file s (.pump t (.read false)) = some (s.put t x) := by
    rw [hx]
    exact step_iff.mpr (.pump ht (.read false hpump))
  refine ⟨by rw [hx]; rfl, hstep, fun u hu => ?_⟩
  obtain ⟨lost, hlost⟩ : ∃ lost, Owned file lost s := by
    apply h.invariant ⟨[], owned_start cfg file⟩
    rintro v a w ⟨lost, hv⟩ hs
    exact ⟨_, hv.step (step_iff.mp hs)⟩
  -- the claim is lost by this step, and stays so
  have hlater : ∃ lost, Owned file (lost ++ claim.indices) (s.put t x) := by
    have hnext := hlost.step (step_iff.mp hstep)
    have hdrops : s.lostBy (.pump t (.read false)) = claim.indices := by
      simp [lostBy, ht, Transport.lostBy, hpump]
    exact ⟨lost, hdrops ▸ hnext⟩
  obtain ⟨lost', hsub, hown⟩ : ∃ lost, claim.indices ⊆ lost ∧ Owned file lost u := by
    apply hu.invariant (I := fun u => ∃ lost, claim.indices ⊆ lost ∧ Owned file lost u)
    · obtain ⟨lost', hlost'⟩ := hlater
      exact ⟨_, List.subset_append_right _ _, hlost'⟩
    · rintro v a w ⟨lost, hsub, hv⟩ hs
      exact ⟨_, fun i hi => List.mem_append_left _ (hsub hi), hv.step (step_iff.mp hs)⟩
  have hnone : ∀ i ∈ claim.indices, u.available i = 0 := fun i hi =>
    hown.available_eq_zero (hsub hi)
  refine ⟨hnone, fun hrestored => ?_⟩
  obtain ⟨i, hi⟩ := List.exists_mem_of_ne_nil _ (indices_ne_nil hn)
  have := hrestored i hi
  have := hnone i hi
  omega

/-- The only relay reads the only chunk. -/
def claimedRun : List Action := [.onopen 0]

theorem failed_read_loses_claimed :
    ∃ s tr, Runs.run (step sampleConfig oneByteFile) (start sampleConfig oneByteFile) claimedRun
      = some s ∧ s.transports[0]? = some tr ∧ tr.pump = .reading ⟨[], 0, 1⟩ ∧
      ¬ Restored ⟨[], 0, 1⟩ (s.put 0 (finishReads s.toEngine tr ⟨[], 0, 1⟩ fun _ => false)) := by
  refine ⟨_, _, rfl, rfl, rfl, ?_⟩
  exact ((failed_read_loses sampleConfig oneByteFile _ (Runs.reach_of_run claimedRun rfl) 0 _
    ⟨[], 0, 1⟩ rfl rfl (fun _ => false) 0 (by decide) rfl).2.2 _ (Runs.ReachWhen.refl _)).2

/-- Chunk 0 is claimed, its read is rejected, and no pump can take it again. -/
theorem not_restored_failedRead :
    ¬ ∀ (cfg : Config) (file : File) (s : Sender),
      Runs.Reach (step cfg file) (start cfg file) s →
      ∀ (t : Nat) (tr : Transport) (claim : Claim), s.transports[t]? = some tr →
        tr.pump = .reading claim → ∀ (resolves : Nat → Bool) (n : Nat), n < claim.reads →
          resolves n = false →
            Restored claim (s.put t (finishReads s.toEngine tr claim resolves)) := by
  intro h
  have hrestored := h sampleConfig oneByteFile _ (Runs.reach_of_run claimedRun rfl) 0 _
    ⟨[], 0, 1⟩ rfl rfl (fun _ => false) 0 (by decide) rfl
  exact absurd (hrestored 0 (by decide)) (by decide)

end Sender

end FastTransfer.Web
