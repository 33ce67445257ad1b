import FastTransfer.Web.ReceiverInvariant

/-!
# Runs of the receiver

What holds after any sequence of frames. First with a downloader that is
there from the start; then with the file-info message anywhere among the
frames, where whatever is written before it is lost.
-/

namespace FastTransfer.Web

open Reassembly

namespace Receiver

/-! ## With a downloader from the start -/

/-- The receiver right after the file-info: the downloader is there. -/
def ready (info : FileInfo) : Receiver := ({} : Receiver).onFileInfoReceived info

/-- The first payload received for an index. -/
def firstPayload (frames : List Bytes) (i : Nat) : Option Bytes :=
  (frames.map arrival).lookup i

/-- The chunks that `_handleChunk` accepts along a sequence of frames: those
that are not dropped by the dedup test. -/
def acceptedChunks : Receiver → List Bytes → List (Nat × Bytes)
  | _, [] => []
  | r, data :: frames =>
      (if r.isDuplicate (getUint32 data) then [] else [arrival data])
        ++ acceptedChunks (r.handleChunk data) frames

theorem acceptedChunks_snoc (r : Receiver) (frames : List Bytes) (data : Bytes) :
    acceptedChunks r (frames ++ [data]) = acceptedChunks r frames
      ++ if (r.handleChunks frames).isDuplicate (getUint32 data) then [] else [arrival data] := by
  induction frames generalizing r with
  | nil => exact List.append_nil _
  | cons d frames ih =>
      rw [List.cons_append, acceptedChunks, ih, acceptedChunks, List.append_assoc]
      rfl

/-- **The run of the receiver**: it stays in order with all frames given, as
long as the count reaches `totalChunks` only on indices below it. -/
theorem handleChunks_receiving {log : List (Nat × Bytes)} {k : Nat} {r₀ : Receiver}
    (h : Receiving log k r₀) {frames : List Bytes} (h4 : ∀ d ∈ frames, 4 ≤ d.length)
    (hover : ∀ q d, q ++ [d] <+: frames →
      (firsts (log ++ (q ++ [d]).map arrival)).length = r₀.totalChunks →
      ∀ e ∈ log ++ (q ++ [d]).map arrival, e.1 < r₀.totalChunks) :
    Receiving (log ++ frames.map arrival) k (r₀.handleChunks frames) ∧
      (r₀.handleChunks frames).fileInfo = r₀.fileInfo ∧
      (r₀.handleChunks frames).totalChunks = r₀.totalChunks ∧
      (r₀.handleChunks frames).downloadersCreated = r₀.downloadersCreated ∧
      (r₀.handleChunks frames).downloader.isSome = r₀.downloader.isSome := by
  induction frames using List.reverseRecOn with
  | nil => exact ⟨by simpa [handleChunks] using h, rfl, rfl, rfl, rfl⟩
  | append_singleton frames data ih =>
      obtain ⟨hr, hinfo, htotal, hcreated, hsome⟩ := ih
        (fun d hd => h4 d (List.mem_append_left _ hd))
        (fun q d hq => hover q d (hq.trans (List.prefix_append _ _)))
      have hdata : 4 ≤ data.length := h4 data (by simp)
      obtain ⟨f1, f2, f3, f4⟩ := handleChunk_frame hr hdata
      have hlast := hover frames data List.prefix_rfl
      rw [List.map_append, List.map_singleton, ← List.append_assoc, ← htotal] at hlast
      rw [handleChunks_snoc, List.map_append, List.map_singleton, ← List.append_assoc,
        f1, f2, f3, f4]
      exact ⟨handleChunk_receiving hr hdata hlast, hinfo, htotal, hcreated, hsome⟩

/-- When all indices are below `totalChunks`, completion goes with the write index. -/
theorem handleChunks_finishing {log : List (Nat × Bytes)} {k : Nat} {r₀ : Receiver}
    (h : Receiving log k r₀) (hf : Finishing r₀) (hinfo : r₀.fileInfo.isSome)
    {frames : List Bytes} (h4 : ∀ d ∈ frames, 4 ≤ d.length)
    (hlt : ∀ e ∈ log ++ frames.map arrival, e.1 < r₀.totalChunks) :
    Finishing (r₀.handleChunks frames) := by
  induction frames using List.reverseRecOn with
  | nil => exact hf
  | append_singleton frames data ih =>
      rw [List.map_append, List.map_singleton, ← List.append_assoc] at hlt
      have hlt' : ∀ e ∈ log ++ frames.map arrival, e.1 < r₀.totalChunks :=
        fun e he => hlt e (List.mem_append_left _ he)
      have h4' : ∀ d ∈ frames, 4 ≤ d.length := fun d hd => h4 d (List.mem_append_left _ hd)
      obtain ⟨hr, hinfo', htotal, -, -⟩ := handleChunks_receiving h h4'
        (fun q d hq _ e he => hlt' e
          ((List.append_sublist_append_left _).mpr (hq.sublist.map arrival) |>.subset he))
      rw [handleChunks_snoc]
      exact handleChunk_finishing hr (ih h4' hlt') (by rw [hinfo']; exact hinfo)
        (h4 data (by simp)) (by rw [htotal]; exact hlt)

theorem ready_receiving (info : FileInfo) : Receiving [] 0 (ready info) where
  order := ⟨[], InOrder.empty, by simp [ready, onFileInfoReceived, writes]⟩
  created := Nat.zero_le _
  received := rfl
  bytes := rfl

theorem ready_finishing {info : FileInfo} (h : 1 ≤ info.totalChunks) :
    Finishing (ready info) where
  runs := (if_neg (show ¬ 0 = info.totalChunks by omega)).symm
  completions := rfl
  closes := by simp [ready, onFileInfoReceived, Web.closes]

/-- The frames never complete the count with an index that the file does not
have: whenever `total` different indices have been received, all of them are
below `total`. -/
def NoOverrun (total : Nat) (frames : List Bytes) : Prop :=
  ∀ q, q <+: frames → (firsts (q.map arrival)).length = total → ∀ d ∈ q, getUint32 d < total

theorem NoOverrun.of_lt {total : Nat} {frames : List Bytes}
    (h : ∀ d ∈ frames, getUint32 d < total) : NoOverrun total frames :=
  fun _ hq _ d hd => h d (hq.subset hd)

theorem ready_handleChunks {info : FileInfo} {frames : List Bytes}
    (h4 : ∀ d ∈ frames, 4 ≤ d.length) (hover : NoOverrun info.totalChunks frames) :
    Receiving (frames.map arrival) 0 ((ready info).handleChunks frames) ∧
      ((ready info).handleChunks frames).downloader.isSome ∧
      ((ready info).handleChunks frames).totalChunks = info.totalChunks := by
  obtain ⟨hr, -, htotal, -, hsome⟩ := handleChunks_receiving (ready_receiving info) h4
    (fun q d hq hlen e he => by
      rw [List.nil_append] at hlen he
      obtain ⟨d', hd', rfl⟩ := List.mem_map.mp he
      exact hover _ hq hlen d' hd')
  exact ⟨by simpa using hr, hsome, htotal⟩

/-- The accepted chunks are the first arrivals. -/
theorem acceptedChunks_eq {info : FileInfo} {frames : List Bytes}
    (h4 : ∀ d ∈ frames, 4 ≤ d.length) (hover : NoOverrun info.totalChunks frames) :
    acceptedChunks (ready info) frames = firsts (frames.map arrival) := by
  induction frames using List.reverseRecOn with
  | nil => rfl
  | append_singleton frames data ih =>
      have h4' : ∀ d ∈ frames, 4 ≤ d.length := fun d hd => h4 d (List.mem_append_left _ hd)
      have hover' : NoOverrun info.totalChunks frames :=
        fun q hq => hover q (hq.trans (List.prefix_append _ _))
      obtain ⟨out, hin, -⟩ := (ready_handleChunks h4' hover').1.order
      rw [acceptedChunks_snoc, ih h4' hover', List.map_append, List.map_singleton, firsts_snoc,
        isDuplicate_iff _ hin, arrival_fst]
      split <;> simp

/-- What the receiver has done with a sequence of frames: the writes are the
first payloads of the indices below the write index, in order; the pending
chunks are first payloads above it; the accepted indices are those two kinds,
counted and summed up. -/
structure Reassembles (info : FileInfo) (frames : List Bytes) : Prop where
  writes : ∃ calls, ((ready info).handleChunks frames).downloader = some calls ∧
    (writes calls).map some =
      (List.range ((ready info).handleChunks frames).nextWriteIndex).map (firstPayload frames)
  pending : ∀ i p, ((ready info).handleChunks frames).pendingChunks.lookup i = some p →
    ((ready info).handleChunks frames).nextWriteIndex < i ∧ firstPayload frames i = some p
  accepted : ∀ i, i ∈ (acceptedChunks (ready info) frames).map Prod.fst ↔
    i < ((ready info).handleChunks frames).nextWriteIndex ∨
      i ∈ ((ready info).handleChunks frames).pendingChunks
  acceptedOnce : ((acceptedChunks (ready info) frames).map Prod.fst).Nodup
  received : ((ready info).handleChunks frames).receivedChunks =
    (acceptedChunks (ready info) frames).length
  bytes : ((ready info).handleChunks frames).bytesTransferred =
    ((acceptedChunks (ready info) frames).map (·.2.length)).sum

theorem reassembles_of_noOverrun {info : FileInfo} {frames : List Bytes}
    (h4 : ∀ d ∈ frames, 4 ≤ d.length) (hover : NoOverrun info.totalChunks frames) :
    Reassembles info frames := by
  obtain ⟨hr, hsome, -⟩ := ready_handleChunks h4 hover
  obtain ⟨out, hin, hwrites⟩ := hr.order
  obtain ⟨calls, hcalls⟩ := Option.isSome_iff_exists.mp hsome
  have hacc := acceptedChunks_eq h4 hover
  refine ⟨⟨calls, hcalls, ?_⟩, fun i p hp => hin.lt_of_pending hp, fun i => ?_, ?_, ?_, ?_⟩
  · rw [hwrites calls hcalls, List.drop_zero]
    exact hin.out_eq
  · rw [hacc, mem_firsts_fst, hin.arrived_iff, ← AList.lookup_isSome, Option.isSome_iff_ne_none]
  · rw [hacc]
    exact nodup_firsts _
  · rw [hacc, hr.received]
  · rw [hacc, hr.bytes]

/-- **Reassembly.** After every sequence of frames that does not complete the
count with an index outside the file, the receiver has reassembled it. When
all indices are below `totalChunks`, `_finishDownload` has run once if the
write index is `totalChunks` and nothing is pending, and not at all otherwise. -/
theorem receiver_reassembles (info : FileInfo) (frames : List Bytes)
    (h4 : ∀ d ∈ frames, 4 ≤ d.length) :
    (NoOverrun info.totalChunks frames → Reassembles info frames) ∧
      (1 ≤ info.totalChunks → (∀ d ∈ frames, getUint32 d < info.totalChunks) →
        Reassembles info frames ∧
        ((ready info).handleChunks frames).finishRuns ≤ 1 ∧
        (((ready info).handleChunks frames).finishRuns = 1 ↔
          ((ready info).handleChunks frames).nextWriteIndex = info.totalChunks ∧
          ((ready info).handleChunks frames).pendingChunks.keys = [])) := by
  refine ⟨reassembles_of_noOverrun h4, fun hpos hlt => ?_⟩
  have hover := NoOverrun.of_lt hlt
  obtain ⟨hr, -, htotal⟩ := ready_handleChunks h4 hover
  have hlog : ∀ e ∈ frames.map arrival, e.1 < info.totalChunks := by
    intro e he
    obtain ⟨d, hd, rfl⟩ := List.mem_map.mp he
    exact hlt d hd
  have hfin := handleChunks_finishing (ready_receiving info) (ready_finishing hpos) rfl h4
    (by simpa [ready, onFileInfoReceived] using hlog)
  have hruns := hfin.runs
  rw [htotal] at hruns
  obtain ⟨out, hin, -⟩ := hr.order
  refine ⟨reassembles_of_noOverrun h4 hover, ?_, ?_, ?_⟩
  · rw [hruns]
    split <;> omega
  · intro hone
    have hnext : ((ready info).handleChunks frames).nextWriteIndex = info.totalChunks := by
      by_contra hne
      rw [if_neg hne] at hruns
      omega
    refine ⟨hnext, List.eq_nil_iff_forall_not_mem.mpr fun i hi => ?_⟩
    have hnone := hin.pending_none (fun j hj => hnext ▸ lt_of_lookup hlog hj) i
    exact AList.lookup_eq_none.mp hnone (AList.mem_keys.mpr hi)
  · rintro ⟨hnext, -⟩
    rw [hruns, if_pos hnext]

/-- Four frames, out of order and with a repetition. -/
theorem receiver_reassembles_three :
    let info : FileInfo := ⟨"a.txt", 3 * chunkSize, "text/plain", 3⟩
    let frames := [2, 0, 2, 1].map fun i => setUint32 i ++ [UInt8.ofNat i]
    Reassembles info frames ∧ ((ready info).handleChunks frames).finishRuns ≤ 1 ∧
      (((ready info).handleChunks frames).finishRuns = 1 ↔
        ((ready info).handleChunks frames).nextWriteIndex = info.totalChunks ∧
        ((ready info).handleChunks frames).pendingChunks.keys = []) :=
  (receiver_reassembles _ _ (by decide)).2 (by decide) (by decide)

/-- A file of two chunks, and frames 0 and 5: the count is complete with the
second, `_finishDownload` clears the pending chunks, and index 5 is accepted
but neither written nor pending. -/
theorem not_reassembles_overrun :
    ¬ ∀ (info : FileInfo) (frames : List Bytes), (∀ d ∈ frames, 4 ≤ d.length) →
      Reassembles info frames := by
  intro h
  have hacc := (h ⟨"a.txt", 2 * chunkSize, "text/plain", 2⟩
    [setUint32 0 ++ [7], setUint32 5 ++ [8]] (by decide)).accepted 5
  rw [← AList.lookup_isSome] at hacc
  exact absurd (hacc.mp (by decide)) (by decide)

/-! ## With the file-info anywhere among the frames -/

/-- What arrives of the transfer of a file, from any of its streams. -/
inductive Incoming where
  | fileInfo
  | chunk (i : Nat)
  deriving DecidableEq

/-- The message itself. -/
def Incoming.message (file : File) : Incoming → Message
  | .fileInfo => .fileInfo (Web.fileInfo file)
  | .chunk i => .chunk (readChunk file i).data

/-- The chunk frames among what arrives. -/
def chunkFrames (file : File) (evs : List Incoming) : List Bytes :=
  evs.filterMap fun
    | .fileInfo => none
    | .chunk i => some (readChunk file i).data

/-- A fresh receiver after everything in `evs` has arrived. -/
def receive (file : File) (evs : List Incoming) : Receiver :=
  (evs.map (Incoming.message file)).foldl onmessage {}

/-- The file has been delivered: one downloader, every chunk written to it in
order, `onComplete` called once. -/
structure Delivered (file : File) (r : Receiver) : Prop where
  created : r.downloadersCreated = 1
  writes : ∃ calls, r.downloader = some calls ∧
    writes calls = (List.range (Web.totalChunks file)).map (payload file)
  completed : r.completions.length = 1

theorem arrival_readChunk (file : File) (i : Nat) :
    arrival (readChunk file i).data = (i % 2 ^ 32, payload file i) := by
  obtain ⟨h1, h2⟩ := decode_readChunk file i
  rw [arrival, h1, h2]

theorem four_le_readChunk (file : File) (i : Nat) : 4 ≤ (readChunk file i).data.length := by
  simp [readChunk, setUint32]

/-- The decoded frames: wire indices with payloads of the file. -/
theorem mem_arrivals {file : File} {evs : List Incoming} {e : Nat × Bytes} :
    e ∈ (chunkFrames file evs).map arrival ↔
      ∃ i, .chunk i ∈ evs ∧ e = (i % 2 ^ 32, payload file i) := by
  simp only [chunkFrames, List.mem_map, List.mem_filterMap]
  constructor
  · rintro ⟨d, ⟨ev, hev, hd⟩, rfl⟩
    cases ev with
    | fileInfo => cases hd
    | chunk i =>
        cases hd
        exact ⟨i, hev, arrival_readChunk file i⟩
  · rintro ⟨i, hi, rfl⟩
    exact ⟨_, ⟨.chunk i, hi, rfl⟩, arrival_readChunk file i⟩

theorem four_le_chunkFrames (file : File) (evs : List Incoming) :
    ∀ d ∈ chunkFrames file evs, 4 ≤ d.length := by
  intro d hd
  obtain ⟨ev, -, hev⟩ := List.mem_filterMap.mp hd
  cases ev with
  | fileInfo => cases hev
  | chunk i =>
      cases hev
      exact four_le_readChunk file i

/-- Once there is a file-info, another one is ignored. -/
theorem foldl_onmessage_of_some (file : File) (evs : List Incoming) {r : Receiver}
    (h : r.fileInfo.isSome) :
    (evs.map (Incoming.message file)).foldl onmessage r =
      r.handleChunks (chunkFrames file evs) := by
  induction evs generalizing r with
  | nil => rfl
  | cons ev evs ih =>
      cases ev with
      | fileInfo =>
          have hnone : r.fileInfo.isNone = false := by
            cases hi : r.fileInfo <;> simp_all
          simpa [Incoming.message, onmessage, hnone, chunkFrames] using ih h
      | chunk i =>
          have h' : (r.handleChunk (readChunk file i).data).fileInfo.isSome := by
            rw [handleChunk_fileInfo]
            exact h
          simpa [Incoming.message, onmessage, chunkFrames, handleChunks] using ih h'

/-- Before the file-info only chunks are handled. -/
theorem foldl_onmessage_of_chunks (file : File) {evs : List Incoming}
    (h : .fileInfo ∉ evs) (r : Receiver) :
    (evs.map (Incoming.message file)).foldl onmessage r =
      r.handleChunks (chunkFrames file evs) := by
  induction evs generalizing r with
  | nil => rfl
  | cons ev evs ih =>
      cases ev with
      | fileInfo => exact absurd (List.mem_cons_self ..) h
      | chunk i =>
          simpa [Incoming.message, onmessage, chunkFrames, handleChunks] using
            ih (fun hm => h (List.mem_cons_of_mem _ hm)) _

theorem fresh_receiving : Receiving [] 0 ({} : Receiver) where
  order := ⟨[], InOrder.empty, by simp⟩
  created := Nat.zero_le _
  received := rfl
  bytes := rfl

/-- The receiver while the file-info is missing: in order, with nothing
finished, as `totalChunks` is still 0. -/
theorem handleChunks_before_info {frames : List Bytes} (h4 : ∀ d ∈ frames, 4 ≤ d.length) :
    Receiving (frames.map arrival) 0 (({} : Receiver).handleChunks frames) ∧
      (({} : Receiver).handleChunks frames).fileInfo = none ∧
      (({} : Receiver).handleChunks frames).totalChunks = 0 ∧
      (({} : Receiver).handleChunks frames).downloadersCreated = 0 ∧
      (({} : Receiver).handleChunks frames).finishRuns = 0 ∧
      (({} : Receiver).handleChunks frames).completions = [] := by
  induction frames using List.reverseRecOn with
  | nil => exact ⟨by simpa [handleChunks] using fresh_receiving, rfl, rfl, rfl, rfl, rfl⟩
  | append_singleton frames data ih =>
      obtain ⟨hr, hinfo, htotal, hcreated, hruns, hcompl⟩ :=
        ih fun d hd => h4 d (List.mem_append_left _ hd)
      have hdata : 4 ≤ data.length := h4 data (by simp)
      have hcount : (firsts (frames.map arrival ++ [arrival data])).length
          ≠ (({} : Receiver).handleChunks frames).totalChunks := by
        rw [htotal]
        intro hlen
        simpa using eq_nil_of_firsts hlen
      obtain ⟨f1, f2, f3, -⟩ := handleChunk_frame hr hdata
      obtain ⟨u1, u2⟩ := handleChunk_unfinished hr hdata hcount
      rw [handleChunks_snoc, List.map_append, List.map_singleton, f1, f2, f3, u1, u2]
      exact ⟨handleChunk_receiving hr hdata fun hlen => absurd hlen hcount,
        hinfo, htotal, hcreated, hruns, hcompl⟩

/-- Chunk 0 is passed on as soon as it arrives. -/
theorem nextWriteIndex_eq_zero {frames : List Bytes} (h4 : ∀ d ∈ frames, 4 ≤ d.length) :
    (({} : Receiver).handleChunks frames).nextWriteIndex = 0 ↔
      (frames.map arrival).lookup 0 = none := by
  obtain ⟨hr, -⟩ := handleChunks_before_info h4
  obtain ⟨out, hin, -⟩ := hr.order
  constructor
  · intro h0
    rw [← hin.gap, h0]
  · intro h0
    by_contra hne
    exact hin.arrived_iff.mpr (.inl (Nat.pos_of_ne_zero hne)) h0

theorem chunkFrames_append (file : File) (a b : List Incoming) :
    chunkFrames file (a ++ b) = chunkFrames file a ++ chunkFrames file b := by
  simp [chunkFrames]

/-- The receiver right after the file-info, with the chunks that came before it. -/
def told (file : File) (pre : List Incoming) : Receiver :=
  (({} : Receiver).handleChunks (chunkFrames file pre)).onFileInfoReceived (Web.fileInfo file)

/-- The downloader starts with no call, when some chunks have been passed on. -/
theorem told_receiving (file : File) (pre : List Incoming) :
    Receiving ((chunkFrames file pre).map arrival) (told file pre).nextWriteIndex
      (told file pre) := by
  obtain ⟨hr, -⟩ := handleChunks_before_info (four_le_chunkFrames file pre)
  obtain ⟨out, hin, -⟩ := hr.order
  refine ⟨⟨out, hin, ?_⟩, Nat.le_refl _, hr.received, hr.bytes⟩
  intro calls hcalls
  cases hcalls
  have hlen : (told file pre).nextWriteIndex = out.length := hin.length_out.symm
  rw [hlen, List.drop_length]
  rfl

theorem told_finishing {file : File} {pre : List Incoming}
    (hzero : (told file pre).nextWriteIndex = 0) (hpos : 0 < Web.totalChunks file) :
    Finishing (told file pre) := by
  obtain ⟨-, -, -, -, hruns, hcompl⟩ := handleChunks_before_info (four_le_chunkFrames file pre)
  refine ⟨?_, ?_, ?_⟩
  · have hpos' : 0 < (told file pre).totalChunks := hpos
    have hne : ¬ (told file pre).nextWriteIndex = (told file pre).totalChunks := by omega
    rw [if_neg hne]
    exact hruns
  · show (({} : Receiver).handleChunks (chunkFrames file pre)).completions.length = _
    rw [hcompl]
    exact hruns.symm
  · intro calls hcalls
    cases hcalls
    exact hruns.symm

/-- The first file-info splits what arrives. -/
theorem receive_info {file : File} {pre : List Incoming} (hpre : .fileInfo ∉ pre)
    (post : List Incoming) : receive file (pre ++ .fileInfo :: post) =
      (told file pre).handleChunks (chunkFrames file post) := by
  have hinfo := (handleChunks_before_info (four_le_chunkFrames file pre)).2.1
  have hstep : onmessage (({} : Receiver).handleChunks (chunkFrames file pre))
      (Incoming.message file .fileInfo) = told file pre := by
    simp [Incoming.message, onmessage, hinfo, told]
  rw [receive, List.map_append, List.foldl_append, foldl_onmessage_of_chunks file hpre,
    List.map_cons, List.foldl_cons, hstep]
  exact foldl_onmessage_of_some file post rfl

/-- Every index that arrives is one of the file. -/
theorem arrivals_append_lt {file : File} {pre post : List Incoming}
    (hlt : ∀ i, .chunk i ∈ pre ++ post → i < Web.totalChunks file) :
    ∀ e ∈ (chunkFrames file pre).map arrival ++ (chunkFrames file post).map arrival,
      e.1 < Web.totalChunks file := by
  intro e he
  rw [← List.map_append, ← chunkFrames_append] at he
  obtain ⟨i, hi, rfl⟩ := mem_arrivals.mp he
  exact Nat.lt_of_le_of_lt (Nat.mod_le _ _) (hlt i hi)

/-- The receiver after the file-info and everything around it: the downloader
misses the `k` chunks that were passed to `_writeChunk` before it existed. -/
theorem receive_spec {file : File} {pre post : List Incoming} (hpre : .fileInfo ∉ pre)
    (hlt : ∀ i, .chunk i ∈ pre ++ post → i < Web.totalChunks file) :
    ∃ k, k = (({} : Receiver).handleChunks (chunkFrames file pre)).nextWriteIndex ∧
      Receiving ((chunkFrames file (pre ++ post)).map arrival) k
        (receive file (pre ++ .fileInfo :: post)) ∧
      (receive file (pre ++ .fileInfo :: post)).totalChunks = Web.totalChunks file ∧
      (receive file (pre ++ .fileInfo :: post)).downloadersCreated = 1 ∧
      (receive file (pre ++ .fileInfo :: post)).downloader.isSome ∧
      (k = 0 → 0 < Web.totalChunks file →
        Finishing (receive file (pre ++ .fileInfo :: post))) := by
  obtain ⟨-, -, -, hcreated, -⟩ := handleChunks_before_info (four_le_chunkFrames file pre)
  have hall := arrivals_append_lt hlt
  obtain ⟨hr, -, htotal, hcr, hsome⟩ := handleChunks_receiving (told_receiving file pre)
    (four_le_chunkFrames file post) (fun q d hq _ e he => hall e
      ((List.append_sublist_append_left _).mpr (hq.sublist.map arrival) |>.subset he))
  rw [chunkFrames_append, List.map_append, receive_info hpre]
  refine ⟨_, rfl, hr, htotal, hcr.trans (by rw [← Nat.zero_add 1, ← hcreated]; rfl), hsome, ?_⟩
  intro hk hpos
  exact handleChunks_finishing (told_receiving file pre) (told_finishing hk hpos) rfl
    (four_le_chunkFrames _ _) hall

/-- The decoded indices fit into the header, and into the file. -/
theorem arrivals_lt {file : File} {evs : List Incoming}
    (hlt : ∀ i, .chunk i ∈ evs → i < Web.totalChunks file) :
    ∀ e ∈ (chunkFrames file evs).map arrival, e.1 < 2 ^ 32 ∧ e.1 < Web.totalChunks file := by
  intro e he
  obtain ⟨i, hi, rfl⟩ := mem_arrivals.mp he
  exact ⟨Nat.mod_lt _ (by decide), Nat.lt_of_le_of_lt (Nat.mod_le _ _) (hlt i hi)⟩

/-- The write index stays within the header's range and within the file. -/
theorem Receiving.next_le {file : File} {evs : List Incoming} {k : Nat} {r : Receiver}
    (hr : Receiving ((chunkFrames file evs).map arrival) k r)
    (hlt : ∀ i, .chunk i ∈ evs → i < Web.totalChunks file) :
    r.nextWriteIndex ≤ 2 ^ 32 ∧ r.nextWriteIndex ≤ Web.totalChunks file := by
  obtain ⟨out, hin, -⟩ := hr.order
  have hwire := arrivals_lt hlt
  exact ⟨hin.next_le fun j hj => lt_of_lookup (fun e he => (hwire e he).1) hj,
    hin.next_le fun j hj => lt_of_lookup (fun e he => (hwire e he).2) hj⟩

/-- With a downloader from the start and indices that fit into the header, the
writes are the chunks below the write index, and this is `totalChunks` when
every chunk has arrived. -/
theorem Receiving.writes_payload {file : File} {evs : List Incoming} {r : Receiver}
    (hr : Receiving ((chunkFrames file evs).map arrival) 0 r)
    (hlt : ∀ i, .chunk i ∈ evs → i < Web.totalChunks file)
    (h32 : Web.totalChunks file ≤ 2 ^ 32) :
    (∀ calls ∈ r.downloader,
      writes calls = (List.range r.nextWriteIndex).map (payload file)) ∧
    ((∀ i < Web.totalChunks file, .chunk i ∈ evs) →
      r.nextWriteIndex = Web.totalChunks file) := by
  obtain ⟨out, hin, hwrites⟩ := hr.order
  have hwire := arrivals_lt hlt
  have hmod : ∀ i, .chunk i ∈ evs → i % 2 ^ 32 = i :=
    fun i hi => Nat.mod_eq_of_lt (by have := hlt i hi; omega)
  -- each index that was received has the payload of its chunk
  have hlook : ∀ j p, ((chunkFrames file evs).map arrival).lookup j = some p →
      p = payload file j := by
    intro j p hp
    obtain ⟨i, hi, heq⟩ := mem_arrivals.mp (mem_of_lookup hp)
    rw [hmod i hi] at heq
    obtain ⟨rfl, rfl⟩ := Prod.mk.injEq .. ▸ heq
    rfl
  refine ⟨fun calls hcalls => ?_, fun hall => ?_⟩
  · rw [hwrites calls hcalls, List.drop_zero]
    apply List.map_injective_iff.mpr (Option.some_injective _)
    rw [hin.out_eq, List.map_map]
    apply List.map_congr_left
    intro j hj
    obtain ⟨p, hp⟩ := Option.isSome_iff_exists.mp
      (Option.isSome_iff_ne_none.mpr (hin.arrived_iff.mpr (.inl (List.mem_range.mp hj))))
    rw [hp, hlook j p hp]
    rfl
  · refine (hin.next_eq_iff fun j hj => lt_of_lookup (fun e he => (hwire e he).2) hj).mpr ?_
    intro j hj
    refine Option.isSome_iff_ne_none.mp (lookup_isSome_iff.mpr (List.mem_map.mpr
      ⟨(j, payload file j), mem_arrivals.mpr ⟨j, hall j hj, ?_⟩, rfl⟩))
    rw [hmod j (hall j hj)]

/-- **The file-info may arrive late, but not after chunk 0.** When everything
has arrived, the file has been delivered exactly when its chunk indices fit
into the 4-byte header and no copy of chunk 0 came before the file-info. -/
theorem delivered_iff (file : File) (hne : file.bytes ≠ []) (evs : List Incoming)
    (hlt : ∀ i, .chunk i ∈ evs → i < Web.totalChunks file) (hinfo : .fileInfo ∈ evs)
    (hall : ∀ i < Web.totalChunks file, .chunk i ∈ evs) :
    Delivered file (receive file evs) ↔
      Web.totalChunks file ≤ 2 ^ 32 ∧ .chunk 0 ∉ evs.takeWhile (· ≠ .fileInfo) := by
  have hpos : 0 < Web.totalChunks file :=
    Nat.pos_of_ne_zero fun h => hne (totalChunks_eq_zero.mp h)
  -- split at the first file-info
  obtain ⟨pre, post, rfl, hpre⟩ := List.eq_append_cons_of_mem hinfo
  have htake : (pre ++ .fileInfo :: post).takeWhile (· ≠ Incoming.fileInfo) = pre := by
    have hne : ∀ e ∈ pre, decide (e ≠ Incoming.fileInfo) = true := by
      rintro e he
      exact decide_eq_true fun h => hpre (h ▸ he)
    rw [List.takeWhile_append_of_pos hne]
    simp
  rw [htake]
  have hmem : ∀ i, Incoming.chunk i ∈ pre ++ post ↔ .chunk i ∈ pre ++ .fileInfo :: post := by
    simp
  have hlt' : ∀ i, .chunk i ∈ pre ++ post → i < Web.totalChunks file :=
    fun i hi => hlt i ((hmem i).mp hi)
  obtain ⟨k, hk, hr, htotal, hcreated, hsome, hfin⟩ := receive_spec hpre hlt'
  obtain ⟨out, hin, hwrites⟩ := hr.order
  obtain ⟨calls, hcalls⟩ := Option.isSome_iff_exists.mp hsome
  obtain ⟨hnext32, hnextTotal⟩ := hr.next_le hlt'
  have hzero : k = 0 ↔ ((chunkFrames file pre).map arrival).lookup 0 = none :=
    hk ▸ nextWriteIndex_eq_zero (four_le_chunkFrames file pre)
  constructor
  · rintro ⟨-, ⟨calls', hcalls', hw⟩, -⟩
    obtain rfl : calls = calls' := Option.mem_unique hcalls hcalls'
    have hcount := congrArg List.length ((hwrites calls hcalls).symm.trans hw)
    rw [List.length_drop, hin.length_out, List.length_map, List.length_range] at hcount
    refine ⟨by omega, fun h0 => ?_⟩
    have hk0 : k = 0 := by omega
    rw [hzero, ← Option.not_isSome_iff_eq_none, lookup_isSome_iff] at hk0
    exact hk0 (List.mem_map.mpr ⟨(0, payload file 0), mem_arrivals.mpr ⟨0, h0, rfl⟩, rfl⟩)
  · rintro ⟨h32, h0⟩
    have hk0 : k = 0 := by
      rw [hzero, ← Option.not_isSome_iff_eq_none, lookup_isSome_iff]
      intro hm
      obtain ⟨e, he, hfst⟩ := List.mem_map.mp hm
      obtain ⟨i, hi, rfl⟩ := mem_arrivals.mp he
      have hi' := hlt i (List.mem_append_left _ hi)
      obtain rfl : i = 0 := (Nat.mod_eq_of_lt (show i < 2 ^ 32 by omega)).symm.trans hfst
      exact h0 hi
    rw [hk0] at hr
    obtain ⟨hw, hnext⟩ := hr.writes_payload hlt' h32
    obtain ⟨hruns, hcompl, -⟩ := hfin hk0 hpos
    have hnext := hnext fun j hj => (hmem j).mpr (hall j hj)
    refine ⟨hcreated, ⟨calls, hcalls, hnext ▸ hw calls hcalls⟩, ?_⟩
    rw [hcompl, hruns, htotal, if_pos hnext]

/-- The file-info first, then everything twice. -/
theorem delivered_iff_oneByteFile :
    Delivered oneByteFile (receive oneByteFile [.fileInfo, .chunk 0, .fileInfo, .chunk 0]) :=
  (delivered_iff oneByteFile (by decide) [.fileInfo, .chunk 0, .fileInfo, .chunk 0]
    (by simp [totalChunks_oneByteFile]) (by decide)
    (by simp [totalChunks_oneByteFile])).mpr ⟨by decide, by decide⟩

/-- The only chunk of a file overtakes the file-info: nothing is written, and
`onComplete` is never called. -/
theorem not_delivered_overtaken :
    ¬ ∀ (file : File) (evs : List Incoming), file.bytes ≠ [] →
      (∀ i, .chunk i ∈ evs → i < Web.totalChunks file) → .fileInfo ∈ evs →
      (∀ i < Web.totalChunks file, .chunk i ∈ evs) → Delivered file (receive file evs) := by
  intro h
  have hdel := h oneByteFile [.chunk 0, .fileInfo] (by decide)
    (by simp [totalChunks_oneByteFile]) (by decide) (by simp [totalChunks_oneByteFile])
  exact absurd hdel.completed (by decide)

end Receiver

end FastTransfer.Web
