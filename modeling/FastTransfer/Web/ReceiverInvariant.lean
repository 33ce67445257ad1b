import FastTransfer.Web.Receiver

/-!
# What the receiver keeps

The receiver is an in-order reassembler of the frames it has been given: its
write index, its pending chunks and the chunks it has passed to `_writeChunk`
stand in the library's relation `InOrder` to the log of decoded frames. The
downloader, created when `k` chunks had already been passed on, has the rest
of them. `handleChunk_receiving` is the step lemma; it needs that completion,
which throws the pending chunks away, is only reached by indices below
`totalChunks`.
-/

namespace FastTransfer.Web

open Reassembly

/-- The chunks written to a downloader, in order. -/
def writes (calls : List DownloaderCall) : List Bytes :=
  calls.filterMap fun
    | .write uint8 => some uint8
    | .close => none

/-- How often the downloader was closed. -/
def closes (calls : List DownloaderCall) : Nat := calls.count .close

@[simp] theorem writes_append (a b : List DownloaderCall) :
    writes (a ++ b) = writes a ++ writes b := by simp [writes]

@[simp] theorem writes_map_write (l : List Bytes) : writes (l.map .write) = l := by
  simp [writes, List.filterMap_map]

@[simp] theorem writes_close : writes [.close] = [] := rfl

@[simp] theorem closes_append (a b : List DownloaderCall) :
    closes (a ++ b) = closes a + closes b := by simp [closes]

@[simp] theorem closes_map_write (l : List Bytes) : closes (l.map .write) = 0 := by
  simp [closes, List.count_eq_zero]

@[simp] theorem closes_close : closes [.close] = 1 := rfl

namespace Receiver

/-! ## What each function changes -/

/-- `_handleChunk` on the frames of a sequence, in order. -/
def handleChunks (r : Receiver) (frames : List Bytes) : Receiver :=
  frames.foldl handleChunk r

theorem handleChunks_snoc (r : Receiver) (frames : List Bytes) (data : Bytes) :
    r.handleChunks (frames ++ [data]) = (r.handleChunks frames).handleChunk data := by
  simp [handleChunks]

/-- The downloader after some more writes. -/
def wrote (r : Receiver) (added : List Bytes) : Option (List DownloaderCall) :=
  r.downloader.map (· ++ added.map .write)

@[simp] theorem wrote_nil (r : Receiver) : r.wrote [] = r.downloader := by
  simp [wrote]

theorem erase_length_lt {p : AList fun _ : Nat => Bytes} {i : Nat}
    (h : i ∈ p) : (p.erase i).entries.length + 1 = p.entries.length := by
  have hlen (q : AList fun _ : Nat => Bytes) : q.entries.length = q.keys.length := by
    simp [AList.keys, List.keys]
  rw [hlen, hlen, AList.keys_erase]
  exact List.length_erase_add_one (AList.mem_keys.mp h)

/-- The drain loop touches the write index, the pending chunks and the
downloader, and stops at a gap. -/
theorem drainPending_spec (fuel : Nat) (r : Receiver) {log : List (Nat × Bytes)}
    {out : List Bytes} (h : Draining log r.nextWriteIndex (r.pendingChunks.lookup ·) out)
    (hfuel : r.pendingChunks.entries.length ≤ fuel) :
    ∃ n p added, drainPending fuel r =
        { r with nextWriteIndex := n, pendingChunks := p, downloader := r.wrote added } ∧
      InOrder log n (p.lookup ·) (out ++ added) := by
  induction fuel generalizing r out with
  | zero =>
      have hnone : r.pendingChunks.lookup r.nextWriteIndex = none := by
        have hnil : r.pendingChunks.entries = [] :=
          List.length_eq_zero_iff.mp (Nat.le_zero.mp hfuel)
        rw [AList.lookup_eq_none, AList.mem_keys, AList.keys, hnil]
        exact List.not_mem_nil
      exact ⟨r.nextWriteIndex, r.pendingChunks, [], by simp [drainPending],
        by simpa using h.inOrder hnone⟩
  | succ fuel ih =>
      rw [drainPending]
      cases hl : r.pendingChunks.lookup r.nextWriteIndex with
      | none =>
          exact ⟨r.nextWriteIndex, r.pendingChunks, [], by simp,
            by simpa using h.inOrder hl⟩
      | some next =>
          let r' := { (writeChunk { r with
            pendingChunks := r.pendingChunks.erase r.nextWriteIndex } next) with
            nextWriteIndex := r.nextWriteIndex + 1 }
          have herase : ∀ j, (r.pendingChunks.erase r.nextWriteIndex).lookup j
              = if j = r.nextWriteIndex then none else r.pendingChunks.lookup j := by
            intro j
            by_cases hj : j = r.nextWriteIndex
            · rw [if_pos hj, hj, AList.lookup_erase]
            · rw [if_neg hj, AList.lookup_erase_ne hj]
          have hmem : r.nextWriteIndex ∈ r.pendingChunks :=
            AList.lookup_isSome.mp (by simp [hl])
          have hlen : r'.pendingChunks.entries.length ≤ fuel := by
            have : (r.pendingChunks.erase r.nextWriteIndex).entries.length ≤ fuel := by
              have := erase_length_lt hmem
              omega
            exact this
          obtain ⟨n, p, added, heq, hin⟩ := ih r' (h.deliver hl herase) hlen
          refine ⟨n, p, next :: added, heq.trans ?_, by simpa using hin⟩
          cases hd : r.downloader <;> simp [r', wrote, writeChunk, callDownloader, hd]

/-- A chunk of a new index is counted, and written or set aside. -/
theorem storeChunk_spec (r : Receiver) {log : List (Nat × Bytes)} {out : List Bytes}
    (h : InOrder log r.nextWriteIndex (r.pendingChunks.lookup ·) out) {i : Nat} (a : Bytes)
    (hnew : log.lookup i = none) :
    ∃ n p added, r.storeChunk i a =
        { r with
          receivedChunks := r.receivedChunks + 1
          bytesTransferred := r.bytesTransferred + a.length
          nextWriteIndex := n, pendingChunks := p, downloader := r.wrote added } ∧
      InOrder (log ++ [(i, a)]) n (p.lookup ·) (out ++ added) := by
  unfold storeChunk
  by_cases hi : i = r.nextWriteIndex
  · subst hi
    let r' := { (writeChunk { r with
      receivedChunks := r.receivedChunks + 1
      bytesTransferred := r.bytesTransferred + a.length } a) with
      nextWriteIndex := r.nextWriteIndex + 1 }
    obtain ⟨n, p, added, heq, hin⟩ :=
      drainPending_spec r'.pendingChunks.entries.length r' (h.deliver a) (Nat.le_refl _)
    refine ⟨n, p, a :: added, ?_, by simpa using hin⟩
    rw [if_pos rfl]
    apply heq.trans
    cases hd : r.downloader <;> simp [r', wrote, writeChunk, callDownloader, hd]
  · -- a new index is not below the write index, so it is above it
    have hlt : r.nextWriteIndex < i := by
      by_contra hle
      exact h.arrived_iff.mpr (.inl (show i < r.nextWriteIndex by omega)) hnew
    refine ⟨r.nextWriteIndex, r.pendingChunks.insert i a, [], ?_, ?_⟩
    · simp [hi]
    · have hins : ∀ j, (r.pendingChunks.insert i a).lookup j
          = if j = i then some a else r.pendingChunks.lookup j := by
        intro j
        by_cases hj : j = i
        · rw [if_pos hj, hj, AList.lookup_insert]
        · rw [if_neg hj, AList.lookup_insert_ne hj]
      simpa using h.stash hlt hnew hins

/-- The dedup test is right: it is the indices that have arrived. -/
theorem isDuplicate_iff (r : Receiver) {log : List (Nat × Bytes)} {out : List Bytes}
    (h : InOrder log r.nextWriteIndex (r.pendingChunks.lookup ·) out) (i : Nat) :
    r.isDuplicate i = (log.lookup i).isSome := by
  rw [Bool.eq_iff_iff, isDuplicate, Bool.or_eq_true, decide_eq_true_iff,
    Option.isSome_iff_ne_none, Option.isSome_iff_ne_none, h.arrived_iff]

theorem handleChunk_of_duplicate {r : Receiver} {data : Bytes}
    (h : r.isDuplicate (getUint32 data)) : r.handleChunk data = r := by
  simp [handleChunk, arrival, h]

theorem handleChunk_of_new {r : Receiver} {data : Bytes} (h4 : 4 ≤ data.length)
    (h : r.isDuplicate (getUint32 data) = false) :
    r.handleChunk data =
      let r' := r.storeChunk (getUint32 data) (data.drop 4)
      if r'.receivedChunks = r'.totalChunks then r'.finishDownload else r' := by
  rw [handleChunk, if_neg (Nat.not_lt.mpr h4)]
  exact if_neg (Bool.eq_false_iff.mp h)

/-! ## The invariant -/

/-- The receiver has handled the frames decoded in `log`, and its downloader,
if it has one, was created when `k` chunks had been passed to `_writeChunk`. -/
structure Receiving (log : List (Nat × Bytes)) (k : Nat) (r : Receiver) : Prop where
  order : ∃ out, InOrder log r.nextWriteIndex (r.pendingChunks.lookup ·) out ∧
    ∀ calls ∈ r.downloader, writes calls = out.drop k
  created : k ≤ r.nextWriteIndex
  received : r.receivedChunks = (firsts log).length
  bytes : r.bytesTransferred = ((firsts log).map (·.2.length)).sum

theorem Receiving.inOrder {log : List (Nat × Bytes)} {k : Nat} {r : Receiver}
    (h : Receiving log k r) :
    ∃ out, InOrder log r.nextWriteIndex (r.pendingChunks.lookup ·) out :=
  h.order.imp fun _ h => h.1

theorem Receiving.duplicate {log : List (Nat × Bytes)} {k : Nat} {r : Receiver}
    (h : Receiving log k r) {e : Nat × Bytes} (hdup : (log.lookup e.1).isSome) :
    Receiving (log ++ [e]) k r where
  order := h.order.imp fun _ h => ⟨h.1.duplicate (Option.isSome_iff_ne_none.mp hdup) _, h.2⟩
  created := h.created
  received := by rw [firsts_snoc, if_pos hdup, h.received]
  bytes := by rw [firsts_snoc, if_pos hdup, h.bytes]

theorem Receiving.storeChunk {log : List (Nat × Bytes)} {k : Nat} {r : Receiver}
    (h : Receiving log k r) {i : Nat} (a : Bytes) (hnew : log.lookup i = none) :
    Receiving (log ++ [(i, a)]) k (r.storeChunk i a) := by
  obtain ⟨out, hin, hwrites⟩ := h.order
  obtain ⟨n, p, added, heq, hin'⟩ := r.storeChunk_spec hin a hnew
  have hk : k ≤ out.length := by
    rw [hin.length_out]
    exact h.created
  have hlen : out.length + added.length = n := by
    rw [← List.length_append, hin'.length_out]
  rw [heq]
  refine ⟨⟨out ++ added, hin', ?_⟩, ?_, ?_, ?_⟩
  · intro calls hcalls
    obtain ⟨calls', hcalls', rfl⟩ := Option.map_eq_some_iff.mp hcalls
    rw [writes_append, writes_map_write, hwrites _ hcalls', List.drop_append_of_le_length hk]
  · have hle : k ≤ n := by omega
    exact hle
  · simp [firsts_snoc, hnew, h.received]
  · simp [firsts_snoc, hnew, h.bytes]

/-- Completion throws the pending chunks away: that loses nothing when there
are none. -/
theorem Receiving.finishDownload {log : List (Nat × Bytes)} {k : Nat} {r : Receiver}
    (h : Receiving log k r) (hnone : ∀ i, r.pendingChunks.lookup i = none) :
    Receiving log k r.finishDownload := by
  obtain ⟨out, hin, hwrites⟩ := h.order
  have hpend : (r.pendingChunks.lookup ·) = ((∅ : AList fun _ : Nat => Bytes).lookup ·) := by
    funext i
    rw [hnone i, AList.lookup_empty]
  have hcalls : ∀ calls ∈ r.downloader.map (· ++ [.close]), writes calls = out.drop k := by
    intro calls hc
    obtain ⟨calls', hcalls', rfl⟩ := Option.map_eq_some_iff.mp hc
    rw [writes_append, writes_close, List.append_nil, hwrites _ hcalls']
  have hin' := hpend ▸ hin
  cases hinfo : r.fileInfo <;>
    simp only [Receiver.finishDownload, callDownloader, hinfo] <;>
    exact ⟨⟨out, hin', hcalls⟩, h.created, h.received, h.bytes⟩

/-- Storing a chunk leaves the rest of the engine as it is. -/
theorem Receiving.storeChunk_frame {log : List (Nat × Bytes)} {k : Nat} {r : Receiver}
    (h : Receiving log k r) {i : Nat} (a : Bytes) (hnew : log.lookup i = none) :
    (r.storeChunk i a).fileInfo = r.fileInfo ∧
      (r.storeChunk i a).totalChunks = r.totalChunks ∧
      (r.storeChunk i a).downloadersCreated = r.downloadersCreated ∧
      (r.storeChunk i a).finishRuns = r.finishRuns ∧
      (r.storeChunk i a).completions = r.completions ∧
      (r.storeChunk i a).downloader.map closes = r.downloader.map closes := by
  obtain ⟨out, hin, -⟩ := h.order
  obtain ⟨n, p, added, heq, -⟩ := r.storeChunk_spec hin a hnew
  rw [heq]
  refine ⟨rfl, rfl, rfl, rfl, rfl, ?_⟩
  cases hd : r.downloader <;> simp [wrote, hd]

theorem arrival_fst (data : Bytes) : (arrival data).1 = getUint32 data := rfl

/-- What a chunk does to a receiver in order with its log: one of an index
that has arrived is dropped, any other is stored, and the last completes. -/
theorem Receiving.handleChunk_cases {log : List (Nat × Bytes)} {k : Nat} {r : Receiver}
    (h : Receiving log k r) {data : Bytes} (h4 : 4 ≤ data.length) :
    ((log.lookup (getUint32 data)).isSome ∧ r.handleChunk data = r) ∨
      (log.lookup (getUint32 data) = none ∧
        r.handleChunk data =
          if (firsts (log ++ [arrival data])).length = r.totalChunks
          then (r.storeChunk (getUint32 data) (data.drop 4)).finishDownload
          else r.storeChunk (getUint32 data) (data.drop 4)) := by
  obtain ⟨out, hin⟩ := h.inOrder
  have hdup := r.isDuplicate_iff hin (getUint32 data)
  cases hd : r.isDuplicate (getUint32 data) with
  | true => exact .inl ⟨hdup.symm.trans hd, handleChunk_of_duplicate hd⟩
  | false =>
      have hnew : log.lookup (getUint32 data) = none := by simpa [hd] using hdup
      have hcount := (h.storeChunk (data.drop 4) hnew).received
      obtain ⟨-, htotal, -⟩ := h.storeChunk_frame (data.drop 4) hnew
      have heq := handleChunk_of_new h4 hd
      simp only [hcount, htotal] at heq
      exact .inr ⟨hnew, heq⟩

/-- **The step of the receiver**: it stays in order with the frames it has
been given, as long as the count reaches `totalChunks` only on indices below
`totalChunks`. -/
theorem handleChunk_receiving {log : List (Nat × Bytes)} {k : Nat} {r : Receiver}
    (h : Receiving log k r) {data : Bytes} (h4 : 4 ≤ data.length)
    (hfin : (firsts (log ++ [arrival data])).length = r.totalChunks →
      ∀ e ∈ log ++ [arrival data], e.1 < r.totalChunks) :
    Receiving (log ++ [arrival data]) k (r.handleChunk data) := by
  obtain ⟨hdup, heq⟩ | ⟨hnew, heq⟩ := h.handleChunk_cases h4
  · rw [heq]
    exact h.duplicate hdup
  · have hr' : Receiving (log ++ [arrival data]) k _ := h.storeChunk (data.drop 4) hnew
    rw [heq]
    split
    · rename_i hlen
      have hlt := fun j hj => lt_of_lookup (i := j) (hfin hlen) hj
      obtain ⟨out', hin'⟩ := hr'.inOrder
      have hnext := (hin'.length_firsts_eq_iff hlt).mp hlen
      exact hr'.finishDownload (hin'.pending_none (hnext ▸ hlt))
    · exact hr'

/-! ## Completion -/

/-- `_finishDownload` has run once if the write index has reached
`totalChunks`, and not yet otherwise; with it the downloader was closed and
`onComplete` called. -/
structure Finishing (r : Receiver) : Prop where
  runs : r.finishRuns = if r.nextWriteIndex = r.totalChunks then 1 else 0
  completions : r.completions.length = r.finishRuns
  closes : ∀ calls ∈ r.downloader, closes calls = r.finishRuns

theorem finishDownload_frame {r : Receiver} (hinfo : r.fileInfo.isSome) :
    r.finishDownload.finishRuns = r.finishRuns + 1 ∧
      r.finishDownload.nextWriteIndex = r.nextWriteIndex ∧
      r.finishDownload.totalChunks = r.totalChunks ∧
      r.finishDownload.fileInfo = r.fileInfo ∧
      r.finishDownload.downloadersCreated = r.downloadersCreated ∧
      r.finishDownload.completions.length = r.completions.length + 1 ∧
      r.finishDownload.downloader = r.downloader.map (· ++ [.close]) := by
  obtain ⟨info, hinfo⟩ := Option.isSome_iff_exists.mp hinfo
  simp [finishDownload, callDownloader, hinfo]

theorem drainPending_fileInfo (fuel : Nat) (r : Receiver) :
    (drainPending fuel r).fileInfo = r.fileInfo := by
  induction fuel generalizing r with
  | zero => rfl
  | succ fuel ih =>
      rw [drainPending]
      split
      · rw [ih]
        rfl
      · rfl

/-- The file-info is never changed by a chunk, whatever came before. -/
theorem handleChunk_fileInfo (r : Receiver) (data : Bytes) :
    (r.handleChunk data).fileInfo = r.fileInfo := by
  have hstore (i : Nat) (a : Bytes) : (r.storeChunk i a).fileInfo = r.fileInfo := by
    simp only [storeChunk]
    split
    · rw [drainPending_fileInfo]
      rfl
    · rfl
  unfold handleChunk
  split
  · rfl
  · simp only
    split
    · rfl
    · split
      · cases hi : r.fileInfo <;> simp [finishDownload, callDownloader, hstore, hi]
      · exact hstore _ _

/-- A chunk changes none of the fields that the file-info sets. -/
theorem handleChunk_frame {log : List (Nat × Bytes)} {k : Nat} {r : Receiver}
    (h : Receiving log k r) {data : Bytes} (h4 : 4 ≤ data.length) :
    (r.handleChunk data).fileInfo = r.fileInfo ∧
      (r.handleChunk data).totalChunks = r.totalChunks ∧
      (r.handleChunk data).downloadersCreated = r.downloadersCreated ∧
      (r.handleChunk data).downloader.isSome = r.downloader.isSome := by
  obtain ⟨-, heq⟩ | ⟨hnew, heq⟩ := h.handleChunk_cases h4
  · rw [heq]
    exact ⟨rfl, rfl, rfl, rfl⟩
  · obtain ⟨out, hin⟩ := h.inOrder
    obtain ⟨n, p, added, hstore, -⟩ := r.storeChunk_spec hin (data.drop 4) hnew
    rw [heq, hstore]
    split
    · cases r.fileInfo <;> simp [finishDownload, callDownloader, wrote]
    · simp [wrote]

/-- Nothing is finished while the count is not `totalChunks`. -/
theorem handleChunk_unfinished {log : List (Nat × Bytes)} {k : Nat} {r : Receiver}
    (h : Receiving log k r) {data : Bytes} (h4 : 4 ≤ data.length)
    (hcount : (firsts (log ++ [arrival data])).length ≠ r.totalChunks) :
    (r.handleChunk data).finishRuns = r.finishRuns ∧
      (r.handleChunk data).completions = r.completions := by
  obtain ⟨-, heq⟩ | ⟨hnew, heq⟩ := h.handleChunk_cases h4
  · rw [heq]
    exact ⟨rfl, rfl⟩
  · obtain ⟨-, -, -, hruns, hcompl, -⟩ := h.storeChunk_frame (data.drop 4) hnew
    rw [heq, if_neg hcount]
    exact ⟨hruns, hcompl⟩

/-- While an index is missing, nothing has been finished. -/
theorem Finishing.runs_of_new {log : List (Nat × Bytes)} {k : Nat} {r : Receiver}
    (hf : Finishing r) (h : Receiving log k r) {data : Bytes}
    (hnew : log.lookup (getUint32 data) = none)
    (hlt : ∀ e ∈ log ++ [arrival data], e.1 < r.totalChunks) : r.finishRuns = 0 := by
  obtain ⟨out, hin⟩ := h.inOrder
  rw [hf.runs, if_neg]
  intro hnext
  have hlog := fun j hj => lt_of_lookup
    (fun e he => hlt e (List.mem_append_left _ he)) (i := j) hj
  exact (hin.next_eq_iff hlog).mp hnext _ (hlt (arrival data) (by simp)) hnew

/-- **Completion is decided by the count and reached with the write index.** -/
theorem handleChunk_finishing {log : List (Nat × Bytes)} {k : Nat} {r : Receiver}
    (h : Receiving log k r) (hf : Finishing r) (hinfo : r.fileInfo.isSome) {data : Bytes}
    (h4 : 4 ≤ data.length) (hlt : ∀ e ∈ log ++ [arrival data], e.1 < r.totalChunks) :
    Finishing (r.handleChunk data) := by
  obtain ⟨-, heq⟩ | ⟨hnew, heq⟩ := h.handleChunk_cases h4
  · rwa [heq]
  · have hr' := h.storeChunk (data.drop 4) hnew
    obtain ⟨hfi, htotal, -, hruns, hcompl, hcloses⟩ :=
      h.storeChunk_frame (data.drop 4) hnew
    obtain ⟨out', hin'⟩ := hr'.inOrder
    have hiff := hin'.length_firsts_eq_iff fun j hj => lt_of_lookup hlt hj
    have hnone := hf.runs_of_new h hnew hlt
    have hcl : ∀ calls ∈ (r.storeChunk (getUint32 data) (data.drop 4)).downloader,
        FastTransfer.Web.closes calls = 0 := by
      intro calls hc
      have hc' := congrArg (Option.map FastTransfer.Web.closes) hc
      rw [hcloses] at hc'
      obtain ⟨calls', hcalls', hclose⟩ := Option.map_eq_some_iff.mp hc'
      rw [← hclose, hf.closes _ hcalls', hnone]
    rw [heq]
    by_cases hcount : (firsts (log ++ [arrival data])).length = r.totalChunks
    · rw [if_pos hcount]
      obtain ⟨f1, f2, f3, -, -, f6, f7⟩ := finishDownload_frame
        (r := r.storeChunk (getUint32 data) (data.drop 4)) (by rw [hfi]; exact hinfo)
      refine ⟨?_, ?_, ?_⟩
      · rw [f1, f2, f3, htotal, if_pos (hiff.mp hcount), hruns, hnone]
      · rw [f6, f1, hcompl, hruns, hf.completions]
      · intro calls hc
        rw [f7] at hc
        obtain ⟨calls', hcalls', rfl⟩ := Option.map_eq_some_iff.mp hc
        rw [closes_append, closes_close, hcl _ hcalls', f1, hruns, hnone]
    · rw [if_neg hcount]
      refine ⟨?_, ?_, ?_⟩
      · rw [hruns, hnone, htotal, if_neg (fun hn => hcount (hiff.mpr hn))]
      · rw [hcompl, hruns, hf.completions]
      · intro calls hc
        rw [hcl _ hc, hruns, hnone]

end Receiver

end FastTransfer.Web
