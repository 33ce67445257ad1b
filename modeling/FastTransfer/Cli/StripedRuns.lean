import Mathlib.Data.List.Perm.Basic
import FastTransfer.Lib.Tally
import FastTransfer.Cli.Striped

/-!
# Runs of the striped transfer

What a stream carries: the chunks of its stripe in order, and then the marker.
`Carries` says how far both tasks of the stream have come, and that exactly
the frames between them are on the wire. Every step keeps it, and fills the
output file with one more chunk or leaves it alone.
-/

namespace FastTransfer.Cli

open Tiling Filling Framing

/-! ## The chunks of a file -/

/-- The number of chunks, without the overflow checks. -/
def chunkCount (file : SourceFile) : Nat := blockCount chunkSize file.size

/-- The bytes of chunk `i` of the file. -/
def chunk (file : SourceFile) (i : Nat) : Bytes := block chunkSize file.bytes i

/-- The range that the sender reads for a chunk. -/
def rangeOf (file : SourceFile) (i : Nat) : ReadRange :=
  ⟨i, i * chunkSize, min chunkSize (file.size - i * chunkSize)⟩

@[simp] theorem rangeOf_offset (file : SourceFile) (i : Nat) :
    (rangeOf file i).offset = i * chunkSize := rfl

@[simp] theorem rangeOf_size (file : SourceFile) (i : Nat) :
    (rangeOf file i).size = min chunkSize (file.size - i * chunkSize) := rfl

/-- The `m`-th chunk of stream `k`. -/
def stripe (k m : Nat) : Nat := k + numStreams * m

theorem chunkSize_pos : 0 < chunkSize := by decide

section Chunks

variable {file : SourceFile} {i : Nat}

theorem lt_chunkCount : i < chunkCount file ↔ i * chunkSize < file.size :=
  lt_blockCount chunkSize_pos

theorem totalChunks_eq (hsize : file.size < 2 ^ 63) :
    totalChunks file.size = some (chunkCount file) := by
  have hadd : checkedAdd file.size chunkSize = some (file.size + chunkSize) := by
    rw [checkedAdd, if_pos]
    simp only [chunkSize, u64Max]
    omega
  have hsub : checkedSub (file.size + chunkSize) 1 = some (file.size + chunkSize - 1) := by
    rw [checkedSub, if_pos]
    exact Nat.le_add_left_of_le chunkSize_pos
  rw [totalChunks, hadd, Option.bind_eq_bind, Option.bind_some, hsub, Option.bind_some, chunkCount,
    blockCount]

theorem length_chunk (file : SourceFile) (i : Nat) :
    (chunk file i).length = min chunkSize (file.size - i * chunkSize) :=
  length_block chunkSize file.bytes i

theorem chunk_ne_nil (hi : i < chunkCount file) : chunk file i ≠ [] :=
  List.length_pos_iff.mp (block_length_pos chunkSize_pos hi)

/-- No chunk index is near the marker. -/
theorem lt_of_lt_chunkCount (hsize : file.size < 2 ^ 63) (hi : i < chunkCount file) :
    i < 2 ^ 43 := by
  have := lt_chunkCount.mp hi
  simp only [chunkSize] at this
  omega

theorem ne_marker (hsize : file.size < 2 ^ 63) (hi : i < chunkCount file) : i ≠ u64Max := by
  have := lt_of_lt_chunkCount hsize hi
  simp only [u64Max]
  omega

theorem checkedMul_chunk (hsize : file.size < 2 ^ 63) (hi : i < chunkCount file) :
    checkedMul i chunkSize = some (i * chunkSize) := by
  have := lt_chunkCount.mp hi
  rw [checkedMul, if_pos]
  simp only [u64Max]
  omega

theorem checkedAdd_stripe {k m : Nat} (hsize : file.size < 2 ^ 63)
    (hi : stripe k m < chunkCount file) :
    checkedAdd (stripe k m) numStreams = some (stripe k (m + 1)) := by
  have := lt_of_lt_chunkCount hsize hi
  have hnext : stripe k m + numStreams = stripe k (m + 1) := by
    rw [stripe, stripe, Nat.mul_succ, Nat.add_assoc]
  rw [checkedAdd, if_pos, hnext]
  simp only [u64Max, numStreams]
  omega

theorem readRange_eq (hsize : file.size < 2 ^ 63) (hi : i < chunkCount file) :
    readRange file i = some (rangeOf file i, chunk file i) := by
  have hlt := lt_chunkCount.mp hi
  have hsub : checkedSub file.size (i * chunkSize) = some (file.size - i * chunkSize) := by
    rw [checkedSub, if_pos hlt.le]
  have hfit : i * chunkSize + min chunkSize (file.size - i * chunkSize) ≤ file.size := by omega
  have hread : seekRead file (i * chunkSize) (min chunkSize (file.size - i * chunkSize)) =
      some (chunk file i) := by
    rw [seekRead, if_pos hfit, chunk, block,
      ← slice_min_length file.bytes _ (i * chunkSize + chunkSize)]
    congr 2
    rw [SourceFile.size] at *
    omega
  rw [readRange, checkedMul_chunk hsize hi, Option.bind_eq_bind, Option.bind_some, hsub,
    Option.bind_some, hread, Option.bind_eq_bind, Option.bind_some, rangeOf]

/-- The length in front of a chunk fits into 32 bits. -/
theorem length_chunk_lt (file : SourceFile) (i : Nat) : 8 + (chunk file i).length < 2 ^ 32 := by
  rw [length_chunk]
  simp only [chunkSize]
  omega

theorem chunk_reads (hsize : file.size < 2 ^ 63) (hi : i < chunkCount file) :
    Reads recvChunk (i, chunk file i) (sendChunk i (chunk file i)) := by
  have hlt := lt_of_lt_chunkCount hsize hi
  have hindex : i ≤ u64Max := by
    simp only [u64Max]
    omega
  exact recvChunk_reads hindex (length_chunk_lt file i)

end Chunks

/-! ## What a stream carries -/

/-- The frame of the `m`-th chunk of stream `k`. -/
def frame (file : SourceFile) (k m : Nat) : Bytes :=
  sendChunk (stripe k m) (chunk file (stripe k m))

/-- The marker, from its sending to its receipt. -/
def marker (sending : Sending) (receiving : Receiving) : Bytes :=
  if sending = .ended ∧ receiving ≠ .ended then sendChunk u64Max [] else []

theorem marker_running (i : Nat) (receiving : Receiving) : marker (.running i) receiving = [] :=
  if_neg (by simp)

theorem marker_received (sending : Sending) : marker sending .ended = [] := if_neg (by simp)

theorem marker_ended {receiving : Receiving} (h : receiving ≠ .ended) :
    marker .ended receiving = sendChunk u64Max [] := if_pos ⟨rfl, h⟩

/-- Before its end the receiving task leaves the marker where it is. -/
theorem marker_congr (sending : Sending) {receiving receiving' : Receiving}
    (h : receiving ≠ .ended) (h' : receiving' ≠ .ended) :
    marker sending receiving = marker sending receiving' := by
  rw [marker, marker]
  simp only [h, h', ne_eq, not_false_eq_true, and_true]

/-- Where a receiving task stands that has got the first `r` chunks of its stream. -/
inductive Received (file : SourceFile) (k : Nat) : Nat → Receiving → List Nat → Prop where
  | reading (r : Nat) : Received file k r .reading ((List.range r).map (stripe k))
  | writing (r : Nat) : Received file k (r + 1)
      (.writing (stripe k r) (stripe k r * chunkSize) (chunk file (stripe k r)))
      ((List.range r).map (stripe k))
  | ended (r : Nat) : Received file k r .ended ((List.range r).map (stripe k))

theorem Received.of_reading {file : SourceFile} {k r : Nat} {written : List Nat}
    (h : Received file k r .reading written) : written = (List.range r).map (stripe k) := by
  cases h
  rfl

theorem Received.of_writing {file : SourceFile} {k r index offset : Nat} {data : Bytes}
    {written : List Nat} (h : Received file k r (.writing index offset data) written) :
    ∃ m, r = m + 1 ∧ index = stripe k m ∧ offset = stripe k m * chunkSize ∧
      data = chunk file (stripe k m) ∧ written = (List.range m).map (stripe k) := by
  cases h with
  | writing m => exact ⟨m, rfl, rfl, rfl, rfl, rfl⟩

/-- **Stream `k`**, with its first `r` chunks received and the next `n` on the
wire, after a header that has not been read. -/
structure Carries (file : SourceFile) (header : Bytes) (k r n : Nat) (st : Stream) : Prop where
  sent : st.sent = (List.range (r + n)).map fun m => rangeOf file (stripe k m)
  below : ∀ m < r + n, stripe k m < chunkCount file
  sending : st.sending = .running (stripe k (r + n)) ∨
    st.sending = .ended ∧ chunkCount file ≤ stripe k (r + n)
  received : Received file k r st.receiving st.written
  ended : st.receiving = .ended → n = 0 ∧ st.sending = .ended
  wire : st.arrived ++ st.inFlight =
    header ++ ((List.range' r n).flatMap (frame file k) ++ marker st.sending st.receiving)

section Stream

variable {file : SourceFile} {header : Bytes} {k r n : Nat} {st st' : Stream}

theorem Carries.send (h : Carries file header k r n st) (hsize : file.size < 2 ^ 63)
    (hs : st.send file (chunkCount file) = some st') :
    (∃ n', Carries file header k r n' st') ∧ st'.receiving = st.receiving ∧
      st'.written = st.written := by
  have hwire := h.wire
  rcases h.sending with hrun | ⟨hended, -⟩
  · have hopen : st.receiving ≠ .ended := fun he => by simp [(h.ended he).2] at hrun
    rw [hrun, marker_running, List.append_nil] at hwire
    simp only [Stream.send, hrun] at hs
    split_ifs at hs with hlt
    · rw [readRange_eq hsize hlt] at hs
      simp only [checkedAdd_stripe hsize hlt, Option.some.injEq] at hs
      subst hs
      refine ⟨⟨n + 1, ?_, ?_, .inl rfl, h.received, fun he => absurd he hopen, ?_⟩, rfl, rfl⟩
      · rw [h.sent, ← Nat.add_assoc, List.range_succ, List.map_append]
        rfl
      · intro m hm
        rcases Nat.lt_succ_iff_lt_or_eq.mp hm with hm | rfl
        · exact h.below m hm
        · exact hlt
      · rw [marker_running, List.append_nil, ← List.append_assoc, hwire, List.range'_1_concat,
          List.flatMap_append, List.append_assoc, List.flatMap_singleton]
        rfl
    · obtain rfl := Option.some.inj hs
      refine ⟨⟨n, h.sent, h.below, .inr ⟨rfl, by omega⟩, h.received,
        fun he => absurd he hopen, ?_⟩, rfl, rfl⟩
      rw [marker_ended hopen, ← List.append_assoc, hwire, List.append_assoc]
  · simp [Stream.send, hended] at hs

theorem Carries.deliver (h : Carries file header k r n st) {l : Nat}
    (hs : st.deliver l = some st') :
    Carries file header k r n st' ∧ st'.receiving = st.receiving ∧ st'.written = st.written := by
  rw [Stream.deliver] at hs
  split_ifs at hs
  obtain rfl := Option.some.inj hs
  refine ⟨⟨h.sent, h.below, h.sending, h.received, h.ended, ?_⟩, rfl, rfl⟩
  rw [List.append_assoc, List.take_append_drop]
  exact h.wire

/-- The header is taken off the wire. -/
theorem Carries.takeHeader (h : Carries file header k r n st) {arrived : Bytes}
    (harrived : arrived ++ st.inFlight =
      (List.range' r n).flatMap (frame file k) ++ marker st.sending st.receiving) :
    Carries file [] k r n { st with arrived } where
  sent := h.sent
  below := h.below
  sending := h.sending
  received := h.received
  ended := h.ended
  wire := harrived

theorem Carries.closed (h : Carries file header k r n st) (hs : st.closed = true) :
    st.sending = .ended ∧ st.inFlight = [] := by
  rcases h.sending with hrun | ⟨hended, -⟩
  · simp [Stream.closed, hrun] at hs
  · refine ⟨hended, ?_⟩
    simpa [Stream.closed, hended] using hs

/-- What is on the wire and has not arrived comes from an open stream. -/
theorem Carries.closed_eq_false (h : Carries file header k r n st) {front rest : Bytes}
    (hfront : st.arrived ++ st.inFlight = front ++ rest)
    (hlt : st.arrived.length < front.length) : st.closed = false := by
  by_contra hclosed
  obtain ⟨-, hnil⟩ := h.closed (Bool.not_eq_false _ ▸ hclosed)
  have hlen := congrArg List.length hfront
  rw [hnil, List.append_nil, List.length_append] at hlen
  omega

/-- A frame at the front of the wire is received, or has not arrived. -/
theorem Carries.recv_frame (h : Carries file [] k r n st) {index : Nat} {data rest : Bytes}
    (hreads : Reads recvChunk (index, data) (sendChunk index data))
    (hfront : st.arrived ++ st.inFlight = sendChunk index data ++ rest) :
    (recvChunk st.arrived = .short ∧ st.closed = false) ∨
      ∃ arrived, recvChunk st.arrived = .ok (index, data) arrived ∧
        arrived ++ st.inFlight = rest :=
  (hreads.split hfront).imp_left fun ⟨hshort, hlt⟩ => ⟨hshort, h.closed_eq_false hfront hlt⟩

theorem Carries.recv (h : Carries file [] k r n st) (hsize : file.size < 2 ^ 63)
    (hs : st.recv chunkSize = some st') :
    (∃ r' n', Carries file [] k r' n' st') ∧ st'.written = st.written := by
  have hreading : st.receiving = .reading := by
    cases hr : st.receiving with
    | reading => rfl
    | writing index offset data | ended | failed | panicked => simp [Stream.recv, hr] at hs
  have hopen : st.receiving ≠ .ended := by simp [hreading]
  have hwritten := Received.of_reading (hreading ▸ h.received)
  have hwire := h.wire
  rw [List.nil_append] at hwire
  simp only [Stream.recv, hreading] at hs
  cases n with
  | succ n =>
      -- the next chunk of the stream
      have hlt : stripe k r < chunkCount file := h.below r (show r < r + (n + 1) by omega)
      rw [List.range'_succ, List.flatMap_cons, List.append_assoc] at hwire
      rcases h.recv_frame (chunk_reads hsize hlt) hwire with ⟨hshort, hnot⟩ | ⟨rest, hok, hrest⟩
      · simp [hshort, hnot] at hs
      · simp only [hok, ne_marker hsize hlt, if_false, checkedMul_chunk hsize hlt,
          Option.some.injEq] at hs
        subst hs
        have hshift : r + 1 + n = r + (n + 1) := by omega
        refine ⟨⟨r + 1, n, ?_, ?_, ?_, ?_, by simp, ?_⟩, rfl⟩
        · rw [hshift]
          exact h.sent
        · rw [hshift]
          exact h.below
        · rw [hshift]
          exact h.sending
        · rw [hwritten]
          exact .writing r
        · rw [List.nil_append, marker_congr st.sending (by simp) hopen]
          exact hrest
  | zero =>
      simp only [List.range'_zero, List.flatMap_nil, List.nil_append] at hwire
      rcases h.sending with hrun | ⟨hended, hall⟩
      · -- nothing is on the wire
        rw [hrun, marker_running] at hwire
        have hnil : st.arrived = [] := (List.append_eq_nil_iff.mp hwire).1
        have hshort : recvChunk [] = .short := rfl
        simp [hnil, hshort, Stream.closed, hrun] at hs
      · rw [hended, marker_ended hopen] at hwire
        have hfront : st.arrived ++ st.inFlight = sendChunk u64Max [] ++ [] := by
          rw [hwire, List.append_nil]
        rcases h.recv_frame marker_reads hfront with ⟨hshort, hnot⟩ | ⟨rest, hok, hrest⟩
        · simp [hshort, hnot] at hs
        · simp only [hok, if_true, Option.some.injEq] at hs
          subst hs
          refine ⟨⟨r, 0, h.sent, h.below, .inr ⟨hended, hall⟩, ?_, fun _ => ⟨rfl, hended⟩, ?_⟩, rfl⟩
          · rw [hwritten]
            exact .ended r
          · rw [marker_received]
            simpa using hrest

/-- A write puts one chunk of the file in its place; the output file is long
enough, as it was made with its full size. -/
theorem Carries.write (h : Carries file header k r n st) {output output' : Bytes}
    (hlength : output.length = file.bytes.length) (hs : st.write output = some (st', output')) :
    Carries file header k r n st' ∧ ∃ i < chunkCount file, st'.written = st.written ++ [i] ∧
      output' = overwrite output (i * chunkSize) (chunk file i) := by
  cases hrecv : st.receiving with
  | reading | ended | failed | panicked => simp [Stream.write, hrecv] at hs
  | writing index offset data =>
      obtain ⟨m, rfl, rfl, rfl, rfl, hwritten⟩ := Received.of_writing (hrecv ▸ h.received)
      simp only [Stream.write, hrecv, Option.some.injEq, Prod.mk.injEq] at hs
      obtain ⟨rfl, rfl⟩ := hs
      have hlt : stripe k m < chunkCount file := h.below m (by omega)
      have hle : stripe k m * chunkSize ≤ file.bytes.length := (lt_chunkCount.mp hlt).le
      refine ⟨⟨h.sent, h.below, h.sending, ?_, by simp, ?_⟩, stripe k m, hlt, rfl, ?_⟩
      · have hnext : st.written ++ [stripe k m] = (List.range (m + 1)).map (stripe k) := by
          rw [hwritten, List.range_succ, List.map_append]
          rfl
        rw [hnext]
        exact .reading (m + 1)
      · have hopen : st.receiving ≠ .ended := by simp [hrecv]
        rw [marker_congr st.sending (by simp) hopen]
        exact h.wire
      · have hfit : stripe k m * chunkSize + (chunk file (stripe k m)).length - output.length
            = 0 := by
          rw [length_chunk, hlength, SourceFile.size]
          omega
        rw [seekWrite, if_neg (chunk_ne_nil hlt), hfit, List.replicate_zero, List.append_nil]

end Stream

/-! ## The whole transfer -/

/-- The header message, until the receiver has read it. -/
def headerBytes (lib : Libraries) (file : SourceFile) (s : Striped) (k : Nat) : Bytes :=
  if k = 0 ∧ s.phase = .awaiting then
    sendMessage (lib.toVec (fileHeader lib file (chunkCount file)))
  else []

/-- What `serde_json` does for the tool: the header is read back, and its text
is shorter than 4 GiB. -/
structure HeaderFits (lib : Libraries) (file : SourceFile) : Prop where
  fromSlice : lib.fromSlice (lib.toVec (fileHeader lib file (chunkCount file))) =
    some (fileHeader lib file (chunkCount file))
  length : (lib.toVec (fileHeader lib file (chunkCount file))).length < 2 ^ 32

namespace Striped

/-- **The invariant of the transfer**, with the receiver's streams in the order
of the sender's. -/
structure Striping (lib : Libraries) (file : SourceFile) (s : Striped) : Prop where
  total : s.totalChunks = chunkCount file
  first : s.first = 0
  length : s.streams.length = numStreams
  streams : ∀ k st, s.streams[k]? = some st →
    ∃ r n, Carries file (headerBytes lib file s k) k r n st
  receiver : (s.phase = .awaiting ∧ ∀ st ∈ s.streams, st.receiving = .reading ∧ st.written = []) ∨
    (s.phase = .running (fileHeader lib file (chunkCount file)) ∧
      Filled chunkSize file.bytes s.output fun i => ∃ st ∈ s.streams, i ∈ st.written)

section Steps

variable {lib : Libraries} {file : SourceFile} {s : Striped} {k : Nat} {st st' : Stream}

/-- A stream changes, and nothing is written. -/
theorem Striping.setStream (h : Striping lib file s) (hk : s.streams[k]? = some st)
    (hcarries : ∃ r n, Carries file (headerBytes lib file s k) k r n st')
    (hreceiving : s.phase = .awaiting → st'.receiving = st.receiving)
    (hwritten : st'.written = st.written) : Striping lib file (s.setStream k st') where
  total := h.total
  first := h.first
  length := by
    rw [Striped.setStream, List.length_set]
    exact h.length
  streams j v hv := by
    rcases Tally.getElem?_set_cases hv with ⟨rfl, rfl⟩ | ⟨-, hv⟩
    · exact hcarries
    · exact h.streams j v hv
  receiver := by
    have hmem := List.mem_of_getElem? hk
    refine h.receiver.imp (fun ⟨hphase, hall⟩ => ⟨hphase, ?_⟩) fun ⟨hphase, hfilled⟩ =>
      ⟨hphase, hfilled.mono ?_⟩
    · apply Tally.forall_mem_set hall
      rw [hreceiving hphase, hwritten]
      exact hall st hmem
    · rintro i ⟨v, hv, hi⟩
      rcases List.mem_or_eq_of_mem_set hv with hv | rfl
      · exact ⟨v, hv, hi⟩
      · exact ⟨st, hmem, hwritten ▸ hi⟩

/-- The header is read off the first stream, and the output file made. -/
theorem Striping.recvHeader {s' : Striped} (h : Striping lib file s) (hfits : HeaderFits lib file)
    (hphase : s.phase = .awaiting)
    (hall : ∀ st ∈ s.streams, st.receiving = .reading ∧ st.written = [])
    (hk : s.streams[0]? = some st) (hs : s.recvHeader lib st = some s') :
    Striping lib file s' := by
  obtain ⟨r, n, hc⟩ := h.streams 0 st hk
  have hwire := hc.wire
  rw [headerBytes, if_pos ⟨rfl, hphase⟩] at hwire
  rcases (recvMessage_reads hfits.length).split hwire with ⟨hshort, hlt⟩ | ⟨rest, hok, hrest⟩
  · -- not all of the header has arrived
    simp [Striped.recvHeader, hshort, hc.closed_eq_false hwire hlt] at hs
  · simp only [Striped.recvHeader, hok, hfits.fromSlice, Option.some.injEq, h.first] at hs
    subst hs
    refine ⟨h.total, h.first, ?_, ?_, .inr ⟨rfl, List.length_replicate, ?_⟩⟩
    · rw [Striped.setStream, List.length_set]
      exact h.length
    · intro j v hv
      rw [headerBytes, if_neg (by simp)]
      rcases Tally.getElem?_set_cases hv with ⟨rfl, rfl⟩ | ⟨hj, hv⟩
      · exact ⟨r, n, hc.takeHeader hrest⟩
      · obtain ⟨r', n', hc'⟩ := h.streams j v hv
        rw [headerBytes, if_neg fun hj0 => hj hj0.1] at hc'
        exact ⟨r', n', hc'⟩
    · -- no chunk has been written so far
      rintro i ⟨v, hv, hi⟩
      have hnone : v.written = [] :=
        Tally.forall_mem_set (p := fun v => v.written = []) (fun v hv => (hall v hv).2)
          (hall st (List.mem_of_getElem? hk)).2 v hv
      exact absurd (hnone ▸ hi) List.not_mem_nil

/-- A chunk is written to the output file. -/
theorem Striping.write {output : Bytes} (h : Striping lib file s)
    (hphase : s.phase = .running (fileHeader lib file (chunkCount file)))
    (hfilled : Filled chunkSize file.bytes s.output fun i => ∃ st ∈ s.streams, i ∈ st.written)
    (hk : s.streams[k]? = some st) (hst : st.write s.output = some (st', output)) :
    Striping lib file { s.setStream k st' with output } := by
  obtain ⟨r, n, hc⟩ := h.streams k st hk
  obtain ⟨hc', i, hlt, hwritten, rfl⟩ := hc.write hfilled.length hst
  refine ⟨h.total, h.first, ?_, ?_,
    .inr ⟨hphase, hfilled.write (lt_chunkCount.mp hlt).le ?_⟩⟩
  · rw [Striped.setStream, List.length_set]
    exact h.length
  · intro j v hv
    rcases Tally.getElem?_set_cases hv with ⟨rfl, rfl⟩ | ⟨-, hv⟩
    · exact ⟨r, n, hc'⟩
    · exact h.streams j v hv
  · rintro j ⟨v, hv, hj⟩
    rcases List.mem_or_eq_of_mem_set hv with hv | rfl
    · exact .inl ⟨v, hv, hj⟩
    · rw [hwritten] at hj
      rcases List.mem_append.mp hj with hj | hj
      · exact .inl ⟨st, List.mem_of_getElem? hk, hj⟩
      · exact .inr (List.mem_singleton.mp hj)

/-- A step of one stream, or the reading of the header, keeps the invariant. -/
theorem Striping.step {s' : Striped} {a : Action} (h : Striping lib file s)
    (hsize : file.size < 2 ^ 63) (hfits : HeaderFits lib file)
    (hs : step lib file s a = some s') : Striping lib file s' := by
  cases a with
  | send k =>
      obtain ⟨st, hk, hs⟩ := Option.bind_eq_some_iff.mp hs
      obtain ⟨st', hst, hs⟩ := Option.bind_eq_some_iff.mp hs
      obtain rfl := Option.some.inj hs
      obtain ⟨r, n, hc⟩ := h.streams k st hk
      rw [h.total] at hst
      obtain ⟨⟨n', hc'⟩, hreceiving, hwritten⟩ := hc.send hsize hst
      exact h.setStream hk ⟨r, n', hc'⟩ (fun _ => hreceiving) hwritten
  | deliver k l =>
      obtain ⟨st, hk, hs⟩ := Option.bind_eq_some_iff.mp hs
      obtain ⟨st', hst, hs⟩ := Option.bind_eq_some_iff.mp hs
      obtain rfl := Option.some.inj hs
      obtain ⟨r, n, hc⟩ := h.streams k st hk
      obtain ⟨hc', hreceiving, hwritten⟩ := hc.deliver hst
      exact h.setStream hk ⟨r, n, hc'⟩ (fun _ => hreceiving) hwritten
  | recvHeader =>
      rcases h.receiver with ⟨hphase, hall⟩ | ⟨hphase, -⟩
      · simp only [Striped.step, hphase, h.first] at hs
        obtain ⟨st, hk, hs⟩ := Option.bind_eq_some_iff.mp hs
        exact h.recvHeader hfits hphase hall hk hs
      · simp [Striped.step, hphase] at hs
  | recv k =>
      rcases h.receiver with ⟨hphase, -⟩ | ⟨hphase, -⟩
      · simp [Striped.step, hphase] at hs
      · simp only [Striped.step, hphase] at hs
        obtain ⟨st, hk, hs⟩ := Option.bind_eq_some_iff.mp hs
        obtain ⟨st', hst, hs⟩ := Option.bind_eq_some_iff.mp hs
        obtain rfl := Option.some.inj hs
        obtain ⟨r, n, hc⟩ := h.streams k st hk
        have hnone : headerBytes lib file s k = [] := if_neg (by simp [hphase])
        rw [hnone] at hc
        obtain ⟨hc', hwritten⟩ := hc.recv hsize hst
        exact h.setStream hk (hnone ▸ hc') (fun hp => by simp [hphase] at hp) hwritten
  | write k =>
      obtain ⟨st, hk, hs⟩ := Option.bind_eq_some_iff.mp hs
      obtain ⟨⟨st', output⟩, hst, hs⟩ := Option.bind_eq_some_iff.mp hs
      obtain rfl := Option.some.inj hs
      rcases h.receiver with ⟨-, hall⟩ | ⟨hphase, hfilled⟩
      · simp [Stream.write, (hall st (List.mem_of_getElem? hk)).1] at hst
      · exact h.write hphase hfilled hk hst

theorem striping_start (lib : Libraries) (file : SourceFile) (hsize : file.size < 2 ^ 63) :
    ∃ s, start lib file 0 = some s ∧ Striping lib file s := by
  refine ⟨_, by rw [start, totalChunks_eq hsize, Option.bind_eq_bind, Option.bind_some], rfl, rfl,
    by rw [List.length_map, List.length_range], ?_, .inl ⟨rfl, ?_⟩⟩
  · intro k st hk
    obtain ⟨j, hj, rfl⟩ := Option.map_eq_some_iff.mp (List.getElem?_map .. ▸ hk)
    obtain ⟨-, rfl⟩ := List.getElem?_eq_some_iff.mp hj
    refine ⟨0, 0, rfl, by simp, .inl ?_, .reading 0, by simp, ?_⟩
    · simp [stripe]
    · simp [headerBytes, marker_running]
  · intro st hst
    obtain ⟨j, -, rfl⟩ := List.mem_map.mp hst
    exact ⟨rfl, rfl⟩

end Steps

end Striped

end FastTransfer.Cli
