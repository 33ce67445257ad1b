import FastTransfer.Cli.Protocol

/-!
# The frames of a whole stream

Which byte strings `recv_chunk` takes for a chunk, and what the receiving loop of
`receive_file` reads from the first stream of `send_file`: a message, chunks, and
the chunk of index `u64::MAX` that ends them.
-/

namespace FastTransfer.Cli

open Framing

/-! ## What a chunk is -/

/-- The string starts with the frame of a chunk, as `send_chunk` writes it. -/
def StartsWith (s : Bytes) (index : Nat) (data rest : Bytes) : Prop :=
  s = sendChunk index data ++ rest ∧ index ≤ u64Max ∧ 8 + data.length < 2 ^ 32

/-- **`recv_chunk` accepts exactly the frames of chunks.** -/
theorem recvChunk_eq_ok_iff (s : Bytes) (index : Nat) (data rest : Bytes) :
    recvChunk s = .ok (index, data) rest ↔ StartsWith s index data rest := by
  constructor
  · intro h
    obtain ⟨lenBuf, s₁, rfl, hlen, h⟩ := Reader.onStream_exact_eq_ok h
    obtain ⟨indexBuf, s₂, rfl, hindex, h⟩ := Reader.onStream_exact_eq_ok h
    cases hsub : checkedSub (BigEndian.toNat lenBuf) 8 with
    | none => simp [hsub, Reader.onStream] at h
    | some dataLen =>
        simp only [hsub] at h
        obtain ⟨data', s₃, rfl, hdata, h⟩ := Reader.onStream_exact_eq_ok h
        obtain ⟨heq, rfl⟩ := Decoded.ok.inj h
        obtain ⟨rfl, rfl⟩ := Prod.mk.inj heq
        rw [checkedSub] at hsub
        split_ifs at hsub with hle
        have htotal : BigEndian.toNat lenBuf = 8 + data'.length := by
          have := Option.some.inj hsub
          omega
        have hlenLt := BigEndian.toNat_lt lenBuf
        have hindexLt := BigEndian.toNat_lt indexBuf
        rw [hlen] at hlenLt
        rw [hindex] at hindexLt
        refine ⟨?_, ?_, htotal ▸ hlenLt⟩
        · rw [sendChunk, ← htotal, ← hlen, BigEndian.toBytes_toNat, ← hindex,
            BigEndian.toBytes_toNat, List.append_assoc, List.append_assoc]
        · exact Nat.le_of_lt_succ (hindexLt.trans_eq (by decide))
  · rintro ⟨rfl, hindex, hdata⟩
    exact (recvChunk_reads hindex hdata).whole rest

/-- What should hold of `recv_chunk` on a string, followed by the end of the stream:
it takes the frame of a chunk, and gives an error on anything else. -/
structure TakesFrames (s : Bytes) : Prop where
  accepts : ∀ index data rest, recvChunk s = .ok (index, data) rest ↔ StartsWith s index data rest
  /-- At the end of the stream `.short` is the `Err` of `read_exact`, which does not
  get all its bytes and returns `UnexpectedEof`; `recv_chunk` passes it on. -/
  rejects : (∀ index data rest, ¬ StartsWith s index data rest) → recvChunk s = .short

/-- The panic: eight bytes for the index are there, and the length does not
count them. -/
theorem recvChunk_eq_failed_iff (s : Bytes) :
    recvChunk s = .failed ↔ 12 ≤ s.length ∧ BigEndian.toNat (s.take 4) < 8 := by
  rw [recvChunk, chunkReader]
  by_cases h4 : 4 ≤ s.length
  · rw [Reader.onStream_exact_of_le h4]
    by_cases h8 : 8 ≤ (s.drop 4).length
    · have h12 : 12 ≤ s.length := by
        rw [List.length_drop] at h8
        omega
      rw [Reader.onStream_exact_of_le h8]
      by_cases hsub : 8 ≤ BigEndian.toNat (s.take 4)
      · rw [checkedSub, if_pos hsub]
        refine iff_of_false ?_ fun h => absurd h.2 (by omega)
        dsimp only
        rw [Reader.onStream]
        split_ifs <;> simp [Reader.onStream]
      · rw [checkedSub, if_neg hsub]
        exact iff_of_true rfl ⟨h12, by omega⟩
    · rw [Reader.onStream_exact_of_lt (by omega)]
      rw [List.length_drop] at h8
      exact iff_of_false (by simp) fun h => absurd h.1 (by omega)
  · rw [Reader.onStream_exact_of_lt (by omega)]
    exact iff_of_false (by simp) fun h => absurd h.1 (by omega)

/-- **No panic**: on a byte string `recv_chunk` does what it should exactly
unless its first four bytes are a length below 8 and eight more bytes follow. -/
theorem takes_frames_iff (s : Bytes) :
    TakesFrames s ↔ (12 ≤ s.length → 8 ≤ BigEndian.toNat (s.take 4)) := by
  constructor
  · intro h hlong
    by_contra hlt
    have hfailed := (recvChunk_eq_failed_iff s).mpr ⟨hlong, by omega⟩
    have hnone : ∀ index data rest, ¬ StartsWith s index data rest := by
      intro index data rest hframe
      have hok := (h.accepts index data rest).mpr hframe
      rw [hfailed] at hok
      cases hok
    have hshort := h.rejects hnone
    rw [hfailed] at hshort
    cases hshort
  · intro h
    refine ⟨recvChunk_eq_ok_iff s, fun hnone => ?_⟩
    cases hread : recvChunk s with
    | ok chunk rest => exact absurd ((recvChunk_eq_ok_iff s _ _ _).mp hread) (hnone _ _ _)
    | short => rfl
    | failed =>
        obtain ⟨hlong, hlt⟩ := (recvChunk_eq_failed_iff s).mp hread
        exact absurd (h hlong) (by omega)

/-- Twelve zero bytes: a length of 0, and an index. -/
theorem not_takes_frames_zeros : ¬ ∀ s : Bytes, TakesFrames s := by
  intro h
  have hshort := (h (List.replicate 12 0)).rejects fun index data rest hframe => by
    have hok := (recvChunk_eq_ok_iff _ index data rest).mpr hframe
    rw [(by decide : recvChunk (List.replicate 12 0) = .failed)] at hok
    cases hok
  exact absurd hshort (by decide)

/-! ## The whole stream -/

/-- The loop of `receive_file` on one stream, with the chunks it writes; fails
when the fuel is used up, or by the panic in `recv_chunk`. -/
def recvChunks : Nat → Reader (List (Nat × Bytes)) UInt8
  | 0 => .failed
  | fuel + 1 =>
      chunkReader.bind fun chunk =>
        -- End-of-stream marker
        if chunk.1 = u64Max then .ok []
        else (recvChunks fuel).bind fun chunks => .ok (chunk :: chunks)

/-- `receive_file` on its first stream: the header, then the loop. -/
def recvFirst (fuel : Nat) : Reader (Bytes × List (Nat × Bytes)) UInt8 :=
  messageReader.bind fun header => (recvChunks fuel).bind fun chunks => .ok (header, chunks)

/-- A task of `send_file`: its chunks, and the end-of-stream marker. -/
def sendChunks (chunks : List (Nat × Bytes)) : Bytes :=
  chunks.flatMap (fun chunk => sendChunk chunk.1 chunk.2) ++ sendChunk u64Max []

/-- `send_file` on its first stream. -/
def sendFirst (header : Bytes) (chunks : List (Nat × Bytes)) : Bytes :=
  sendMessage header ++ sendChunks chunks

theorem sendChunks_cons (chunk : Nat × Bytes) (chunks : List (Nat × Bytes)) :
    sendChunks (chunk :: chunks) = sendChunk chunk.1 chunk.2 ++ sendChunks chunks := by
  unfold sendChunks
  rw [List.flatMap_cons, List.append_assoc]

/-- What `send_file` may send for a chunk. -/
def IsChunk (chunk : Nat × Bytes) : Prop := chunk.1 < u64Max ∧ chunk.2.length ≤ chunkSize

instance (chunk : Nat × Bytes) : Decidable (IsChunk chunk) := inferInstanceAs (Decidable (_ ∧ _))

theorem IsChunk.reads {chunk : Nat × Bytes} (h : IsChunk chunk) :
    Reads chunkReader.onStream chunk (sendChunk chunk.1 chunk.2) := by
  apply recvChunk_reads (Nat.le_of_lt h.1)
  have hdata := h.2
  unfold chunkSize at hdata
  omega

/-- **The loop reads the chunks of a task**, and stops at its marker. -/
theorem recvChunks_reads {chunks : List (Nat × Bytes)} {fuel : Nat}
    (hchunks : ∀ chunk ∈ chunks, IsChunk chunk) (hfuel : chunks.length < fuel) :
    Reads (recvChunks fuel).onStream chunks (sendChunks chunks) := by
  induction chunks generalizing fuel with
  | nil =>
      cases fuel with
      | zero => exact absurd hfuel (Nat.not_lt_zero _)
      | succ fuel =>
          rw [recvChunks, show sendChunks [] = sendChunk u64Max [] ++ [] from rfl]
          apply Reads.bind marker_reads
          rw [if_pos rfl]
          exact reads_ok []
  | cons chunk chunks ih =>
      cases fuel with
      | zero => exact absurd hfuel (Nat.not_lt_zero _)
      | succ fuel =>
          have hchunk := hchunks chunk (List.mem_cons_self)
          have hrest := ih (fun c hc => hchunks c (List.mem_cons_of_mem _ hc))
            (Nat.lt_of_succ_lt_succ hfuel)
          rw [recvChunks, sendChunks_cons]
          apply hchunk.reads.bind
          rw [if_neg (Nat.ne_of_lt hchunk.1), ← List.append_nil (sendChunks chunks)]
          exact hrest.bind (reads_ok _)

theorem recvFirst_reads {header : Bytes} {chunks : List (Nat × Bytes)} {fuel : Nat}
    (hheader : header.length < 2 ^ 32) (hchunks : ∀ chunk ∈ chunks, IsChunk chunk)
    (hfuel : chunks.length < fuel) :
    Reads (recvFirst fuel).onStream (header, chunks) (sendFirst header chunks) := by
  have hmessage : Reads messageReader.onStream header (sendMessage header) :=
    recvMessage_reads hheader
  rw [recvFirst, sendFirst]
  apply hmessage.bind
  rw [← List.append_nil (sendChunks chunks)]
  exact (recvChunks_reads hchunks hfuel).bind (reads_ok _)

/-- **The round trip of a stream.** In whatever pieces it arrives, the first
stream of `send_file` is read back as its header and its chunks, to its last
byte; if it breaks off anywhere, the end marker is not reached. -/
theorem first_stream_read_back {header : Bytes} {chunks : List (Nat × Bytes)}
    (hheader : header.length < 2 ^ 32) (hchunks : ∀ chunk ∈ chunks, IsChunk chunk)
    {fuel : Nat} (hfuel : chunks.length < fuel) (pieces : List Bytes) :
    (pieces.flatten = sendFirst header chunks →
      ∃ rest, (recvFirst fuel).onPieces pieces = .ok (header, chunks) rest ∧ rest.flatten = []) ∧
    (pieces.flatten <+: sendFirst header chunks → pieces.flatten ≠ sendFirst header chunks →
      (recvFirst fuel).onPieces pieces = .short) := by
  have hreads := recvFirst_reads hheader hchunks hfuel
  constructor
  · intro hwhole
    exact hreads.onPieces hwhole
  · intro hpart hne
    exact hreads.onPieces_short hpart hne

/-- A header of two bytes and two chunks, byte by byte, and without the last byte. -/
theorem first_stream_read_back_bytes :
    (∃ rest, (recvFirst 3).onPieces ((sendFirst [7, 8] [(0, [1]), (8, [])]).map fun b => [b]) =
      .ok ([7, 8], [(0, [1]), (8, [])]) rest ∧ rest.flatten = []) ∧
    (recvFirst 3).onPieces ((sendFirst [7, 8] [(0, [1]), (8, [])]).dropLast.map fun b => [b]) =
      .short :=
  have h := @first_stream_read_back [7, 8] [(0, [1]), (8, [])] (by decide) (by decide) 3
    (by decide)
  ⟨(h _).1 (by decide), (h _).2 (by decide) (by decide)⟩

end FastTransfer.Cli
