import FastTransfer.Lib.BigEndian
import FastTransfer.Lib.Tiling

/-!
# Chunks and frames of the browser transfer

The data of `web/static/js/transfer.js`: the constants, the file and its
file-info, and the two ways `_readBatch` builds the frames of a batch (one
read for each retried index, one bulk read for a contiguous claim). Both
build the same frame for an index: the 4-byte big-endian index followed by
the payload, the index-th block of `chunkPayloadSize` bytes of the file.
-/

namespace FastTransfer.Web

open Tiling

/-- A `Uint8Array`. -/
abbrev Bytes := List UInt8

/-- `CHUNK_PAYLOAD_SIZE`: bytes of file data per chunk. -/
def chunkPayloadSize : Nat := 64 * 1024 - 4

/-- `CHUNK_SIZE`: the alias used by the totalChunks calculation. -/
def chunkSize : Nat := chunkPayloadSize

/-- `NUM_P2P`: WebRTC P2P connections. -/
def numP2P : Nat := 4

/-- `NUM_RELAY`: WebSocket relay connections. -/
def numRelay : Nat := 8

/-- `BATCH_SIZE`: chunks per batch (one disk read). -/
def batchSize : Nat := 64

/-- `P2P_BUF_HIGH`: P2P pause threshold. -/
def p2pBufHigh : Nat := 1 * 1024 * 1024

/-- `RELAY_BUF_HIGH`: relay pause threshold. -/
def relayBufHigh : Nat := 8 * 1024 * 1024

/-- A browser `File`: what the engine reads of it. -/
structure File where
  name : String
  type : String
  bytes : Bytes
  deriving DecidableEq

/-- `file.size`. -/
def File.size (file : File) : Nat := file.bytes.length

/-- The payload of the file-info message. -/
structure FileInfo where
  name : String
  size : Nat
  type : String
  totalChunks : Nat
  deriving DecidableEq

/-- `Math.ceil(file.size / CHUNK_SIZE)`. A file size is an integer below
`2 ^ 53`, where the floating-point quotient rounds up to the same integer. -/
def totalChunks (file : File) : Nat := blockCount chunkSize file.size

/-- `this.fileInfo`, as `createOffer` sets it. -/
def fileInfo (file : File) : FileInfo where
  name := file.name
  size := file.size
  type := if file.type = "" then "application/octet-stream" else file.type
  totalChunks := totalChunks file

/-- An entry of a batch: the wire frame, its payload length, its index. -/
structure Entry where
  data : Bytes
  size : Nat
  index : Nat
  deriving DecidableEq

/-- `DataView.setUint32(0, chunkIdx)`: big-endian, modulo `2 ^ 32`. -/
def setUint32 (chunkIdx : Nat) : Bytes := BigEndian.toBytes 4 chunkIdx

/-- `DataView.getUint32(0)`. -/
def getUint32 (data : Bytes) : Nat := BigEndian.toNat (data.take 4)

/-- One turn of the per-index loop of `_readBatch` (retried chunks). -/
def readChunk (file : File) (chunkIdx : Nat) : Entry :=
  let start := chunkIdx * chunkPayloadSize
  let fin := min (start + chunkPayloadSize) file.size
  let buf := slice file.bytes start fin
  { data := setUint32 chunkIdx ++ buf, size := buf.length, index := chunkIdx }

/-- The bulk read of `_readBatch`: one read, cut into `count` frames. -/
def readBulk (file : File) (startIdx count : Nat) : List Entry :=
  let byteStart := startIdx * chunkPayloadSize
  let byteEnd := min ((startIdx + count) * chunkPayloadSize) file.size
  let bigBuf := slice file.bytes byteStart byteEnd
  (List.range count).map fun i =>
    let chunkIdx := startIdx + i
    let offset := i * chunkPayloadSize
    let fin := min (offset + chunkPayloadSize) bigBuf.length
    let chunkLen := fin - offset
    { data := setUint32 chunkIdx ++ slice bigBuf offset fin, size := chunkLen,
      index := chunkIdx }

/-! ## The payload of an index -/

/-- What the chunk of an index carries: its block of the file. -/
def payload (file : File) (i : Nat) : Bytes := block chunkPayloadSize file.bytes i

theorem chunkPayloadSize_pos : 0 < chunkPayloadSize := by decide

theorem totalChunks_eq_zero {file : File} : totalChunks file = 0 ↔ file.bytes = [] := by
  rw [totalChunks, blockCount_eq_zero (by decide), File.size, List.length_eq_zero_iff]

/-- The payloads tile the file. -/
theorem flatMap_payload (file : File) :
    (List.range (totalChunks file)).flatMap (payload file) = file.bytes :=
  flatMap_block file.bytes chunkPayloadSize_pos

theorem payloads_below (file : File) (k : Nat) :
    (List.range k).flatMap (payload file) <+: file.bytes :=
  blocks_below _ _ _

/-! ## Both read paths build the same frame -/

@[simp] theorem readChunk_index (file : File) (i : Nat) : (readChunk file i).index = i := rfl

theorem readChunk_data (file : File) (i : Nat) :
    (readChunk file i).data = setUint32 i ++ payload file i := by
  simp [readChunk, payload, block, File.size]

theorem readChunk_size (file : File) (i : Nat) :
    (readChunk file i).size = (payload file i).length := by
  simp [readChunk, payload, block, File.size]

/-- The bulk read cuts out, for each claimed index, the frame that a read of
this index alone would build. -/
theorem readBulk_eq (file : File) (startIdx count : Nat) :
    readBulk file startIdx count =
      (List.range count).map fun i => readChunk file (startIdx + i) := by
  apply List.map_congr_left
  intro i hi
  have hi : i < count := List.mem_range.mp hi
  -- the frame ends at the end of its block or at the end of the file, whichever is first
  have hend : (startIdx + i) * chunkPayloadSize + chunkPayloadSize
      ≤ (startIdx + count) * chunkPayloadSize := by
    rw [← Nat.succ_mul]
    exact Nat.mul_le_mul_right _ (by omega)
  -- the end of the frame in the file, also when the bulk buffer is cut short by it
  have hfin : min (startIdx * chunkPayloadSize + (i * chunkPayloadSize + chunkPayloadSize))
      (min ((startIdx + count) * chunkPayloadSize) file.size)
      = min ((startIdx + i) * chunkPayloadSize + chunkPayloadSize) file.size := by
    rw [← Nat.min_assoc, ← Nat.add_assoc, ← Nat.add_mul, Nat.min_eq_left hend]
  have hcut : slice (slice file.bytes (startIdx * chunkPayloadSize)
        (min ((startIdx + count) * chunkPayloadSize) file.size)) (i * chunkPayloadSize)
        (i * chunkPayloadSize + chunkPayloadSize) = payload file (startIdx + i) := by
    rw [slice_of_slice, hfin, File.size, slice_min_length, ← Nat.add_mul, payload, block]
  have hdata := hcut
  rw [← slice_min_length] at hdata
  have hsize := congrArg List.length hdata
  rw [length_slice, Nat.min_assoc, Nat.min_self] at hsize
  simp only [hdata, hsize]
  rw [← readChunk_data, ← readChunk_size]
  rfl

/-- What the receiver decodes from a frame: the index modulo `2 ^ 32` and the payload. -/
theorem decode_readChunk (file : File) (i : Nat) :
    getUint32 (readChunk file i).data = i % 2 ^ 32 ∧
      (readChunk file i).data.drop 4 = payload file i := by
  have hlen : (setUint32 i).length = 4 := BigEndian.length_toBytes 4 i
  rw [readChunk_data, getUint32, List.take_left' hlen, List.drop_left' hlen, setUint32,
    BigEndian.toNat_toBytes]
  exact ⟨rfl, rfl⟩

/-- A file of one chunk, for the runs on fixed inputs. -/
def oneByteFile : File := ⟨"a.txt", "text/plain", [7]⟩

theorem totalChunks_oneByteFile : totalChunks oneByteFile = 1 := by decide

end FastTransfer.Web
