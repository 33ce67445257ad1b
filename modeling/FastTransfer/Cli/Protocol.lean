import FastTransfer.Lib.BigEndian
import FastTransfer.Lib.Framing

/-!
# The wire protocol of the command line tool

`cli/src/protocol.rs`: the constants, the file header, and the framing of
messages and chunks on a TCP stream. A sending function is the bytes that it
writes; a receiving function reads from what has arrived of the stream.
-/

namespace FastTransfer.Cli

open Framing

/-- A `Vec<u8>`, or a part of a stream. -/
abbrev Bytes := List UInt8

/-- `NUM_STREAMS`: number of parallel TCP streams for transfer. -/
def numStreams : Nat := 8

/-- `CHUNK_SIZE`: 1MB for native TCP. -/
def chunkSize : Nat := 1024 * 1024

/-- `u64::MAX`, the index of the end-of-stream marker. -/
def u64Max : Nat := 2 ^ 64 - 1

/-- File metadata sent before transfer begins. -/
structure FileHeader where
  name : String
  size : Nat
  totalChunks : Nat
  numStreams : Nat
  chunkSize : Nat
  checksum : String
  deriving DecidableEq

/-! ## Arithmetic on 64 bits

`none` is the panic on overflow.
-/

/-- `a + b` on `u64`. -/
def checkedAdd (a b : Nat) : Option Nat := if a + b ≤ u64Max then some (a + b) else none

/-- `a - b` on `u64`. -/
def checkedSub (a b : Nat) : Option Nat := if b ≤ a then some (a - b) else none

/-- `a * b` on `u64`. -/
def checkedMul (a b : Nat) : Option Nat := if a * b ≤ u64Max then some (a * b) else none

/-! ## Messages and chunks -/

/-- Send a length-prefixed message; the length is cast to `u32`. -/
def sendMessage (data : Bytes) : Bytes := BigEndian.toBytes 4 data.length ++ data

/-- Send a chunk: 8-byte index + data. -/
def sendChunk (index : Nat) (data : Bytes) : Bytes :=
  BigEndian.toBytes 4 (8 + data.length) ++ (BigEndian.toBytes 8 index ++ data)

/-- The reads of `recv_message`: the length, then as many bytes. -/
def messageReader : Reader Bytes UInt8 :=
  .exact 4 fun lenBuf => .exact (BigEndian.toNat lenBuf) fun buf => .ok buf

/-- The reads of `recv_chunk`: the length, the index, and the rest of the length. -/
def chunkReader : Reader (Nat × Bytes) UInt8 :=
  .exact 4 fun lenBuf =>
    .exact 8 fun indexBuf =>
      -- `total_len - 8`
      match checkedSub (BigEndian.toNat lenBuf) 8 with
      | none => .failed
      | some dataLen => .exact dataLen fun data => .ok (BigEndian.toNat indexBuf, data)

/-- Receive a length-prefixed message; short while `read_exact` has not all its bytes. -/
def recvMessage : Bytes → Decoded Bytes UInt8 := messageReader.onStream

/-- Receive a chunk: returns (index, data); fails by the panic of the subtraction. -/
def recvChunk : Bytes → Decoded (Nat × Bytes) UInt8 := chunkReader.onStream

/-! ## Reading back -/

theorem toNat_lenBytes {n : Nat} (h : n < 2 ^ 32) : BigEndian.toNat (BigEndian.toBytes 4 n) = n :=
  BigEndian.toNat_toBytes_of_lt h

/-- The last read of a frame: all of the data. -/
theorem reads_data {α : Type} (f : Bytes → α) (data : Bytes) :
    Reads (Reader.exact data.length fun buf => .ok (f buf)).onStream (f data) data := by
  have hread : Reads (Reader.exact data.length fun buf => .ok (f buf)).onStream (f data)
      (data ++ []) := Reads.exact (reads_ok (f data)) rfl
  rwa [List.append_nil] at hread

/-- **A message is read back** as it was sent, however it is cut. -/
theorem recvMessage_reads {data : Bytes} (h : data.length < 2 ^ 32) :
    Reads recvMessage data (sendMessage data) := by
  apply Reads.exact _ (BigEndian.length_toBytes 4 _)
  rw [toNat_lenBytes h]
  exact reads_data id data

/-- **A chunk is read back** as it was sent, however it is cut. -/
theorem recvChunk_reads {index : Nat} {data : Bytes} (hindex : index ≤ u64Max)
    (hdata : 8 + data.length < 2 ^ 32) :
    Reads recvChunk (index, data) (sendChunk index data) := by
  have hi : BigEndian.toNat (BigEndian.toBytes 8 index) = index :=
    BigEndian.toNat_toBytes_of_lt (Nat.lt_of_le_of_lt hindex (by decide))
  have hsub : checkedSub (8 + data.length) 8 = some data.length := by
    rw [checkedSub, if_pos (show 8 ≤ 8 + data.length by omega), Nat.add_sub_cancel_left]
  apply Reads.exact _ (BigEndian.length_toBytes 4 _)
  apply Reads.exact _ (BigEndian.length_toBytes 8 _)
  rw [toNat_lenBytes hdata, hsub, hi]
  exact reads_data (fun buf => (index, buf)) data

/-- So is the end-of-stream marker. -/
theorem marker_reads : Reads recvChunk (u64Max, []) (sendChunk u64Max []) :=
  recvChunk_reads (Nat.le_refl _) (by decide)

end FastTransfer.Cli
