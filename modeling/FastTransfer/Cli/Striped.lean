import FastTransfer.Lib.Filling
import FastTransfer.Lib.Runs
import FastTransfer.Cli.Protocol

/-!
# The striped transfer of the command line tool

`send_file` (`cli/src/sender.rs`) from the header on, and `receive_file`
(`cli/src/receiver.rs`) from the TCP connections on: a sending and a receiving
task for each stream, between them a stream of bytes that arrives in pieces, and
the output file. Signaling, the progress bars and the printed summary are left
out: no chunk depends on them.

A step of a sending task is one turn of its loop, a step of a receiving task one
`recv_chunk` or one write under the lock of the file. The source file does not
change during the transfer, and no operation on files or sockets fails.
-/

namespace FastTransfer.Cli

open Tiling Filling

/-- The functions of the libraries that the tool uses. -/
structure Libraries where
  /-- `serde_json::to_vec` -/
  toVec : FileHeader → Bytes
  /-- `serde_json::from_slice` -/
  fromSlice : Bytes → Option FileHeader
  /-- The hexadecimal SHA-256 of a file. -/
  sha256 : Bytes → String

/-- The file to send, with the name that `path.file_name()` gives. -/
structure SourceFile where
  name : String
  bytes : Bytes

/-- The `file_size` that `send_file` finds. -/
def SourceFile.size (file : SourceFile) : Nat := file.bytes.length

/-- `(file_size + CHUNK_SIZE as u64 - 1) / CHUNK_SIZE as u64`. -/
def totalChunks (fileSize : Nat) : Option Nat := do
  let n ← checkedAdd fileSize chunkSize
  let n ← checkedSub n 1
  some (n / chunkSize)

/-- The header that `send_file` makes. -/
def fileHeader (lib : Libraries) (file : SourceFile) (totalChunks : Nat) : FileHeader where
  name := file.name
  size := file.size
  totalChunks := totalChunks
  numStreams := Cli.numStreams
  chunkSize := Cli.chunkSize
  checksum := lib.sha256 file.bytes

/-! ## The tasks of a stream -/

/-- What a sending task has read of the file for a chunk. -/
structure ReadRange where
  index : Nat
  offset : Nat
  size : Nat
  deriving DecidableEq

/-- Where the sending task of a stream stands. -/
inductive Sending where
  | running (chunkIdx : Nat)
  /-- The end marker is sent, and the stream closed. -/
  | ended
  | panicked
  deriving DecidableEq

/-- Where the receiving task of a stream stands. -/
inductive Receiving where
  | reading
  /-- With a chunk that has not been written yet. -/
  | writing (index offset : Nat) (data : Bytes)
  | ended
  /-- `recv_chunk` returned an error. -/
  | failed
  | panicked
  deriving DecidableEq

/-- A TCP stream with its two tasks. -/
structure Stream where
  sending : Sending
  /-- The ranges read and sent so far. -/
  sent : List ReadRange := []
  inFlight : Bytes := []
  arrived : Bytes := []
  receiving : Receiving := .reading
  /-- The indices of the chunks written so far. -/
  written : List Nat := []
  deriving DecidableEq

/-- `seek` and `read_exact`. -/
def seekRead (file : SourceFile) (offset readSize : Nat) : Option Bytes :=
  if offset + readSize ≤ file.size then some (slice file.bytes offset (offset + readSize))
  else none

/-- The read of a chunk; `none` is a panic. -/
def readRange (file : SourceFile) (chunkIdx : Nat) : Option (ReadRange × Bytes) := do
  let offset ← checkedMul chunkIdx chunkSize
  let remaining ← checkedSub file.size offset
  let buf ← seekRead file offset (min chunkSize remaining)
  some (⟨chunkIdx, offset, min chunkSize remaining⟩, buf)

/-- `seek` and `write_all`: the file grows if it has to. -/
def seekWrite (output : Bytes) (offset : Nat) (data : Bytes) : Bytes :=
  if data = [] then output
  else
    overwrite (output ++ List.replicate (offset + data.length - output.length) 0) offset data

namespace Stream

/-- A turn of the loop of a sending task. -/
def send (st : Stream) (file : SourceFile) (totalChunks : Nat) : Option Stream :=
  match st.sending with
  | .running chunkIdx =>
      if chunkIdx < totalChunks then
        match readRange file chunkIdx with
        | none => some { st with sending := .panicked }
        | some (range, buf) =>
            some { st with
              inFlight := st.inFlight ++ sendChunk chunkIdx buf
              sent := st.sent ++ [range]
              sending := match checkedAdd chunkIdx numStreams with
                | some next => .running next
                | none => .panicked }
      else
        -- the end-of-stream marker
        some { st with inFlight := st.inFlight ++ sendChunk u64Max [], sending := .ended }
  | .ended | .panicked => none

/-- The next `n` bytes of the stream arrive. -/
def deliver (st : Stream) (n : Nat) : Option Stream :=
  if 0 < n ∧ n ≤ st.inFlight.length then
    some { st with
      arrived := st.arrived ++ st.inFlight.take n
      inFlight := st.inFlight.drop n }
  else none

/-- Nothing more will arrive. -/
def closed (st : Stream) : Bool :=
  match st.sending with
  | .running _ => false
  | .ended | .panicked => st.inFlight = []

/-- A turn of the loop of a receiving task, up to the lock of the file. -/
def recv (st : Stream) (chunkSize : Nat) : Option Stream :=
  match st.receiving with
  | .reading =>
      match recvChunk st.arrived with
      | .ok (index, data) rest =>
          some { st with
            arrived := rest
            receiving :=
              if index = u64Max then .ended
              else
                match checkedMul index chunkSize with
                | some offset => .writing index offset data
                | none => .panicked }
      | .short => if st.closed then some { st with receiving := .failed } else none
      | .failed => some { st with receiving := .panicked }
  | .writing _ _ _ | .ended | .failed | .panicked => none

/-- The rest of this turn: the write. -/
def write (st : Stream) (output : Bytes) : Option (Stream × Bytes) :=
  match st.receiving with
  | .writing index offset data =>
      some ({ st with receiving := .reading, written := st.written ++ [index] },
        seekWrite output offset data)
  | .reading | .ended | .failed | .panicked => none

end Stream

/-! ## The transfer -/

/-- Where `receive_file` stands. -/
inductive Phase where
  /-- In `recv_message`, on its first stream. -/
  | awaiting
  /-- The receiving tasks are running. -/
  | running (header : FileHeader)
  | failed
  deriving DecidableEq

/-- The transfer over all its streams. -/
structure Striped where
  totalChunks : Nat
  /-- The streams, in the order in which the sender accepted them. -/
  streams : List Stream
  /-- The one that the receiver opened first. -/
  first : Nat
  phase : Phase := .awaiting
  output : Bytes := []
  deriving DecidableEq

namespace Striped

/-- The transfer after the header is sent; `none` if the chunk count overflows. -/
def start (lib : Libraries) (file : SourceFile) (first : Nat) : Option Striped := do
  let totalChunks ← Cli.totalChunks file.size
  let headerJson := lib.toVec (fileHeader lib file totalChunks)
  some {
    totalChunks
    first
    streams := (List.range numStreams).map fun streamIdx =>
      { sending := .running streamIdx
        inFlight := if streamIdx = 0 then sendMessage headerJson else [] } }

/-- A step of one task, of the network on one stream, or the reading of the header. -/
inductive Action where
  | send (k : Nat)
  | deliver (k n : Nat)
  | recvHeader
  | recv (k : Nat)
  | write (k : Nat)
  deriving DecidableEq

/-- Stream `k` goes on. -/
def setStream (s : Striped) (k : Nat) (st : Stream) : Striped :=
  { s with streams := s.streams.set k st }

/-- The header is read, and the output file made. -/
def recvHeader (lib : Libraries) (s : Striped) (st : Stream) : Option Striped :=
  match recvMessage st.arrived with
  | .ok headerData rest =>
      match lib.fromSlice headerData with
      | some header =>
          some { s.setStream s.first { st with arrived := rest } with
            phase := .running header, output := List.replicate header.size 0 }
      | none => some { s.setStream s.first { st with arrived := rest } with phase := .failed }
  | .short => if st.closed then some { s with phase := .failed } else none
  | .failed => some { s with phase := .failed }

/-- One step of the transfer. -/
def step (lib : Libraries) (file : SourceFile) (s : Striped) : Action → Option Striped
  | .send k => do
      let st ← s.streams[k]?
      let st ← st.send file s.totalChunks
      some (s.setStream k st)
  | .deliver k n => do
      let st ← s.streams[k]?
      let st ← st.deliver n
      some (s.setStream k st)
  | .recvHeader =>
      match s.phase with
      | .awaiting => do
          let st ← s.streams[s.first]?
          s.recvHeader lib st
      | .running _ | .failed => none
  | .recv k =>
      match s.phase with
      | .running header => do
          let st ← s.streams[k]?
          let st ← st.recv header.chunkSize
          some (s.setStream k st)
      | .awaiting | .failed => none
  | .write k => do
      let st ← s.streams[k]?
      let (st, output) ← st.write s.output
      some { s.setStream k st with output }

/-- The checksum of the output file is that of the header. -/
def verified (lib : Libraries) (s : Striped) : Prop :=
  match s.phase with
  | .running header => lib.sha256 s.output = header.checksum
  | .awaiting | .failed => False

end Striped

end FastTransfer.Cli
