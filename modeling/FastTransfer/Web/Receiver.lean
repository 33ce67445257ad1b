import Mathlib.Data.List.AList
import Mathlib.Data.List.Dedup
import FastTransfer.Lib.Reassembly
import FastTransfer.Lib.Tally
import FastTransfer.Web.Chunks

/-!
# The receiving engine

`_handleChunk`, `_writeChunk`, `_finishDownload` and the file-info handler of
`TransferEngine` (`web/static/js/transfer.js`), as functions on the engine's
receiver fields. Timing and statistics (`startTime`, `_statsInterval`, the
progress callbacks) are left out: nothing below reads them.

The calls a `StreamingDownloader` receives are kept as a list in call order.
-/

namespace FastTransfer.Web

open Reassembly

/-- A call that the engine makes on `this._downloader`. -/
inductive DownloaderCall where
  | write (uint8 : Bytes)
  | close
  deriving DecidableEq

/-- The receiver fields of a `TransferEngine`, and what it has called. -/
structure Receiver where
  fileInfo : Option FileInfo := none
  totalChunks : Nat := 0
  receivedChunks : Nat := 0
  bytesTransferred : Nat := 0
  nextWriteIndex : Nat := 0
  pendingChunks : AList (fun _ : Nat => Bytes) := ∅
  /-- The calls made on the current `_downloader`, if there is one. -/
  downloader : Option (List DownloaderCall) := none
  /-- How many `StreamingDownloader` objects have been created. -/
  downloadersCreated : Nat := 0
  /-- How many times `_finishDownload` has run. -/
  finishRuns : Nat := 0
  /-- The `fileName` and `fileSize` of each `onComplete` call. -/
  completions : List (String × Nat) := []

/-- A chunk frame as `_handleChunk` decodes it: the index in its first four
bytes, and the payload after them. -/
def arrival (data : Bytes) : Nat × Bytes := (getUint32 data, data.drop 4)

namespace Receiver

/-- `_downloader.write` / `_downloader.close`, when there is a downloader. -/
def callDownloader (r : Receiver) (c : DownloaderCall) : Receiver :=
  { r with downloader := r.downloader.map (· ++ [c]) }

/-- `_writeChunk`. -/
def writeChunk (r : Receiver) (uint8 : Bytes) : Receiver := r.callDownloader (.write uint8)

/-- `_finishDownload`. -/
def finishDownload (r : Receiver) : Receiver :=
  let r := { r with finishRuns := r.finishRuns + 1 }
  let r := r.callDownloader .close
  let r := { r with pendingChunks := ∅ }
  -- without a file-info, reading `this.fileInfo.name` throws before onComplete is called
  match r.fileInfo with
  | some info => { r with completions := r.completions ++ [(info.name, info.size)] }
  | none => r

/-- The inner loop of `_handleChunk`: write the chunks that are next in
order. The fuel is the number of pending chunks; each turn removes one. -/
def drainPending : Nat → Receiver → Receiver
  | 0, r => r
  | fuel + 1, r =>
      match r.pendingChunks.lookup r.nextWriteIndex with
      | some next =>
          let r' := { r with pendingChunks := r.pendingChunks.erase r.nextWriteIndex }
          let r' := r'.writeChunk next
          drainPending fuel { r' with nextWriteIndex := r.nextWriteIndex + 1 }
      | none => r

/-- The dedup test of `_handleChunk`: has this index been accepted before? -/
def isDuplicate (r : Receiver) (index : Nat) : Bool :=
  index < r.nextWriteIndex || (r.pendingChunks.lookup index).isSome

/-- The part of `_handleChunk` that stores a chunk of a new index. -/
def storeChunk (r : Receiver) (index : Nat) (chunkData : Bytes) : Receiver :=
  let r := { r with
    receivedChunks := r.receivedChunks + 1
    bytesTransferred := r.bytesTransferred + chunkData.length }
  if index = r.nextWriteIndex then
    let r := r.writeChunk chunkData
    let r := { r with nextWriteIndex := r.nextWriteIndex + 1 }
    drainPending r.pendingChunks.entries.length r
  else
    { r with pendingChunks := r.pendingChunks.insert index chunkData }

/-- `_handleChunk`: decode the frame, drop it if its index was there before,
else store its payload, and complete with the last chunk. -/
def handleChunk (r : Receiver) (data : Bytes) : Receiver :=
  -- `getUint32` throws on a frame of less than 4 bytes
  if data.length < 4 then r
  else
    let (index, chunkData) := arrival data
    if r.isDuplicate index then r
    else
      let r := r.storeChunk index chunkData
      if r.receivedChunks = r.totalChunks then r.finishDownload else r

/-- `_onFileInfoReceived`: its synchronous part, before `prepare` is awaited. -/
def onFileInfoReceived (r : Receiver) (info : FileInfo) : Receiver :=
  { r with
    fileInfo := some info
    totalChunks := info.totalChunks
    downloader := some []
    downloadersCreated := r.downloadersCreated + 1 }

/-- A message on one of the receiver's connections: the file-info text or a
binary chunk frame. -/
inductive Message where
  | fileInfo (info : FileInfo)
  | chunk (data : Bytes)
  deriving DecidableEq

/-- `ws.onmessage` of a relay and of the P2P channels. -/
def onmessage (r : Receiver) : Message → Receiver
  | .fileInfo info => if r.fileInfo.isNone then r.onFileInfoReceived info else r
  | .chunk data => r.handleChunk data

end Receiver

end FastTransfer.Web
