import FastTransfer.Web.Downloader
import FastTransfer.Web.LossyTransfer

/-!
# The transfer to disk

The sender, its transports, the receiver, and the downloader that the receiver
makes when the file-info arrives: `prepare` goes on between the chunks, and what
the receiver writes goes to the service worker or into a Blob. Nothing is excluded
but the two races that lose chunks: chunk 0 arrives when `prepare` is over. Then
the download is the file, from the moment its last chunk arrives, and no file at
all before.
-/

namespace FastTransfer.Web

open Reassembly

/-! ## The order of the calls -/

namespace Receiver

/-- The close, if there is one, is the last of the calls. -/
def Ordered (r : Receiver) : Prop :=
  ∀ calls ∈ r.downloader, ∃ bs : List Bytes,
    calls = bs.map .write ++ List.replicate r.finishRuns .close

theorem handleChunk_ordered {log : List (Nat × Bytes)} {k : Nat} {r : Receiver}
    (h : Receiving log k r) (hf : Finishing r) (hr : Ordered r) (hinfo : r.fileInfo.isSome)
    {data : Bytes} (h4 : 4 ≤ data.length)
    (hlt : ∀ e ∈ log ++ [arrival data], e.1 < r.totalChunks) : Ordered (r.handleChunk data) := by
  obtain ⟨-, heq⟩ | ⟨hnew, heq⟩ := h.handleChunk_cases h4
  · rwa [heq]
  · -- the chunk is written after other chunks
    have hruns := hf.runs_of_new h hnew hlt
    obtain ⟨out, hin⟩ := h.inOrder
    obtain ⟨n, p, added, hstore, -⟩ := r.storeChunk_spec hin (data.drop 4) hnew
    have hordered : Ordered (r.storeChunk (getUint32 data) (data.drop 4)) := by
      rw [hstore]
      intro calls hcalls
      obtain ⟨calls', hcalls', rfl⟩ := Option.map_eq_some_iff.mp hcalls
      obtain ⟨bs, rfl⟩ := hr calls' hcalls'
      refine ⟨bs ++ added, ?_⟩
      show _ = _ ++ List.replicate r.finishRuns DownloaderCall.close
      rw [hruns, List.replicate_zero, List.append_nil, List.append_nil, List.map_append]
    obtain ⟨hfi, -, -, hruns', -⟩ := h.storeChunk_frame (data.drop 4) hnew
    rw [heq]
    split_ifs with hlast
    · obtain ⟨f1, -, -, -, -, -, f7⟩ := finishDownload_frame
        (r := r.storeChunk (getUint32 data) (data.drop 4)) (by rw [hfi]; exact hinfo)
      intro calls hcalls
      rw [f7] at hcalls
      obtain ⟨calls', hcalls', rfl⟩ := Option.map_eq_some_iff.mp hcalls
      obtain ⟨bs, rfl⟩ := hordered calls' hcalls'
      refine ⟨bs, ?_⟩
      rw [f1, hruns', hruns, List.replicate_zero, List.append_nil, List.replicate_one]
    · exact hordered

theorem handleChunks_ordered {log : List (Nat × Bytes)} {k : Nat} {r₀ : Receiver}
    (h : Receiving log k r₀) (hf : Finishing r₀) (hr : Ordered r₀) (hinfo : r₀.fileInfo.isSome)
    {frames : List Bytes} (h4 : ∀ d ∈ frames, 4 ≤ d.length)
    (hlt : ∀ e ∈ log ++ frames.map arrival, e.1 < r₀.totalChunks) :
    Ordered (r₀.handleChunks frames) := by
  induction frames using List.reverseRecOn with
  | nil => exact hr
  | append_singleton frames data ih =>
      rw [List.map_append, List.map_singleton, ← List.append_assoc] at hlt
      have hlt' : ∀ e ∈ log ++ frames.map arrival, e.1 < r₀.totalChunks :=
        fun e he => hlt e (List.mem_append_left _ he)
      have h4' : ∀ d ∈ frames, 4 ≤ d.length := fun d hd => h4 d (List.mem_append_left _ hd)
      obtain ⟨hrun, hinfo', htotal, -, -⟩ := handleChunks_receiving h h4'
        (fun q d hq _ e he => hlt' e
          ((List.append_sublist_append_left _).mpr (hq.sublist.map arrival) |>.subset he))
      rw [handleChunks_snoc]
      exact handleChunk_ordered hrun (handleChunks_finishing h hf hinfo h4' hlt') (ih h4' hlt')
        (by rw [hinfo']; exact hinfo) (h4 data (by simp)) (by rw [htotal]; exact hlt)

end Receiver

/-! ## What comes out of a downloader that was prepared in time -/

namespace StreamingDownloader

/-- Nothing was written before the mode switched to the worker. -/
def PreparedFirst (evs : List Event) : Prop := ∀ cs ∈ callsBeforeSwitch evs, cs = []

/-- A prepared downloader gives no file until it is closed, and then the bytes
written, whenever the fetch reaches the worker. -/
theorem produced_of_prepared {id name : String} {size : Nat} {mime : String} {supported : Bool}
    {evs : List Event} {d : StreamingDownloader}
    (hrun : Runs.run step (prepare { id } name size mime supported) evs = some d)
    (hprepared : PreparedFirst evs) (bs : List Bytes) (sw : ServiceWorker String) (k : Nat) :
    (callsOf evs = bs.map .write → d.produced sw (k + 1) = []) ∧
      (callsOf evs = bs.map .write ++ [.close] → d.produced sw (k + 1) = [bs.flatten]) := by
  have hstart := buffering_prepare id name size mime supported
  by_cases hsw : .acked true ∈ evs
  · obtain ⟨pre, post, rfl, hpre⟩ := List.eq_append_cons_of_mem hsw
    rw [Runs.run_append] at hrun
    obtain ⟨d₁, hrun₁, hrun₂⟩ := Option.bind_eq_some_iff.mp hrun
    have hbuf := hstart.run hrun₁ hpre
    obtain ⟨d₂, hswitch, hrun₃⟩ := Option.bind_eq_some_iff.mp hrun₂
    obtain ⟨hack, hd₂⟩ := Option.ite_none_right_eq_some.mp hswitch
    obtain rfl := Option.some.inj hd₂
    rw [if_pos rfl] at hrun₃
    obtain rfl := run_streaming rfl rfl hrun₃
    have hnone : callsOf pre = [] := hprepared _ (callsBeforeSwitch_append hpre)
    rw [hnone] at hbuf
    obtain ⟨-, hblobs⟩ := hbuf.written [] rfl
    have hposted := hbuf.registered hack
    have hcalls : callsOf (pre ++ .acked true :: post) = callsOf post := by
      rw [callsOf_append, callsOf_cons (.acked true), hnone]
      rfl
    rw [hcalls]
    constructor
    · intro hwrites
      have hmsgs : (callsOf post).map (message d₁.id) = bs.map (SwMessage.chunk d₁.id) := by
        simp [hwrites, message]
      simp only [produced, startStreaming, hblobs, hposted, hmsgs, if_pos, List.map_nil,
        List.nil_append, List.singleton_append, ServiceWorker.files_of_open]
    · intro hwhole
      have hmsgs : (callsOf post).map (message d₁.id) =
          bs.map (SwMessage.chunk d₁.id) ++ [.close d₁.id] := by
        simp [hwhole, message]
      simp only [produced, startStreaming, hblobs, hposted, hmsgs, if_pos, List.map_nil,
        List.nil_append, List.singleton_append, ServiceWorker.files_of_close]
  · have hbuf := hstart.run hrun hsw
    constructor
    · intro hwrites
      obtain ⟨-, hblobs⟩ := hbuf.written bs hwrites
      simp [produced, hblobs, hbuf.mode]
    · intro hwhole
      simp [produced, hbuf.closed bs hwhole, hbuf.mode]

theorem callsBeforeSwitch_append_of_mem {evs : List Event} (h : .acked true ∈ evs)
    (more : List Event) : callsBeforeSwitch (evs ++ more) = callsBeforeSwitch evs := by
  obtain ⟨pre, post, rfl, hpre⟩ := List.eq_append_cons_of_mem h
  rw [List.append_assoc, List.cons_append, callsBeforeSwitch_append hpre,
    callsBeforeSwitch_append hpre]

theorem PreparedFirst.append {evs more : List Event} (h : PreparedFirst evs)
    (hmore : .acked true ∉ more ∨ callsOf evs = [] ∧ more = [.acked true]) :
    PreparedFirst (evs ++ more) := by
  by_cases hsw : .acked true ∈ evs
  · rw [PreparedFirst, callsBeforeSwitch_append_of_mem hsw]
    exact h
  · rcases hmore with hmore | ⟨hnone, rfl⟩
    · have hnever : callsBeforeSwitch (evs ++ more) = none := by
        rw [callsBeforeSwitch_eq_none]
        simp [hsw, hmore]
      rw [PreparedFirst, hnever]
      simp
    · rw [PreparedFirst, callsBeforeSwitch_append hsw, hnone]
      simp

/-- A call of the receiver. -/
def call (d : StreamingDownloader) : DownloaderCall → StreamingDownloader
  | .write uint8 => d.write uint8
  | .close => d.close

theorem call_awaiting (d : StreamingDownloader) (c : DownloaderCall) :
    (d.call c).awaiting = d.awaiting := by
  cases c with
  | write uint8 =>
      rw [call, write]
      split_ifs
      · rfl
      · rfl
  | close =>
      rw [call, close]
      split_ifs
      · rfl
      · rfl

theorem foldl_call_awaiting (cs : List DownloaderCall) (d : StreamingDownloader) :
    (cs.foldl call d).awaiting = d.awaiting := by
  induction cs generalizing d with
  | nil => rfl
  | cons c cs ih => rw [List.foldl_cons, ih, call_awaiting]

theorem run_calls (cs : List DownloaderCall) (d : StreamingDownloader) :
    Runs.run step d (cs.map .call) = some (cs.foldl call d) := by
  induction cs generalizing d with
  | nil => rfl
  | cons c cs ih =>
      cases c with
      | write uint8 => exact ih (d.write uint8)
      | close => exact ih d.close

theorem callsOf_map_call (cs : List DownloaderCall) : callsOf (cs.map .call) = cs := by
  rw [callsOf, List.filterMap_map]
  exact List.filterMap_some

end StreamingDownloader

/-! ## The receiver and its downloader -/

namespace Receiver

theorem drainPending_calls (fuel : Nat) (r : Receiver) :
    ∃ added, (drainPending fuel r).downloader = r.downloader.map (· ++ added) := by
  induction fuel generalizing r with
  | zero => exact ⟨[], by simp [drainPending]⟩
  | succ fuel ih =>
      rw [drainPending]
      split
      next next hnext =>
        obtain ⟨added, hadded⟩ := ih { (writeChunk { r with
          pendingChunks := r.pendingChunks.erase r.nextWriteIndex } next) with
          nextWriteIndex := r.nextWriteIndex + 1 }
        refine ⟨.write next :: added, hadded.trans ?_⟩
        simp [writeChunk, callDownloader, Function.comp_def]
      next => exact ⟨[], by simp⟩

theorem storeChunk_calls (r : Receiver) (index : Nat) (chunkData : Bytes) :
    ∃ added, (r.storeChunk index chunkData).downloader = r.downloader.map (· ++ added) := by
  simp only [storeChunk]
  split_ifs
  · obtain ⟨added, hadded⟩ := drainPending_calls r.pendingChunks.entries.length
      { (writeChunk { r with
          receivedChunks := r.receivedChunks + 1
          bytesTransferred := r.bytesTransferred + chunkData.length } chunkData) with
        nextWriteIndex := r.nextWriteIndex + 1 }
    refine ⟨.write chunkData :: added, hadded.trans ?_⟩
    simp [writeChunk, callDownloader, Function.comp_def]
  · exact ⟨[], by simp⟩

theorem finishDownload_calls (r : Receiver) :
    r.finishDownload.downloader = r.downloader.map (· ++ [.close]) := by
  cases hinfo : r.fileInfo <;> simp [finishDownload, callDownloader, hinfo]

/-- A chunk only adds calls on the downloader. -/
theorem handleChunk_calls (r : Receiver) (data : Bytes) :
    ∃ added, (r.handleChunk data).downloader = r.downloader.map (· ++ added) := by
  obtain ⟨added, hadded⟩ := r.storeChunk_calls (arrival data).1 (arrival data).2
  simp only [handleChunk]
  split_ifs
  · exact ⟨[], by simp⟩
  · exact ⟨[], by simp⟩
  · refine ⟨added ++ [.close], ?_⟩
    rw [finishDownload_calls, hadded]
    cases r.downloader <;> simp
  · exact ⟨added, hadded⟩

end Receiver

namespace Transfer

section Calls

variable {file : File} {x : Transfer} {evs : List Receiver.Incoming}

/-- With the file-info the receiver has a downloader. -/
theorem Heard.told (h : Heard file x evs) (hinfo : .fileInfo ∈ evs) :
    x.receiver.fileInfo = some (fileInfo file) ∧ x.receiver.downloader.isSome := by
  obtain ⟨pre, post, rfl, hpre⟩ := List.eq_append_cons_of_mem hinfo
  have hlt : ∀ i, .chunk i ∈ pre ++ post → i < totalChunks file :=
    fun i hi => h.inFile i (by simpa using List.mem_append.mp hi)
  have hall := Receiver.arrivals_append_lt hlt
  obtain ⟨-, hfile, -, -, hsome⟩ := Receiver.handleChunks_receiving
    (Receiver.told_receiving file pre) (Receiver.four_le_chunkFrames file post)
    (fun q d hq _ e he => hall e
      ((List.append_sublist_append_left _).mpr (hq.sublist.map arrival) |>.subset he))
  rw [h.receiver, Receiver.receive_info hpre]
  exact ⟨hfile, hsome⟩

/-- Before chunk 0 nothing is written. -/
theorem Heard.unwritten (h : Heard file x evs) (hzero : .chunk 0 ∉ evs)
    (h32 : totalChunks file ≤ 2 ^ 32) : ∀ calls ∈ x.receiver.downloader, writes calls = [] := by
  intro calls hcalls
  by_cases hinfo : .fileInfo ∈ evs
  · obtain ⟨pre, post, rfl, hpre⟩ := List.eq_append_cons_of_mem hinfo
    have hmem (i : Nat) : Receiver.Incoming.chunk i ∈ pre ++ post ↔
        .chunk i ∈ pre ++ .fileInfo :: post := by simp
    have hlt : ∀ i, .chunk i ∈ pre ++ post → i < totalChunks file :=
      fun i hi => h.inFile i ((hmem i).mp hi)
    obtain ⟨k, -, hr, -⟩ := Receiver.receive_spec hpre hlt
    rw [← h.receiver] at hr
    have hnext : x.receiver.nextWriteIndex = 0 := by
      by_contra hne
      obtain ⟨out, hin, -⟩ := hr.order
      have hsome := hin.arrived_iff.mpr (.inl (Nat.pos_of_ne_zero hne))
      obtain ⟨p, hp⟩ := Option.ne_none_iff_exists'.mp hsome
      obtain ⟨i, hi, heq⟩ := Receiver.mem_arrivals.mp (mem_of_lookup hp)
      have hi' := hlt i hi
      have hmod : i % 2 ^ 32 = i := Nat.mod_eq_of_lt (hi'.trans_le h32)
      obtain rfl : 0 = i := (Prod.mk.inj heq).1.trans hmod
      exact hzero ((hmem 0).mp hi)
    rw [writes_from hr hlt h32 calls hcalls, hnext]
    simp
  · rw [h.receiver, (receive_uninformed file hinfo).2.1] at hcalls
    cases hcalls

theorem Heard.ordered (h : Heard file x evs) (hinformed : Informed evs)
    (h32 : totalChunks file ≤ 2 ^ 32) : x.receiver.Ordered := by
  cases hinformed with
  | waiting hinfo hzero =>
      intro calls hcalls
      rw [h.receiver, (receive_uninformed file hinfo).2.1] at hcalls
      cases hcalls
  | @told pre hinfo hzero post =>
      have hlt : ∀ i, .chunk i ∈ pre ++ post → i < totalChunks file :=
        fun i hi => h.inFile i (by simpa using List.mem_append.mp hi)
      have hlt' : ∀ i, .chunk i ∈ pre → i < totalChunks file :=
        fun i hi => hlt i (List.mem_append_left _ hi)
      rcases Nat.eq_zero_or_pos (totalChunks file) with hempty | hpos
      · intro calls hcalls
        obtain ⟨hdown, hcompl⟩ := receive_empty hinfo hlt hempty
        rw [h.receiver, hdown] at hcalls
        obtain rfl := Option.some.inj hcalls
        have hnone : Receiver.chunkFrames file post = [] := by
          apply List.filterMap_eq_nil_iff.mpr
          intro ev hev
          cases ev with
          | fileInfo => rfl
          | chunk i =>
              exact absurd (hlt i (List.mem_append_right _ hev))
                (show ¬ i < totalChunks file by omega)
        have hruns := (Receiver.handleChunks_before_info
          (Receiver.four_le_chunkFrames file pre)).2.2.2.2.1
        refine ⟨[], ?_⟩
        rw [h.receiver, Receiver.receive_info hinfo, hnone]
        show _ = _ ++ List.replicate (Receiver.handleChunks {} _).finishRuns DownloaderCall.close
        rw [hruns]
        rfl
      · have htold := Receiver.told_finishing (told_zero hzero hlt' h32) hpos
        have hnew : (Receiver.told file pre).Ordered := by
          intro calls hcalls
          refine ⟨[], ?_⟩
          obtain rfl := Option.some.inj hcalls
          rw [← htold.closes [] rfl]
          rfl
        rw [h.receiver, Receiver.receive_info hinfo]
        exact Receiver.handleChunks_ordered (Receiver.told_receiving file pre) htold hnew rfl
          (Receiver.four_le_chunkFrames file post) (Receiver.arrivals_append_lt hlt)

/-- **The calls of a transfer**: some writes, and after the last chunk the close. -/
theorem Heard.calls (h : Heard file x evs) (hinformed : Informed evs)
    (h32 : totalChunks file ≤ 2 ^ 32) {calls : List DownloaderCall}
    (hcalls : x.receiver.downloader = some calls) : ∃ bs : List Bytes,
      (x.receiver.completions = [] → calls = bs.map .write) ∧
      (x.receiver.completions ≠ [] → calls = bs.map .write ++ [.close] ∧
        bs.flatten = file.bytes) := by
  obtain ⟨bs, hbs⟩ := h.ordered hinformed h32 calls hcalls
  have hsafe := h.safe hinformed h32
  have hcloses : closes calls = x.receiver.finishRuns := by
    rw [hbs, closes, List.count_append, List.count_replicate_self]
    have hnone : List.count DownloaderCall.close (bs.map .write) = 0 := by
      simp [List.count_eq_zero]
    omega
  refine ⟨bs, fun hnone => ?_, fun hsome => ?_⟩
  · rw [hbs, ← hcloses, hsafe.unclosed hnone calls hcalls, List.replicate_zero, List.append_nil]
  · obtain ⟨-, calls', hcalls', hwhole, hone⟩ := hsafe.completed hsome
    obtain rfl := Option.mem_unique hcalls hcalls'
    have hlast : calls = bs.map .write ++ [.close] := by
      rw [← List.replicate_one, ← hone, hcloses]
      exact hbs
    refine ⟨hlast, ?_⟩
    rw [hlast, writes_append, writes_map_write, writes_close, List.append_nil] at hwhole
    exact hwhole

end Calls

end Transfer

/-! ## The transfer and its downloader -/

/-- The transfer, with the downloader of the receiving page. -/
structure Download where
  transfer : Transfer
  /-- `this._downloader` of the receiver. -/
  downloader : Option StreamingDownloader := none

namespace Download

section System

variable (cfg : Config) (file : File) (id : String) (supported : Bool)

/-- A new downloader, with `prepare` up to its first await. -/
def create (info : FileInfo) : StreamingDownloader :=
  .prepare { id } info.name info.size
    (if info.type = "" then "application/octet-stream" else info.type) supported

/-- The downloader after a step of the receiver: made with the file-info, and
called as often as the receiver did. -/
def follow (before after : Receiver) : Option StreamingDownloader → Option StreamingDownloader
  | none => after.fileInfo.map (create id supported)
  | some d => some (((after.downloader.getD []).drop (before.downloader.getD []).length).foldl
      StreamingDownloader.call d)

/-- A step of the transfer or of `prepare`. -/
inductive Action where
  | transfer (a : Transfer.Action)
  /-- `prepare` goes on after one of its awaits. -/
  | prepare (e : StreamingDownloader.Event)
  deriving DecidableEq

/-- One step; the downloader gets the calls that the receiver makes in it. -/
def step (x : Download) : Action → Option Download
  | .transfer a => (Transfer.step cfg file x.transfer a).map fun y =>
      { transfer := y
        downloader := follow id supported x.transfer.receiver y.receiver x.downloader }
  | .prepare (.call _) => none
  | .prepare e => do
      let d ← x.downloader
      let d ← d.step e
      some { x with downloader := some d }

/-- Two pages that have just met. -/
def fresh : Download where
  transfer := Transfer.fresh cfg file

end System

/-- "`prepare` is over before chunk 0 arrives", as a condition on the steps of a run. -/
def ReadyFirst (x : Download) : Action → Prop
  | .transfer (.deliver t) => ∀ f ∈ x.transfer.next t, f.chunkIndex = some 0 →
      ∃ d ∈ x.downloader, d.awaiting = none
  | .transfer (.sender _) | .prepare _ => True

instance decidableReadyFirst (x : Download) (a : Action) : Decidable (ReadyFirst x a) := by
  rcases a with (a | t) | e <;> unfold ReadyFirst <;> infer_instance

/-- The files that the receiver's browser saves, if the iframe's fetch reaches the
worker `sw` after the first `k` messages. -/
def files (x : Download) (sw : ServiceWorker String) (k : Nat) : List Bytes :=
  (x.downloader.map (·.produced sw k)).getD []

/-! ### The invariant -/

/-- The downloader has gone through `evs`: the calls of the receiver, and the
continuations of `prepare`. -/
structure Saved (file : File) (id : String) (supported : Bool) (x : Download)
    (heard : List Receiver.Incoming) (evs : List StreamingDownloader.Event) : Prop where
  lossy : Transfer.Lossy file x.transfer heard
  informed : Transfer.Informed heard
  absent : x.transfer.receiver.downloader = none → x.downloader = none ∧ evs = []
  present : ∀ calls, x.transfer.receiver.downloader = some calls → ∃ d, x.downloader = some d ∧
    Runs.run StreamingDownloader.step (create id supported (fileInfo file)) evs = some d ∧
      StreamingDownloader.callsOf evs = calls
  prepared : StreamingDownloader.PreparedFirst evs
  /-- Once chunk 0 has arrived, `prepare` is over. -/
  ready : .chunk 0 ∈ heard → ∃ d, x.downloader = some d ∧ d.awaiting = none

section Invariant

variable {cfg : Config} {file : File} {id : String} {supported : Bool} {x y : Download}
  {heard : List Receiver.Incoming} {evs : List StreamingDownloader.Event}

theorem saved_fresh (cfg : Config) (file : File) (id : String) (supported : Bool) :
    Saved file id supported (fresh cfg file) [] [] where
  lossy := Transfer.lossy_fresh cfg file
  informed := .waiting List.not_mem_nil List.not_mem_nil
  absent _ := ⟨rfl, rfl⟩
  present _ hcalls := by simp [fresh, Transfer.fresh] at hcalls
  prepared := by simp [StreamingDownloader.PreparedFirst, StreamingDownloader.callsBeforeSwitch]
  ready := by simp

/-- As long as chunk 0 is missing, nothing has been called. -/
theorem Saved.calls_eq_nil (h : Saved file id supported x heard evs)
    (h32 : totalChunks file ≤ 2 ^ 32) (hzero : .chunk 0 ∉ heard) :
    StreamingDownloader.callsOf evs = [] := by
  cases hcalls : x.transfer.receiver.downloader with
  | none =>
      rw [(h.absent hcalls).2]
      rfl
  | some calls =>
      obtain ⟨d, -, -, hevs⟩ := h.present calls hcalls
      obtain ⟨bs, hopen, -⟩ := h.lossy.heard.calls h.informed h32 hcalls
      have hsafe := h.lossy.heard.safe h.informed h32
      have hnone : x.transfer.receiver.completions = [] := by
        by_contra hne
        obtain ⟨hpos, hall⟩ := hsafe.completed_iff.mp hne
        exact hzero ((h.lossy.heard.arrived 0).mpr (hall 0 hpos))
      have hwrites := h.lossy.heard.unwritten hzero h32 calls hcalls
      rw [hevs, hopen hnone]
      rw [hopen hnone, writes_map_write] at hwrites
      rw [hwrites]
      rfl

/-- `prepare` goes on. -/
theorem Saved.prepare (h : Saved file id supported x heard evs) (h32 : totalChunks file ≤ 2 ^ 32)
    {e : StreamingDownloader.Event} {d d' : StreamingDownloader} (hd : x.downloader = some d)
    (he : ∀ c, e ≠ .call c) (hs : d.step e = some d') :
    Saved file id supported { x with downloader := some d' } heard (evs ++ [e]) := by
  have hcallsOf : StreamingDownloader.callsOf [e] = [] := by
    cases e with
    | call c => exact absurd rfl (he c)
    | registered ok | activated found | acked ok => rfl
  -- a continuation means that `prepare` is not over, and so chunk 0 is missing
  have hwait : d.awaiting ≠ none := by
    intro hnone
    cases e with
    | call c => exact absurd rfl (he c)
    | registered ok | activated found | acked ok => simp [StreamingDownloader.step, hnone] at hs
  have hzero : .chunk 0 ∉ heard := by
    intro hmem
    obtain ⟨d₁, hd₁, hnone⟩ := h.ready hmem
    obtain rfl := Option.some.inj (hd.symm.trans hd₁)
    exact hwait hnone
  refine ⟨h.lossy, h.informed, ?_, ?_, ?_, fun hmem => absurd hmem hzero⟩
  · intro hnone
    rw [(h.absent hnone).1] at hd
    cases hd
  · intro calls hcalls
    obtain ⟨d₁, hd₁, hrun, hevs⟩ := h.present calls hcalls
    obtain rfl := Option.some.inj (hd.symm.trans hd₁)
    refine ⟨d', rfl, ?_, ?_⟩
    · rw [Runs.run_append, hrun, Option.bind_some, Runs.run, hs, Option.bind_some, Runs.run]
    · rw [StreamingDownloader.callsOf_append, hcallsOf, List.append_nil, hevs]
  · apply h.prepared.append
    by_cases hack : e = .acked true
    · exact .inr ⟨h.calls_eq_nil h32 hzero, by rw [hack]⟩
    · refine .inl fun hmem => hack ?_
      exact (List.mem_singleton.mp hmem).symm

/-- The receiver has a downloader from the file-info on. -/
theorem told_iff {x : Transfer} (h : Transfer.Heard file x heard) :
    (.fileInfo ∈ heard ∧ x.receiver.fileInfo = some (fileInfo file) ∧
      x.receiver.downloader.isSome) ∨
    (.fileInfo ∉ heard ∧ x.receiver.fileInfo = none ∧ x.receiver.downloader = none) := by
  by_cases hinfo : .fileInfo ∈ heard
  · exact .inl ⟨hinfo, h.told hinfo⟩
  · obtain ⟨hnone, hdown, -⟩ := Transfer.receive_uninformed file hinfo
    rw [← h.receiver] at hnone hdown
    exact .inr ⟨hinfo, hnone, hdown⟩

/-- A frame makes the receiver create its downloader, or call it. -/
theorem onmessage_calls (r : Receiver) (m : Receiver.Message) :
    (r.fileInfo = none ∧ (r.onmessage m).downloader = some []) ∨
      (r.onmessage m).fileInfo = r.fileInfo ∧
        ∃ added, (r.onmessage m).downloader = r.downloader.map (· ++ added) := by
  cases m with
  | fileInfo info =>
      rw [Receiver.onmessage]
      split_ifs with hnone
      · exact .inl ⟨by simpa using hnone, rfl⟩
      · exact .inr ⟨rfl, [], by simp⟩
  | chunk data => exact .inr ⟨r.handleChunk_fileInfo data, r.handleChunk_calls data⟩

/-- The downloader follows the receiver. -/
theorem Saved.follow (h : Saved file id supported x heard evs) {y : Transfer}
    {heard' : List Receiver.Incoming} (hlossy : Transfer.Lossy file y heard')
    (hinformed : Transfer.Informed heard')
    (hreceiver : (x.transfer.receiver.fileInfo = none ∧ y.receiver.downloader = some []) ∨
      y.receiver.fileInfo = x.transfer.receiver.fileInfo ∧
        ∃ added, y.receiver.downloader = x.transfer.receiver.downloader.map (· ++ added))
    (hready : .chunk 0 ∈ heard' → ∃ d, x.downloader = some d ∧ d.awaiting = none) :
    ∃ evs', Saved file id supported
      { transfer := y
        downloader := Download.follow id supported x.transfer.receiver y.receiver x.downloader }
      heard' evs' := by
  rcases told_iff h.lossy.heard with ⟨-, hsome, hdown⟩ | ⟨-, hnone, hdown⟩
  · -- the downloader is there, and is called
    obtain ⟨calls, hcalls⟩ := Option.isSome_iff_exists.mp hdown
    obtain ⟨d, hd, hrun, hevs⟩ := h.present calls hcalls
    rcases hreceiver with ⟨hno, -⟩ | ⟨-, added, hadded⟩
    · rw [hsome] at hno
      cases hno
    rw [hcalls, Option.map_some] at hadded
    have hfollow : Download.follow id supported x.transfer.receiver y.receiver x.downloader =
        some (added.foldl StreamingDownloader.call d) := by
      rw [hd, Download.follow, hcalls, hadded, Option.getD_some, Option.getD_some,
        List.drop_left]
    refine ⟨evs ++ added.map .call, hlossy, hinformed, ?_, ?_, ?_, ?_⟩
    · intro hnone
      rw [hadded] at hnone
      cases hnone
    · intro calls' hcalls'
      obtain rfl := Option.some.inj (hadded.symm.trans hcalls')
      refine ⟨_, hfollow, ?_, ?_⟩
      · rw [Runs.run_append, hrun, Option.bind_some, StreamingDownloader.run_calls]
      · rw [StreamingDownloader.callsOf_append, StreamingDownloader.callsOf_map_call, hevs]
    · exact h.prepared.append (.inl (by simp))
    · intro hmem
      obtain ⟨d₁, hd₁, hwait⟩ := hready hmem
      obtain rfl := Option.some.inj (hd.symm.trans hd₁)
      refine ⟨_, hfollow, ?_⟩
      rw [StreamingDownloader.foldl_call_awaiting, hwait]
  · -- there is none yet
    obtain ⟨hd, rfl⟩ := h.absent hdown
    have hzero : .chunk 0 ∉ heard' := by
      intro hmem
      obtain ⟨d, hd₁, -⟩ := hready hmem
      rw [hd] at hd₁
      cases hd₁
    have hprepared : StreamingDownloader.PreparedFirst [] := h.prepared
    refine ⟨[], hlossy, hinformed, ?_, ?_, hprepared, fun hmem => absurd hmem hzero⟩
    · intro hdown'
      refine ⟨?_, rfl⟩
      rcases told_iff hlossy.heard with ⟨-, -, hsome⟩ | ⟨-, hnone', -⟩
      · rw [hdown'] at hsome
        cases hsome
      · show Download.follow id supported x.transfer.receiver y.receiver x.downloader = none
        rw [hd, Download.follow, hnone', Option.map_none]
    · intro calls hcalls
      rcases told_iff hlossy.heard with ⟨-, hinfo, -⟩ | ⟨-, -, hdown'⟩
      · refine ⟨create id supported (fileInfo file), ?_, rfl, ?_⟩
        · show Download.follow id supported x.transfer.receiver y.receiver x.downloader = _
          rw [hd, Download.follow, hinfo, Option.map_some]
        · rcases hreceiver with ⟨-, hnew⟩ | ⟨-, added, hadded⟩
          · exact Option.some.inj (hnew.symm.trans hcalls)
          · have hcalls' : y.receiver.downloader = some calls := hcalls
            rw [hadded, hdown] at hcalls'
            cases hcalls'
      · have hcalls' : y.receiver.downloader = some calls := hcalls
        rw [hdown'] at hcalls'
        cases hcalls'

theorem Saved.step {a : Action} (h : Saved file id supported x heard evs)
    (h32 : totalChunks file ≤ 2 ^ 32) (hok : ReadyFirst x a)
    (hs : step cfg file id supported x a = some y) :
    ∃ heard' evs', Saved file id supported y heard' evs' := by
  cases a with
  | transfer a =>
      obtain ⟨z, hstep, rfl⟩ := Option.map_eq_some_iff.mp hs
      have hreceiver : (x.transfer.receiver.fileInfo = none ∧ z.receiver.downloader = some []) ∨
          z.receiver.fileInfo = x.transfer.receiver.fileInfo ∧
            ∃ added, z.receiver.downloader = x.transfer.receiver.downloader.map (· ++ added) := by
        cases a with
        | sender a =>
            obtain ⟨s, -, rfl⟩ := Option.map_eq_some_iff.mp hstep
            exact .inr ⟨rfl, [], by simp⟩
        | deliver t =>
            obtain ⟨tr, -, hstep⟩ := Option.bind_eq_some_iff.mp hstep
            obtain ⟨f, -, hstep⟩ := Option.bind_eq_some_iff.mp hstep
            obtain rfl := Option.some.inj hstep
            exact onmessage_calls _ _
      rcases h.lossy.step hstep with hz | ⟨t, f, ev, rfl, hnext, hchunk, hz⟩
      · exact ⟨heard, h.follow hz h.informed hreceiver h.ready⟩
      · -- the frame is chunk 0 only when `prepare` is over
        have hready : ev = .chunk 0 → ∃ d, x.downloader = some d ∧ d.awaiting = none :=
          fun hev => hok f hnext ((hchunk 0).mp hev)
        have hinformed : Transfer.Informed (heard ++ [ev]) := by
          apply h.informed.snoc ev
          intro hev
          obtain ⟨d, hd, -⟩ := hready hev
          rcases told_iff h.lossy.heard with ⟨hinfo, -⟩ | ⟨-, -, hdown⟩
          · exact hinfo
          · rw [(h.absent hdown).1] at hd
            cases hd
        refine ⟨heard ++ [ev], h.follow hz hinformed hreceiver fun hmem => ?_⟩
        rcases List.mem_append.mp hmem with hmem | hmem
        · exact h.ready hmem
        · exact hready (List.mem_singleton.mp hmem).symm
  | prepare e =>
      cases e with
      | call c => simp [Download.step] at hs
      | registered ok | activated found | acked ok =>
          obtain ⟨d, hd, hs⟩ := Option.bind_eq_some_iff.mp hs
          obtain ⟨d', hd', hs⟩ := Option.bind_eq_some_iff.mp hs
          obtain rfl := Option.some.inj hs
          exact ⟨heard, _, h.prepare h32 hd (by simp) hd'⟩

end Invariant

/-- Every chunk of the file has been delivered. -/
def Whole (file : File) (x : Download) : Prop :=
  0 < totalChunks file ∧ ∀ i < totalChunks file, x.transfer.Arrived i

/-- **The download**: in every run in which `prepare` is over before chunk 0
arrives, whatever fails, the receiver's browser saves the file once its last chunk
has arrived, and nothing before; the file has at most 2 ^ 32 chunks. -/
theorem download_safe (cfg : Config) (file : File) (h32 : totalChunks file ≤ 2 ^ 32)
    (id : String) (supported : Bool) (x : Download)
    (h : Runs.ReachWhen (step cfg file id supported) ReadyFirst (fresh cfg file) x)
    (sw : ServiceWorker String) (k : Nat) :
    (x.Whole file → x.files sw (k + 1) = [file.bytes]) ∧
      (¬ x.Whole file → x.files sw (k + 1) = []) := by
  obtain ⟨heard, evs, hx⟩ : ∃ heard evs, Saved file id supported x heard evs :=
    Runs.ReachWhen.invariant
      (I := fun x => ∃ heard evs, Saved file id supported x heard evs) h
      ⟨[], [], saved_fresh cfg file id supported⟩
      fun _ _ _ ⟨_, _, hu⟩ hok hs => hu.step h32 hok hs
  have hsafe := hx.lossy.heard.safe hx.informed h32
  cases hcalls : x.transfer.receiver.downloader with
  | none =>
      have hnotWhole : ¬ x.Whole file := by
        intro hwhole
        obtain ⟨-, calls, hsome, -⟩ := hsafe.completed (hsafe.completed_iff.mpr hwhole)
        rw [hcalls] at hsome
        cases hsome
      refine ⟨fun hwhole => absurd hwhole hnotWhole, fun _ => ?_⟩
      rw [files, (hx.absent hcalls).1]
      rfl
  | some calls =>
      obtain ⟨d, hd, hrun, hevs⟩ := hx.present calls hcalls
      obtain ⟨bs, hopen, hclosed⟩ := hx.lossy.heard.calls hx.informed h32 hcalls
      have hproduced := StreamingDownloader.produced_of_prepared hrun hx.prepared bs sw k
      have hfiles : x.files sw (k + 1) = d.produced sw (k + 1) := by
        rw [files, hd]
        rfl
      rw [hfiles]
      constructor
      · intro hwhole
        obtain ⟨hlast, hbytes⟩ := hclosed (hsafe.completed_iff.mpr hwhole)
        rw [← hbytes]
        exact hproduced.2 (hevs.trans hlast)
      · intro hpart
        have hnone : x.transfer.receiver.completions = [] := by
          by_contra hne
          exact hpart (hsafe.completed_iff.mp hne)
        exact hproduced.1 (hevs.trans (hopen hnone))

/-- Relay 0 closes after the file-info; `prepare` gets its worker, and relay 1 sends
the chunk. -/
def preparedRun : List Action :=
  (Transfer.lossyRun.take 4).map .transfer ++
    [.prepare (.registered true), .prepare (.activated true), .prepare (.acked true)] ++
    (Transfer.lossyRun.drop 4).map .transfer

def preparedEnd : Option Download :=
  Runs.run (step Transfer.twoRelays oneByteFile "dl-0" true)
    (fresh Transfer.twoRelays oneByteFile) preparedRun

theorem download_safe_oneByteFile :
    ∃ x ∈ preparedEnd, x.files {} 2 = [oneByteFile.bytes] := by
  have hsome : preparedEnd.isSome := by decide +kernel
  have hready : Runs.Meets (step Transfer.twoRelays oneByteFile "dl-0" true) ReadyFirst
      (fresh Transfer.twoRelays oneByteFile) preparedRun := by decide +kernel
  have hout : ∀ x ∈ preparedEnd, (x.transfer.sender.out 1).take (x.transfer.delivered 1) =
      [.chunk (readChunk oneByteFile 0)] := by decide +kernel
  obtain ⟨x, hx⟩ := Option.isSome_iff_exists.mp hsome
  refine ⟨x, hx, (download_safe Transfer.twoRelays oneByteFile (by decide) "dl-0" true x
    (Runs.reachWhen_of_run preparedRun hx hready) {} 1).1 ⟨by decide, fun i hi => ?_⟩⟩
  obtain rfl : i = 0 := by
    rw [totalChunks_oneByteFile] at hi
    omega
  refine ⟨1, .chunk (readChunk oneByteFile 0), ?_, rfl⟩
  rw [hout x hx]
  exact List.mem_singleton_self _

end Download

end FastTransfer.Web
