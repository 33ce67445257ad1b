import FastTransfer.Lib.Runs
import FastTransfer.Web.Receiver
import FastTransfer.Web.ServiceWorker

/-!
# The streaming downloader

`StreamingDownloader` of `web/static/js/transfer.js`: `prepare` with its
three awaits, and the `write` and `close` calls that the receiver makes on the
object while `prepare` is still running. A step is either a call or the
continuation of `prepare` after one await.

The file comes out either as a Blob, assembled by `close`, or as the
service-worker stream that answers the hidden iframe's fetch. What was
written before `prepare` switches to the worker stays in `fallbackChunks`,
and no later call reads it.
-/

namespace FastTransfer.Web

open Runs

/-- The values of `this.mode` other than `null`. -/
inductive DownloadMode where
  | sw
  | blob
  deriving DecidableEq

/-- What `prepare` is awaiting. -/
inductive PrepareAwait where
  /-- `navigator.serviceWorker.register` -/
  | register
  /-- `_waitForActive` -/
  | active
  /-- the worker's answer to the register message -/
  | ack
  deriving DecidableEq

/-- A download made by the Blob fallback. -/
structure BlobDownload where
  name : String
  type : String
  parts : List Bytes
  deriving DecidableEq

/-- A `StreamingDownloader`, and what it has posted and saved. -/
structure StreamingDownloader where
  id : String
  mode : Option DownloadMode := none
  fallbackChunks : List Bytes := []
  fallbackMime : String := "application/octet-stream"
  fallbackName : String := "download"
  /-- Where `prepare` is, once it has been called and until it returns. -/
  awaiting : Option PrepareAwait := none
  /-- The `size` argument of `prepare`. -/
  size : Nat := 0
  /-- The messages posted to the worker. -/
  posted : List (SwMessage String) := []
  /-- The downloads triggered by `close` in the Blob branch. -/
  blobs : List BlobDownload := []
  deriving DecidableEq

namespace StreamingDownloader

/-- `prepare` up to its first await; without service workers or a secure
context it returns at once, in Blob mode. -/
def prepare (d : StreamingDownloader) (name : String) (size : Nat) (mime : String)
    (supported : Bool) : StreamingDownloader :=
  let d := { d with
    fallbackName := name
    fallbackMime := if mime = "" then "application/octet-stream" else mime
    size := size }
  if supported then { d with awaiting := some .register } else { d with mode := some .blob }

/-- The rest of `prepare` when the worker cannot be used. -/
def fallBack (d : StreamingDownloader) : StreamingDownloader :=
  { d with mode := some .blob, awaiting := none }

/-- The rest of `prepare` once the iframe is open. -/
def startStreaming (d : StreamingDownloader) : StreamingDownloader :=
  { d with mode := some .sw, awaiting := none }

/-- `this._sw.postMessage(m)`. -/
def postMessage (d : StreamingDownloader) (m : SwMessage String) : StreamingDownloader :=
  { d with posted := d.posted ++ [m] }

/-- `write`. -/
def write (d : StreamingDownloader) (uint8 : Bytes) : StreamingDownloader :=
  if d.mode = some .sw then d.postMessage (.chunk d.id uint8)
  else { d with fallbackChunks := d.fallbackChunks ++ [uint8] }

/-- `close`; a blob is saved at once. -/
def close (d : StreamingDownloader) : StreamingDownloader :=
  if d.mode = some .sw then d.postMessage (.close d.id)
  else
    { d with
      blobs := d.blobs ++ [⟨d.fallbackName, d.fallbackMime, d.fallbackChunks⟩]
      fallbackChunks := [] }

/-- A call on the downloader, or the end of an await of `prepare`. -/
inductive Event where
  | call (c : DownloaderCall)
  /-- `register` resolves, or throws. -/
  | registered (ok : Bool)
  /-- `_waitForActive` resolves, to a worker or to `null`. -/
  | activated (found : Bool)
  /-- The answer arrives, and opening the iframe works, or throws. -/
  | acked (ok : Bool)
  deriving DecidableEq

/-- One event. -/
def step (d : StreamingDownloader) : Event → Option StreamingDownloader
  | .call (.write uint8) => some (d.write uint8)
  | .call .close => some d.close
  | .registered ok =>
      if d.awaiting = some .register then
        some (if ok then { d with awaiting := some .active } else d.fallBack)
      else none
  | .activated found =>
      if d.awaiting = some .active then
        some (if found then
            { d with awaiting := some .ack }.postMessage
              (.register d.id d.fallbackName d.size d.fallbackMime)
          else d.fallBack)
      else none
  | .acked ok =>
      if d.awaiting = some .ack then
        some (if ok then d.startStreaming else d.fallBack)
      else none

/-- The files that the downloader gives: its Blobs, and in service-worker mode
what the worker makes of the messages posted when the iframe's fetch reaches it
after the first `k` of them. -/
def produced (d : StreamingDownloader) (sw : ServiceWorker String) (k : Nat) : List Bytes :=
  d.blobs.map (·.parts.flatten) ++ if d.mode = some .sw then sw.files d.id d.posted k else []

/-! ## The calls of a run -/

/-- The calls among some events. -/
def callsOf (evs : List Event) : List DownloaderCall :=
  evs.filterMap fun
    | .call c => some c
    | _ => none

/-- The calls made before the worker's answer switches the mode, if it does. -/
def callsBeforeSwitch : List Event → Option (List DownloaderCall)
  | [] => none
  | .acked true :: _ => some []
  | .call c :: evs => (callsBeforeSwitch evs).map (c :: ·)
  | _ :: evs => callsBeforeSwitch evs

/-- Among these calls is the close, or no byte has been written. -/
def NothingStranded (cs : List DownloaderCall) : Prop :=
  .close ∈ cs ∨ ∀ uint8, .write uint8 ∈ cs → uint8 = []

/-! ## Before the switch -/

/-- Until the mode switches, the calls `cs` made so far went to the Blob
branch, and only the register message may have been posted. -/
structure Buffering (d : StreamingDownloader) (cs : List DownloaderCall) : Prop where
  mode : d.mode ≠ some .sw
  written : ∀ bs : List Bytes, cs = bs.map .write → d.fallbackChunks = bs ∧ d.blobs = []
  closed : ∀ bs : List Bytes, cs = bs.map .write ++ [.close] →
    d.blobs.map (·.parts.flatten) = [bs.flatten]
  unposted : d.awaiting = some .register ∨ d.awaiting = some .active → d.posted = []
  registered : d.awaiting = some .ack →
    d.posted = [.register d.id d.fallbackName d.size d.fallbackMime]

theorem buffering_prepare (id name : String) (size : Nat) (mime : String) (supported : Bool) :
    Buffering (prepare { id } name size mime supported) [] := by
  cases supported with
  | true | false =>
      exact ⟨by simp [prepare], by simp [prepare], by simp, by simp [prepare], by simp [prepare]⟩

theorem Buffering.write {d : StreamingDownloader} {cs : List DownloaderCall}
    (h : Buffering d cs) (b : Bytes) : Buffering (d.write b) (cs ++ [.write b]) := by
  rw [StreamingDownloader.write, if_neg h.mode]
  refine ⟨h.mode, ?_, ?_, h.unposted, h.registered⟩
  · intro bs hbs
    obtain ⟨bs', bs'', rfl, hbs', hlast⟩ := List.map_eq_append_iff.mp hbs.symm
    obtain ⟨b', rfl, hb'⟩ := List.map_eq_singleton_iff.mp hlast
    obtain ⟨hchunks, hblobs⟩ := h.written bs' hbs'.symm
    cases hb'
    exact ⟨by rw [hchunks], hblobs⟩
  · intro bs hbs
    simp at hbs

theorem Buffering.close {d : StreamingDownloader} {cs : List DownloaderCall}
    (h : Buffering d cs) : Buffering d.close (cs ++ [.close]) := by
  rw [StreamingDownloader.close, if_neg h.mode]
  refine ⟨h.mode, ?_, ?_, h.unposted, h.registered⟩
  · intro bs hbs
    have hmem : DownloaderCall.close ∈ bs.map DownloaderCall.write := by simp [← hbs]
    simp at hmem
  · intro bs hbs
    obtain ⟨hchunks, hblobs⟩ := h.written bs (List.append_inj_left' hbs rfl)
    simp [hchunks, hblobs]

theorem Buffering.fallBack {d : StreamingDownloader} {cs : List DownloaderCall}
    (h : Buffering d cs) : Buffering d.fallBack cs :=
  ⟨by simp [StreamingDownloader.fallBack], h.written, h.closed,
    by simp [StreamingDownloader.fallBack], by simp [StreamingDownloader.fallBack]⟩

/-- Every step but the switch keeps buffering. -/
theorem Buffering.step {d d' : StreamingDownloader} {cs : List DownloaderCall} {e : Event}
    (h : Buffering d cs) (hs : d.step e = some d') (he : e ≠ .acked true) :
    Buffering d' (cs ++ callsOf [e]) := by
  cases e with
  | call c =>
      cases c with
      | write b =>
          cases hs
          exact h.write b
      | close =>
          cases hs
          exact h.close
  | registered ok =>
      obtain ⟨hwait, hd⟩ := Option.ite_none_right_eq_some.mp hs
      obtain rfl := Option.some.inj hd
      cases ok with
      | true => simpa [callsOf] using
          ⟨h.mode, h.written, h.closed, fun _ => h.unposted (.inl hwait), by simp⟩
      | false => simpa [callsOf] using h.fallBack
  | activated found =>
      obtain ⟨hwait, hd⟩ := Option.ite_none_right_eq_some.mp hs
      obtain rfl := Option.some.inj hd
      cases found with
      | true =>
          have hposted := h.unposted (.inr hwait)
          simpa [callsOf, postMessage] using
            ⟨h.mode, h.written, h.closed, by simp, by simp [hposted]⟩
      | false => simpa [callsOf] using h.fallBack
  | acked ok =>
      obtain ⟨hwait, hd⟩ := Option.ite_none_right_eq_some.mp hs
      obtain rfl := Option.some.inj hd
      cases ok with
      | true => exact absurd rfl he
      | false => simpa [callsOf] using h.fallBack

theorem callsOf_cons (e : Event) (evs : List Event) :
    callsOf (e :: evs) = callsOf [e] ++ callsOf evs := by
  cases e <;> rfl

theorem callsOf_append (evs evs' : List Event) :
    callsOf (evs ++ evs') = callsOf evs ++ callsOf evs' :=
  List.filterMap_append

theorem Buffering.run {d d' : StreamingDownloader} {cs : List DownloaderCall} {evs : List Event}
    (h : Buffering d cs) (hrun : Runs.run StreamingDownloader.step d evs = some d')
    (hevs : .acked true ∉ evs) : Buffering d' (cs ++ callsOf evs) := by
  induction evs generalizing d cs with
  | nil =>
      cases hrun
      simpa [callsOf] using h
  | cons e evs ih =>
      obtain ⟨d₁, hs, hrest⟩ := Option.bind_eq_some_iff.mp hrun
      have hne : e ≠ .acked true := fun he => hevs (he ▸ List.mem_cons_self)
      rw [callsOf_cons, ← List.append_assoc]
      exact ih (h.step hs hne) hrest fun hmem => hevs (List.mem_cons_of_mem _ hmem)

/-! ## After the switch -/

/-- The message that a call posts in service-worker mode. -/
def message (id : String) : DownloaderCall → SwMessage String
  | .write uint8 => .chunk id uint8
  | .close => .close id

/-- In service-worker mode, with `prepare` over, only calls are left, and each
posts its message. -/
theorem run_streaming {d d' : StreamingDownloader} {evs : List Event}
    (hmode : d.mode = some .sw) (hwait : d.awaiting = none)
    (hrun : Runs.run StreamingDownloader.step d evs = some d') :
    d' = { d with posted := d.posted ++ (callsOf evs).map (message d.id) } := by
  induction evs generalizing d with
  | nil =>
      cases hrun
      simp [callsOf]
  | cons e evs ih =>
      obtain ⟨d₁, hs, hrest⟩ := Option.bind_eq_some_iff.mp hrun
      cases e with
      | call c =>
          have hd₁ : d₁ = d.postMessage (message d.id c) := by
            cases c with
            | write b =>
                simp only [StreamingDownloader.step, StreamingDownloader.write, if_pos hmode] at hs
                exact (Option.some.inj hs).symm
            | close =>
                simp only [StreamingDownloader.step, StreamingDownloader.close, if_pos hmode] at hs
                exact (Option.some.inj hs).symm
          subst hd₁
          have hmode₁ : (d.postMessage (message d.id c)).mode = some .sw := hmode
          rw [ih hmode₁ hwait hrest]
          simp [postMessage, callsOf]
      | registered ok | activated found | acked ok =>
          simp [StreamingDownloader.step, hwait] at hs

/-! ## What comes out -/

theorem callsBeforeSwitch_eq_none {evs : List Event} :
    callsBeforeSwitch evs = none ↔ .acked true ∉ evs := by
  induction evs with
  | nil => simp [callsBeforeSwitch]
  | cons e evs ih =>
      rcases e with c | ok | found | (_ | _) <;> simp [callsBeforeSwitch, ih]

theorem callsBeforeSwitch_append {pre post : List Event} (hpre : .acked true ∉ pre) :
    callsBeforeSwitch (pre ++ .acked true :: post) = some (callsOf pre) := by
  induction pre with
  | nil => rfl
  | cons e pre ih =>
      have hrest := ih fun hmem => hpre (List.mem_cons_of_mem _ hmem)
      rcases e with c | ok | found | (_ | _)
      · simp [callsBeforeSwitch, hrest, callsOf]
      · simpa [callsBeforeSwitch, callsOf] using hrest
      · simpa [callsBeforeSwitch, callsOf] using hrest
      · simpa [callsBeforeSwitch, callsOf] using hrest
      · exact absurd List.mem_cons_self hpre

/-- The calls of a whole download, cut at the switch: either the close is in
the first part, or it ends the second. -/
theorem calls_cut {before after : List DownloaderCall} {bs : List Bytes}
    (h : before ++ after = bs.map .write ++ [.close]) :
    (after = [] ∧ before = bs.map .write ++ [.close]) ∨
      ∃ early late : List Bytes, bs = early ++ late ∧ before = early.map .write ∧
        after = late.map .write ++ [.close] := by
  rcases List.eq_nil_or_concat after with rfl | ⟨after', c, rfl⟩
  · exact .inl ⟨rfl, by simpa using h⟩
  · rw [List.concat_eq_append, ← List.append_assoc] at h
    obtain ⟨hwrites, hc⟩ := List.append_inj' h rfl
    obtain ⟨early, late, rfl, hbefore, hafter⟩ := List.map_eq_append_iff.mp hwrites.symm
    exact .inr ⟨early, late, rfl, hbefore.symm, by rw [List.concat_eq_append, hafter, hc]⟩

/-- Of the writes alone, nothing is stranded if they carry no byte. -/
theorem nothingStranded_writes (bs : List Bytes) :
    NothingStranded (bs.map .write) ↔ bs.flatten = [] := by
  simp [NothingStranded, List.flatten_eq_nil_iff]

/-- **When the file is complete.** Whatever the order of the receiver's calls
and the awaits of `prepare`, and whenever the fetch reaches the worker, the
one file produced holds exactly the bytes written if and only if nothing was
stranded at the switch to the worker. -/
theorem produced_iff (id name : String) (size : Nat) (mime : String) (supported : Bool)
    (evs : List Event) (bs : List Bytes) (d : StreamingDownloader)
    (sw : ServiceWorker String) (k : Nat)
    (hrun : run step (prepare { id } name size mime supported) evs = some d)
    (hcalls : callsOf evs = bs.map .write ++ [.close]) :
    d.produced sw (k + 1) = [bs.flatten] ↔
      ∀ cs ∈ callsBeforeSwitch evs, NothingStranded cs := by
  have hstart := buffering_prepare id name size mime supported
  by_cases hsw : .acked true ∈ evs
  · obtain ⟨pre, post, rfl, hpre⟩ := List.eq_append_cons_of_mem hsw
    rw [run_append] at hrun
    obtain ⟨d₁, hrun₁, hrun₂⟩ := Option.bind_eq_some_iff.mp hrun
    have hbuf := hstart.run hrun₁ hpre
    obtain ⟨d₂, hswitch, hrun₃⟩ := Option.bind_eq_some_iff.mp hrun₂
    obtain ⟨hack, hd₂⟩ := Option.ite_none_right_eq_some.mp hswitch
    obtain rfl := Option.some.inj hd₂
    rw [if_pos rfl] at hrun₃
    obtain rfl := run_streaming rfl rfl hrun₃
    have hposted := hbuf.registered hack
    have hbefore : callsBeforeSwitch (pre ++ .acked true :: post) = some (callsOf pre) :=
      callsBeforeSwitch_append hpre
    rw [callsOf_append, callsOf_cons (.acked true)] at hcalls
    rcases calls_cut hcalls with ⟨hafter, hpre_calls⟩ | ⟨early, late, rfl, hearly, hlate⟩
    · -- closed before the switch: the Blob is the file, and the stream stays open
      have hblob := hbuf.closed bs hpre_calls
      have hopen : callsOf post = [] := hafter
      simp [produced, startStreaming, hblob, hopen, hposted, hbefore, NothingStranded, hpre_calls,
        ServiceWorker.files_of_register]
    · -- closed after it: the stream has what was written since the switch
      have hlate : callsOf post = late.map .write ++ [.close] := hlate
      obtain ⟨-, hblobs⟩ := hbuf.written early (by simpa using hearly)
      have hmsgs : (callsOf post).map (message d₁.id) =
          late.map (SwMessage.chunk d₁.id) ++ [.close d₁.id] := by
        simp [hlate, message]
      simp only [produced, startStreaming, hblobs, hposted, hmsgs, hbefore, hearly, if_pos,
        List.map_nil, List.nil_append, List.singleton_append, ServiceWorker.files_of_close,
        Option.mem_some_iff, forall_eq', nothingStranded_writes, List.flatten_append,
        List.cons.injEq, and_true]
      simp
  · have hbuf := hstart.run hrun hsw
    have hblob := hbuf.closed bs hcalls
    simp [callsBeforeSwitch_eq_none.mpr hsw, produced, hblob, hbuf.mode]

/-- A two-byte download for which `prepare` is over before the first chunk. -/
def preparedFirst : List Event :=
  [.registered true, .activated true, .acked true, .call (.write [1]), .call (.write [2]),
    .call .close]

theorem produced_iff_preparedFirst :
    ∃ d, run step (prepare { id := "dl-0" } "a.txt" 2 "text/plain" true) preparedFirst = some d ∧
      d.produced {} 2 = [[1, 2]] := by
  refine ⟨_, rfl, (produced_iff "dl-0" "a.txt" 2 "text/plain" true preparedFirst [[1], [2]] _ {} 1
    rfl rfl).mpr ?_⟩
  simp [preparedFirst, callsBeforeSwitch, NothingStranded]

/-- The first chunk arrives while the worker is still being registered. -/
def overtaken : List Event :=
  [.call (.write [1]), .registered true, .activated true, .acked true, .call (.write [2]),
    .call .close]

/-- The overtaken chunk is missing from the file: it waits in `fallbackChunks`,
which `close` no longer reads. -/
theorem stranded_overtaken :
    callsOf overtaken = [[1], [2]].map .write ++ [.close] ∧
      ∃ d, run step (prepare { id := "dl-0" } "a.txt" 2 "text/plain" true) overtaken = some d ∧
        d.awaiting = none ∧ d.produced {} 1 = [[2]] ∧ d.produced {} 1 ≠ [[[1], [2]].flatten] :=
  ⟨rfl, _, rfl, by decide, by decide, by decide⟩

end StreamingDownloader

end FastTransfer.Web
