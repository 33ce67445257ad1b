import Mathlib.Data.List.AList
import FastTransfer.Web.Chunks

/-!
# The streaming-download service worker

The message and fetch handlers of `web/static/js/sw.js`. The worker keeps an
entry for each download id and answers the fetch of `/sw-download/<id>` with
a `ReadableStream`; the streams handed out are kept in `bodies`, in the order
of the fetches, and an entry's `controller` is the position of its stream.
The URL of a fetch and the headers of its answer are not modelled; `onfetch` says
what that leaves out.

`Serving` describes one download from the worker's side: the chunks posted so
far, whether it is closed, and which stream, if any, answers its fetch. Every
message and the fetch lead from one such state to the next.
-/

namespace FastTransfer.Web

/-- The state of a `ReadableStream`. -/
inductive StreamState where
  | readable
  | closed
  | errored
  deriving DecidableEq

/-- A `ReadableStream` that answers a fetch: what its controller was given. -/
structure ReadableStream where
  enqueued : List Bytes := []
  state : StreamState := .readable
  deriving DecidableEq

/-- `controller.enqueue`; on a stream that is not readable it throws, and the
handler drops the error. -/
def ReadableStream.enqueue (s : ReadableStream) (data : Bytes) : ReadableStream :=
  if s.state = .readable then { s with enqueued := s.enqueued ++ [data] } else s

/-- `controller.close`. -/
def ReadableStream.close (s : ReadableStream) : ReadableStream :=
  if s.state = .readable then { s with state := .closed } else s

/-- `controller.error`. -/
def ReadableStream.error (s : ReadableStream) : ReadableStream :=
  if s.state = .readable then { s with state := .errored } else s

/-- An entry of the `streams` map. -/
structure SwEntry where
  controller : Option Nat := none
  filename : String
  size : Nat
  mime : String
  pending : List Bytes := []
  closed : Bool := false
  deriving DecidableEq

/-- The messages that a page posts. -/
inductive SwMessage (ι : Type) where
  | register (id : ι) (filename : String) (size : Nat) (mime : String)
  | chunk (id : ι) (data : Bytes)
  | close (id : ι)
  | abort (id : ι)
  deriving DecidableEq

/-- The map of the worker, and the streams that it has answered fetches with. -/
structure ServiceWorker (ι : Type) where
  streams : AList (fun _ : ι => SwEntry) := ∅
  bodies : List ReadableStream := []

namespace ServiceWorker

variable {ι : Type} [DecidableEq ι]

/-- The `message` event handler. -/
def onmessage (sw : ServiceWorker ι) : SwMessage ι → ServiceWorker ι
  | .register id filename size mime =>
      let mime := if mime = "" then "application/octet-stream" else mime
      { sw with streams := sw.streams.insert id { filename, size, mime } }
  | .chunk id data =>
      match sw.streams.lookup id with
      | none => sw
      | some entry =>
          match entry.controller with
          | some c => { sw with bodies := sw.bodies.modify c (·.enqueue data) }
          | none =>
              { sw with streams :=
                  sw.streams.insert id { entry with pending := entry.pending ++ [data] } }
  | .close id =>
      match sw.streams.lookup id with
      | none => sw
      | some entry =>
          match entry.controller with
          | some c =>
              { sw with bodies := sw.bodies.modify c (·.close), streams := sw.streams.erase id }
          | none => { sw with streams := sw.streams.insert id { entry with closed := true } }
  | .abort id =>
      match sw.streams.lookup id with
      | none => sw
      | some entry =>
          let sw := match entry.controller with
            | some c => { sw with bodies := sw.bodies.modify c (·.error) }
            | none => sw
          { sw with streams := sw.streams.erase id }

/-- The `fetch` event handler, for a URL whose path is `/sw-download/` and the
`encodeURIComponent` of `id`, as `prepare` makes it: the match finds that part and
`decodeURIComponent` gives `id` back. So it is for every id but the empty one,
`"."` and `".."`, whose URLs the handler leaves to the network. Without an entry the
answer is a 404 and nothing changes.

The stream is the body of the answer if `new Headers` takes the entry: its `mime`
is a header value (no NUL, no line break inside, no character above U+00FF), and its
`filename` has no lone surrogate, on which `encodeURIComponent` throws. Otherwise
the handler throws after `start` has run: the entry and the stream are as they are
here, and the browser takes the answer from the network instead. -/
def onfetch (sw : ServiceWorker ι) (id : ι) : ServiceWorker ι :=
  match sw.streams.lookup id with
  | none => sw
  | some entry =>
      let stream := entry.pending.foldl ReadableStream.enqueue {}
      if entry.closed then
        { sw with bodies := sw.bodies ++ [stream.close], streams := sw.streams.erase id }
      else
        { sw with
          bodies := sw.bodies ++ [stream]
          streams := sw.streams.insert id
            { entry with controller := some sw.bodies.length, pending := [] } }

/-- The stream's `cancel` callback. -/
def oncancel (sw : ServiceWorker ι) (id : ι) : ServiceWorker ι :=
  { sw with streams := sw.streams.erase id }

/-! ## One download -/

/-- The download `id` has been posted the chunks `ds`, and its close if
`closed`. Until the fetch they wait in the entry; `body` is the stream that
answers the fetch, and the entry is gone once both have happened. -/
inductive Serving (sw : ServiceWorker ι) (id : ι) (ds : List Bytes) :
    (closed : Bool) → (body : Option Nat) → Prop where
  | waiting {closed : Bool} (entry : SwEntry) (hentry : sw.streams.lookup id = some entry)
      (hctl : entry.controller = none) (hpending : entry.pending = ds)
      (hclosed : entry.closed = closed) : Serving sw id ds closed none
  | streaming (entry : SwEntry) (b : Nat) (hentry : sw.streams.lookup id = some entry)
      (hctl : entry.controller = some b) (hbody : sw.bodies[b]? = some ⟨ds, .readable⟩) :
      Serving sw id ds false (some b)
  | finished (b : Nat) (hentry : sw.streams.lookup id = none)
      (hbody : sw.bodies[b]? = some ⟨ds, .closed⟩) : Serving sw id ds true (some b)

theorem foldl_enqueue (ds : List Bytes) (s : ReadableStream) (h : s.state = .readable) :
    ds.foldl ReadableStream.enqueue s = ⟨s.enqueued ++ ds, .readable⟩ := by
  induction ds generalizing s with
  | nil =>
      obtain ⟨q, st⟩ := s
      obtain rfl : st = .readable := h
      simp
  | cons d ds ih =>
      rw [List.foldl_cons, ih _ (by simp [ReadableStream.enqueue, h])]
      simp [ReadableStream.enqueue, h]

theorem serving_register (sw : ServiceWorker ι) (id : ι) (filename : String) (size : Nat)
    (mime : String) : Serving (sw.onmessage (.register id filename size mime)) id [] false none :=
  .waiting _ (AList.lookup_insert _) rfl rfl rfl

theorem Serving.chunk {sw : ServiceWorker ι} {id : ι} {ds : List Bytes} {body : Option Nat}
    (h : Serving sw id ds false body) (d : Bytes) :
    Serving (sw.onmessage (.chunk id d)) id (ds ++ [d]) false body := by
  cases h with
  | waiting entry hentry hctl hpending hclosed =>
      simp only [onmessage, hentry, hctl]
      exact .waiting _ (AList.lookup_insert _) rfl (by simp [hpending]) hclosed
  | streaming entry b hentry hctl hbody =>
      simp only [onmessage, hentry, hctl]
      refine .streaming entry b hentry hctl ?_
      simp [hbody, ReadableStream.enqueue]

theorem Serving.close {sw : ServiceWorker ι} {id : ι} {ds : List Bytes} {body : Option Nat}
    (h : Serving sw id ds false body) : Serving (sw.onmessage (.close id)) id ds true body := by
  cases h with
  | waiting entry hentry hctl hpending hclosed =>
      simp only [onmessage, hentry, hctl]
      exact .waiting _ (AList.lookup_insert _) rfl hpending rfl
  | streaming entry b hentry hctl hbody =>
      simp only [onmessage, hentry, hctl]
      refine .finished b (AList.lookup_erase _ _) ?_
      simp [hbody, ReadableStream.close]

/-- The fetch flushes what was posted before it, and closes the stream if the
close was already there. -/
theorem Serving.fetch {sw : ServiceWorker ι} {id : ι} {ds : List Bytes} {closed : Bool}
    (h : Serving sw id ds closed none) :
    Serving (sw.onfetch id) id ds closed (some sw.bodies.length) := by
  cases h with
  | waiting entry hentry hctl hpending hclosed =>
      have hstream := foldl_enqueue entry.pending {} rfl
      rw [hpending, List.nil_append] at hstream
      simp only [onfetch, hentry, hpending, hstream, hclosed]
      cases closed with
      | true => exact .finished _ (AList.lookup_erase _ _) (by simp [ReadableStream.close])
      | false => exact .streaming _ _ (AList.lookup_insert _) rfl (by simp)

/-! ## The file that a fetch downloads -/

/-- The file of a stream that was closed; an open or failed one gives none. -/
def ReadableStream.file (s : ReadableStream) : Option Bytes :=
  if s.state = .closed then some s.enqueued.flatten else none

/-- The files that come out of the worker when it gets the messages `posted`
in order and the fetch of `id` after the first `k` of them. -/
def files (sw : ServiceWorker ι) (id : ι) (posted : List (SwMessage ι)) (k : Nat) : List Bytes :=
  let fetched := ((posted.take k).foldl onmessage sw).onfetch id
  let done := (posted.drop k).foldl onmessage fetched
  (done.bodies.drop sw.bodies.length).filterMap ReadableStream.file

theorem bodies_onmessage (sw : ServiceWorker ι) (m : SwMessage ι) :
    (sw.onmessage m).bodies.length = sw.bodies.length := by
  cases m with
  | register id filename size mime => rfl
  | chunk id data | close id | abort id =>
      simp only [onmessage]
      cases sw.streams.lookup id with
      | none => rfl
      | some entry => cases hc : entry.controller <;> simp [hc]

theorem bodies_foldl (sw : ServiceWorker ι) (ms : List (SwMessage ι)) :
    (ms.foldl onmessage sw).bodies.length = sw.bodies.length := by
  induction ms generalizing sw with
  | nil => rfl
  | cons m ms ih => rw [List.foldl_cons, ih, bodies_onmessage]

theorem Serving.chunks {sw : ServiceWorker ι} {id : ι} {ds : List Bytes} {body : Option Nat}
    (h : Serving sw id ds false body) (bs : List Bytes) :
    Serving ((bs.map (SwMessage.chunk id)).foldl onmessage sw) id (ds ++ bs) false body := by
  induction bs generalizing sw ds with
  | nil => simpa using h
  | cons b bs ih => simpa using ih (h.chunk b)

/-- The answered download gives its file once it is closed. -/
theorem Serving.files {sw : ServiceWorker ι} {id : ι} {ds : List Bytes} {closed : Bool} {b : Nat}
    (h : Serving sw id ds closed (some b)) (hlen : sw.bodies.length = b + 1) :
    (sw.bodies.drop b).filterMap ReadableStream.file =
      if closed then [ds.flatten] else [] := by
  have hdrop : ∀ s, sw.bodies[b]? = some s → sw.bodies.drop b = [s] := by
    intro s hs
    obtain ⟨hb, hget⟩ := List.getElem?_eq_some_iff.mp hs
    rw [List.drop_eq_getElem_cons hb, hget,
      List.drop_of_length_le (show sw.bodies.length ≤ b + 1 by omega)]
  cases h with
  | streaming entry b hentry hctl hbody => simp [hdrop _ hbody, ReadableStream.file]
  | finished b hentry hbody => simp [hdrop _ hbody, ReadableStream.file]

/-- The fetch between the messages `early`, all chunks, and `late`. -/
theorem files_between {sw sw₀ : ServiceWorker ι} {id : ι} {bs : List Bytes} {closed : Bool}
    (h : Serving sw₀ id bs closed none) (hlen : sw₀.bodies.length = sw.bodies.length)
    (late : List (SwMessage ι)) (ds : List Bytes) (closed' : Bool)
    (hlate : ∀ body sw', Serving sw' id bs closed body →
      Serving (late.foldl onmessage sw') id ds closed' body) :
    ((late.foldl onmessage (sw₀.onfetch id)).bodies.drop sw.bodies.length).filterMap
      ReadableStream.file = if closed' then [ds.flatten] else [] := by
  have hserve := hlate _ _ h.fetch
  rw [hlen] at hserve
  apply hserve.files
  rw [bodies_foldl]
  cases h with
  | waiting entry hentry hctl hpending hclosed =>
      cases hc : entry.closed <;> simp [onfetch, hentry, hc, hlen]

/-- **A closed download is complete**: whenever the fetch comes after the
registration, its stream carries the chunks posted, in order. -/
theorem files_of_close (sw : ServiceWorker ι) (id : ι) (filename : String) (size : Nat)
    (mime : String) (bs : List Bytes) (k : Nat) :
    files sw id (.register id filename size mime :: (bs.map (SwMessage.chunk id) ++ [.close id]))
      (k + 1) = [bs.flatten] := by
  have hreg := serving_register sw id filename size mime
  have hlen := bodies_onmessage sw (.register id filename size mime)
  simp only [files, List.take_succ_cons, List.drop_succ_cons, List.foldl_cons]
  set sw₀ := sw.onmessage (.register id filename size mime)
  have hall : ∀ body sw' ds, Serving sw' id ds false body → ∀ bs : List Bytes,
      Serving ((bs.map (SwMessage.chunk id) ++ [SwMessage.close id]).foldl onmessage sw') id
        (ds ++ bs) true body := by
    intro body sw' ds hsw' bs
    rw [List.foldl_append]
    exact (hsw'.chunks bs).close
  by_cases hk : k ≤ bs.length
  · -- the fetch comes before the close
    rw [List.take_append_of_le_length (by simpa using hk),
      List.drop_append_of_le_length (by simpa using hk), ← List.map_take, ← List.map_drop]
    refine files_between (hreg.chunks (bs.take k)) (by rw [bodies_foldl, hlen]) _ bs true ?_
    intro body sw' hsw'
    have hrest := hall _ _ _ hsw' (bs.drop k)
    rwa [List.nil_append, List.take_append_drop] at hrest
  · have hlong : (bs.map (SwMessage.chunk id) ++ [SwMessage.close id]).length ≤ k := by simp; omega
    rw [List.take_of_length_le hlong, List.drop_of_length_le hlong]
    exact files_between (hall _ _ _ hreg bs) (by rw [bodies_foldl, hlen]) [] _ true
      fun _ _ h => h

/-- A download that is never closed gives no file. -/
theorem files_of_open (sw : ServiceWorker ι) (id : ι) (filename : String) (size : Nat)
    (mime : String) (bs : List Bytes) (k : Nat) :
    files sw id (.register id filename size mime :: bs.map (SwMessage.chunk id)) (k + 1) = [] := by
  have hreg := serving_register sw id filename size mime
  have hlen := bodies_onmessage sw (.register id filename size mime)
  simp only [files, List.take_succ_cons, List.drop_succ_cons, List.foldl_cons, ← List.map_take,
    ← List.map_drop]
  refine files_between (hreg.chunks (bs.take k)) (by rw [bodies_foldl, hlen]) _ bs false ?_
  intro body sw' hsw'
  have hrest := hsw'.chunks (bs.drop k)
  rwa [List.nil_append, List.take_append_drop] at hrest

theorem files_of_register (sw : ServiceWorker ι) (id : ι) (filename : String) (size : Nat)
    (mime : String) (k : Nat) :
    files sw id [.register id filename size mime] (k + 1) = [] :=
  files_of_open sw id filename size mime [] k

end ServiceWorker

end FastTransfer.Web
