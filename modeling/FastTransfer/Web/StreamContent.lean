import FastTransfer.Web.ServiceWorker

/-!
# What the stream of a download carries

The service worker with the events of many downloads in any order. The entry of
a download is found by its id and its stream by its place among all streams, so
the events of other ids leave both alone; the events of the download itself lead
through the states of `Serving`.
-/

namespace FastTransfer.Web

/-- An event of the worker. -/
inductive SwEvent (ι : Type) where
  | message (m : SwMessage ι)
  /-- The fetch of `/sw-download/<id>`. -/
  | fetch (id : ι)
  | cancel (id : ι)
  deriving DecidableEq

namespace SwEvent

variable {ι : Type}

/-- The download that an event is about. -/
def id : SwEvent ι → ι
  | message (.register id _ _ _) | message (.chunk id _) | message (.close id)
  | message (.abort id) | fetch id | cancel id => id

/-- The bytes of a chunk. -/
def data : SwEvent ι → Option Bytes
  | message (.chunk _ data) => some data
  | _ => none

end SwEvent

namespace ServiceWorker

variable {ι : Type} [DecidableEq ι]

/-- The handler of an event. -/
def handle (sw : ServiceWorker ι) : SwEvent ι → ServiceWorker ι
  | .message m => sw.onmessage m
  | .fetch id => sw.onfetch id
  | .cancel id => sw.oncancel id

/-- The handlers of some events, one after the other. -/
def handleAll (sw : ServiceWorker ι) (es : List (SwEvent ι)) : ServiceWorker ι :=
  es.foldl handle sw

/-- What an event does to the worker: it may change the entry of its id, and the
stream of that entry, or answer with a new stream. -/
structure Effect (sw sw' : ServiceWorker ι) (id : ι) : Prop where
  streams : ∀ id' ≠ id, sw'.streams.lookup id' = sw.streams.lookup id'
  bodies : sw'.bodies = sw.bodies ∨
    (∃ entry c f, sw.streams.lookup id = some entry ∧ entry.controller = some c ∧
      sw'.bodies = sw.bodies.modify c f) ∨
    ∃ stream, sw'.bodies = sw.bodies ++ [stream]
  controller : ∀ entry' c, sw'.streams.lookup id = some entry' → entry'.controller = some c →
    (∃ entry, sw.streams.lookup id = some entry ∧ entry.controller = some c) ∨
      c = sw.bodies.length ∧ c < sw'.bodies.length

section Effect

variable (sw : ServiceWorker ι)

theorem effect_same (id : ι) : Effect sw sw id where
  streams _ _ := rfl
  bodies := .inl rfl
  controller entry _ hentry hc := .inl ⟨entry, hentry, hc⟩

/-- The entry of an id is replaced by one without a stream, or with its old
one. -/
theorem effect_insert (id : ι) (entry' : SwEntry)
    (hctl : ∀ c, entry'.controller = some c →
      ∃ entry, sw.streams.lookup id = some entry ∧ entry.controller = some c) :
    Effect sw { sw with streams := sw.streams.insert id entry' } id where
  streams id' hid := AList.lookup_insert_ne hid
  bodies := .inl rfl
  controller entry c hentry hc := by
    obtain rfl := Option.some.inj ((AList.lookup_insert _).symm.trans hentry)
    exact .inl (hctl c hc)

theorem effect_erase (id : ι) : Effect sw { sw with streams := sw.streams.erase id } id where
  streams id' hid := AList.lookup_erase_ne hid
  bodies := .inl rfl
  controller entry c hentry _ := by
    rw [AList.lookup_erase] at hentry
    cases hentry

/-- The stream of an entry is written to, and the entry kept or erased. -/
theorem effect_modify {id : ι} {entry : SwEntry} {c : Nat}
    (hentry : sw.streams.lookup id = some entry) (hc : entry.controller = some c)
    (f : ReadableStream → ReadableStream) {streams : AList fun _ : ι => SwEntry}
    (hstreams : streams = sw.streams ∨ streams = sw.streams.erase id) :
    Effect sw { bodies := sw.bodies.modify c f, streams } id where
  streams id' hid := by
    rcases hstreams with rfl | rfl
    · rfl
    · exact AList.lookup_erase_ne hid
  bodies := .inr (.inl ⟨entry, c, f, hentry, hc, rfl⟩)
  controller entry' c' hentry' hc' := by
    rcases hstreams with rfl | rfl
    · exact .inl ⟨entry', hentry', hc'⟩
    · rw [AList.lookup_erase] at hentry'
      cases hentry'

/-- A message is about the entry of its id: there is none, or it waits for its
fetch, or it has a stream. -/
theorem effect_of_entry {sw' : ServiceWorker ι} {id : ι}
    (hnone : sw.streams.lookup id = none → sw' = sw)
    (hwaits : ∀ entry, sw.streams.lookup id = some entry → entry.controller = none →
      Effect sw sw' id)
    (hstreams : ∀ entry c, sw.streams.lookup id = some entry → entry.controller = some c →
      Effect sw sw' id) : Effect sw sw' id := by
  cases hentry : sw.streams.lookup id with
  | none =>
      rw [hnone hentry]
      exact effect_same sw id
  | some entry =>
      cases hc : entry.controller with
      | none => exact hwaits entry hentry hc
      | some c => exact hstreams entry c hentry hc

theorem effect_chunk (id : ι) (data : Bytes) : Effect sw (sw.onmessage (.chunk id data)) id := by
  apply effect_of_entry sw
  · intro hentry
    simp only [onmessage, hentry]
  · intro entry hentry hc
    simp only [onmessage, hentry, hc]
    exact effect_insert sw id _ (by simp)
  · intro entry c hentry hc
    simp only [onmessage, hentry, hc]
    exact effect_modify sw hentry hc _ (.inl rfl)

theorem effect_close (id : ι) : Effect sw (sw.onmessage (.close id)) id := by
  apply effect_of_entry sw
  · intro hentry
    simp only [onmessage, hentry]
  · intro entry hentry hc
    simp only [onmessage, hentry, hc]
    exact effect_insert sw id _ (by simp)
  · intro entry c hentry hc
    simp only [onmessage, hentry, hc]
    exact effect_modify sw hentry hc _ (.inr rfl)

theorem effect_abort (id : ι) : Effect sw (sw.onmessage (.abort id)) id := by
  apply effect_of_entry sw
  · intro hentry
    simp only [onmessage, hentry]
  · intro entry hentry hc
    simp only [onmessage, hentry, hc]
    exact effect_erase sw id
  · intro entry c hentry hc
    simp only [onmessage, hentry, hc]
    exact effect_modify sw hentry hc _ (.inr rfl)

/-- A fetch makes a new stream; the entry keeps it, unless its download is closed. -/
theorem effect_fetch (id : ι) : Effect sw (sw.onfetch id) id := by
  cases hentry : sw.streams.lookup id with
  | none =>
      simp only [onfetch, hentry]
      exact effect_same sw id
  | some entry =>
      cases hclosed : entry.closed with
      | true =>
          simp only [onfetch, hentry, hclosed, if_true]
          refine ⟨fun id' hid => AList.lookup_erase_ne hid, .inr (.inr ⟨_, rfl⟩),
            fun entry' c hentry' _ => ?_⟩
          rw [AList.lookup_erase] at hentry'
          cases hentry'
      | false =>
          simp only [onfetch, hentry, hclosed, Bool.false_eq_true, if_false]
          refine ⟨fun id' hid => AList.lookup_insert_ne hid, .inr (.inr ⟨_, rfl⟩),
            fun entry' c hentry' hc => .inr ?_⟩
          obtain rfl := Option.some.inj ((AList.lookup_insert _).symm.trans hentry')
          obtain rfl := Option.some.inj hc
          exact ⟨rfl, by simp⟩

theorem handle_effect (e : SwEvent ι) : Effect sw (sw.handle e) e.id := by
  cases e with
  | message m =>
      cases m with
      | register id filename size mime => exact effect_insert sw id _ (by simp)
      | chunk id data => exact effect_chunk sw id data
      | close id => exact effect_close sw id
      | abort id => exact effect_abort sw id
  | fetch id => exact effect_fetch sw id
  | cancel id => exact effect_erase sw id

end Effect

/-! ## One download among others -/

/-- The events of a download. -/
def own (id : ι) (es : List (SwEvent ι)) : List (SwEvent ι) := es.filter fun e => e.id = id

/-- The contents of the chunks posted. -/
def chunks (es : List (SwEvent ι)) : List Bytes := es.filterMap SwEvent.data

/-- A whole download but for its fetch. -/
def session (id : ι) (filename : String) (size : Nat) (mime : String) (ds : List Bytes) :
    List (SwEvent ι) :=
  .message (.register id filename size mime) ::
    (ds.map (fun d => .message (.chunk id d)) ++ [.message (.close id)])

/-- **The invariant of a download**: the worker has handled the messages `done`
of it, and its stream, if it was fetched, is nobody else's. -/
structure Tended (sw : ServiceWorker ι) (id : ι) (done : List (SwEvent ι)) (body : Option Nat) :
    Prop where
  serving : done ≠ [] →
    Serving sw id (chunks done) (decide (SwEvent.message (.close id) ∈ done)) body
  unasked : done = [] → body = none
  answered : ∀ b, body = some b → b < sw.bodies.length
  live : ∀ id' entry c, sw.streams.lookup id' = some entry → entry.controller = some c →
    c < sw.bodies.length ∧ (id' ≠ id → body ≠ some c)

section Tended

variable {sw sw' : ServiceWorker ι} {id id' : ι} {done todo : List (SwEvent ι)} {body : Option Nat}
  {e : SwEvent ι}

theorem tended_empty (id : ι) : Tended ({} : ServiceWorker ι) id [] none where
  serving h := absurd rfl h
  unasked _ := rfl
  answered := by simp
  live := by simp

theorem Effect.length_le (h : Effect sw sw' id) : sw.bodies.length ≤ sw'.bodies.length := by
  rcases h.bodies with hb | ⟨-, c, f, -, -, hb⟩ | ⟨stream, hb⟩
  · rw [hb]
  · rw [hb, List.length_modify]
  · rw [hb, List.length_append]
    exact Nat.le_add_right _ _

theorem Effect.live (h : Effect sw sw' id') (hs : Tended sw id done body) :
    ∀ id'' entry c, sw'.streams.lookup id'' = some entry → entry.controller = some c →
      c < sw'.bodies.length ∧ (id'' ≠ id → body ≠ some c) := by
  intro id'' entry c hentry hc
  by_cases hid : id'' = id'
  · subst hid
    rcases h.controller entry c hentry hc with ⟨old, hold, hc⟩ | ⟨hnew, hlt⟩
    · obtain ⟨hlt, hne⟩ := hs.live id'' old c hold hc
      exact ⟨hlt.trans_le h.length_le, hne⟩
    · -- a new stream is nobody's yet
      refine ⟨hlt, fun _ hbody => ?_⟩
      exact absurd (hs.answered c hbody) (by omega)
  · rw [h.streams id'' hid] at hentry
    obtain ⟨hlt, hne⟩ := hs.live id'' entry c hentry hc
    exact ⟨hlt.trans_le h.length_le, hne⟩

/-- Whatever the worker does, a download may begin. -/
theorem Tended.fresh (hs : Tended sw id [] none) (es : List (SwEvent ι)) :
    Tended (sw.handleAll es) id [] none := by
  induction es generalizing sw with
  | nil => exact hs
  | cons e es ih =>
      have hlive := (handle_effect sw e).live hs
      exact ih ⟨fun h => absurd rfl h, fun _ => rfl, by simp, hlive⟩

theorem Serving.congr {ds : List Bytes} {closed : Bool} (h : Serving sw id ds closed body)
    (hlookup : sw'.streams.lookup id = sw.streams.lookup id)
    (hbody : ∀ b stream, body = some b → sw.bodies[b]? = some stream →
      sw'.bodies[b]? = some stream) : Serving sw' id ds closed body := by
  cases h with
  | waiting entry hentry hctl hpending hclosed =>
      exact .waiting entry (hlookup.trans hentry) hctl hpending hclosed
  | streaming entry b hentry hctl hb =>
      exact .streaming entry b (hlookup.trans hentry) hctl (hbody b _ rfl hb)
  | finished b hentry hb => exact .finished b (hlookup.trans hentry) (hbody b _ rfl hb)

/-- The events of other downloads change nothing for this one. -/
theorem Tended.other (hs : Tended sw id done body) (he : e.id ≠ id) :
    Tended (sw.handle e) id done body := by
  have heffect := handle_effect sw e
  refine ⟨fun hne => (hs.serving hne).congr (heffect.streams id he.symm) ?_, hs.unasked,
    fun b hb => (hs.answered b hb).trans_le heffect.length_le, heffect.live hs⟩
  intro b stream hb hstream
  rcases heffect.bodies with hbodies | ⟨entry, c, f, hentry, hc, hbodies⟩ | ⟨new, hbodies⟩
  · rw [hbodies, hstream]
  · have hbc : c ≠ b := by
      rintro rfl
      exact (hs.live e.id entry c hentry hc).2 he hb
    rw [hbodies, List.getElem?_modify_ne f _ hbc, hstream]
  · rw [hbodies, List.getElem?_append_left (hs.answered b hb), hstream]

variable {filename mime : String} {size : Nat} {ds : List Bytes}

omit [DecidableEq ι] in
theorem chunks_session : chunks (session id filename size mime ds) = ds := by
  show (ds.map _ ++ [_]).filterMap _ = ds
  rw [List.filterMap_append, List.filterMap_map]
  exact (List.append_nil _).trans List.filterMap_some

omit [DecidableEq ι] in
/-- The messages of a download in their order: the first registers it, and what
comes before another one is no close. -/
theorem session_cases (hall : done ++ e :: todo = session id filename size mime ds) :
    done = [] ∧ e = .message (.register id filename size mime) ∨
      done ≠ [] ∧ SwEvent.message (.close id) ∉ done ∧
        ((∃ d, e = .message (.chunk id d)) ∨ e = .message (.close id)) := by
  cases done with
  | nil => exact .inl ⟨rfl, (List.cons.inj hall).1⟩
  | cons first done =>
      obtain ⟨rfl, hrest⟩ := List.cons.inj hall
      have hnotin : ∀ es : List Bytes,
          SwEvent.message (.close id) ∉ es.map fun d => SwEvent.message (.chunk id d) := by
        simp
      refine .inr ⟨List.cons_ne_nil _ _, ?_⟩
      rcases List.append_eq_append_iff.mp hrest with ⟨as, hchunks, has⟩ | ⟨cs, hdone, hcs⟩
      · have hclose : SwEvent.message (.close id) ∉ done := fun h =>
          hnotin ds (hchunks ▸ List.mem_append_left _ h)
        refine ⟨by simpa using hclose, ?_⟩
        cases as with
        | nil => exact .inr (List.cons.inj has).1
        | cons a as =>
            obtain ⟨rfl, -⟩ := List.cons.inj has
            have ha : e ∈ ds.map fun d => SwEvent.message (.chunk id d) := by
              rw [hchunks]
              exact List.mem_append_right _ List.mem_cons_self
            obtain ⟨d, -, rfl⟩ := List.mem_map.mp ha
            exact .inl ⟨d, rfl⟩
      · cases cs with
        | nil =>
            rw [List.append_nil] at hdone
            subst hdone
            refine ⟨by simp, .inr ?_⟩
            exact (List.cons.inj hcs).1.symm
        | cons c cs =>
            have hlen := congrArg List.length hcs
            simp at hlen

/-- The next message of a download. -/
theorem Tended.message (hs : Tended sw id done body)
    (hall : done ++ e :: todo = session id filename size mime ds) :
    Tended (sw.handle e) id (done ++ [e]) body := by
  have hid : e.id = id := by
    rcases session_cases hall with ⟨-, rfl⟩ | ⟨-, -, ⟨d, rfl⟩ | rfl⟩ <;> rfl
  have heffect := handle_effect sw e
  refine ⟨fun _ => ?_, fun hnil => absurd hnil (by simp),
    fun b hb => (hs.answered b hb).trans_le heffect.length_le, heffect.live hs⟩
  rcases session_cases hall with ⟨rfl, rfl⟩ | ⟨hne, hclose, ⟨d, rfl⟩ | rfl⟩
  · rw [hs.unasked rfl]
    exact serving_register sw id filename size mime
  · have hserving := hs.serving hne
    rw [decide_eq_false hclose] at hserving
    have hdone : chunks (done ++ [.message (.chunk id d)]) = chunks done ++ [d] := by
      simp [chunks, SwEvent.data]
    rw [hdone, decide_eq_false (by simpa using hclose)]
    exact hserving.chunk d
  · have hserving := hs.serving hne
    rw [decide_eq_false hclose] at hserving
    have hdone : chunks (done ++ [.message (.close id)]) = chunks done := by
      simp [chunks, SwEvent.data]
    rw [hdone, decide_eq_true (by simp)]
    exact hserving.close

/-- **The run rule of a download**, with the events of others among its own. -/
theorem Tended.run (hs : Tended sw id done body) (es : List (SwEvent ι))
    (hall : done ++ own id es ++ todo = session id filename size mime ds) :
    Tended (sw.handleAll es) id (done ++ own id es) body := by
  induction es generalizing sw done with
  | nil => simpa [own, handleAll] using hs
  | cons e es ih =>
      show Tended ((sw.handle e).handleAll es) id (done ++ own id (e :: es)) body
      by_cases he : e.id = id
      · have hcons : own id (e :: es) = e :: own id es := by simp [own, he]
        rw [hcons] at hall ⊢
        have hall' : done ++ e :: (own id es ++ todo) = session id filename size mime ds := by
          simpa using hall
        have hrest := ih (hs.message hall') (by simpa using hall)
        rwa [List.append_assoc, List.singleton_append] at hrest
      · have hcons : own id (e :: es) = own id es := by simp [own, he]
        rw [hcons] at hall ⊢
        exact ih (hs.other he) hall

theorem Tended.fetch (hs : Tended sw id done none) (hne : done ≠ []) :
    Tended (sw.handle (.fetch id)) id done (some sw.bodies.length) := by
  have hserving := (hs.serving hne).fetch
  have heffect := handle_effect sw (.fetch id)
  have hlt : sw.bodies.length < (sw.handle (.fetch id)).bodies.length := by
    generalize decide (SwEvent.message (.close id) ∈ done) = closed at hserving
    cases hserving with
    | streaming entry b hentry hctl hbody => exact (List.getElem?_eq_some_iff.mp hbody).1
    | finished b hentry hbody => exact (List.getElem?_eq_some_iff.mp hbody).1
  refine ⟨fun _ => hserving, fun hnil => absurd hnil hne, ?_, fun id' entry c hentry hc => ?_⟩
  · rintro b ⟨⟩
    exact hlt
  · refine ⟨(heffect.live hs id' entry c hentry hc).1, ?_⟩
    rintro hid ⟨⟩
    rw [heffect.streams id' hid] at hentry
    exact absurd (hs.live id' entry _ hentry hc).1 (lt_irrefl _)

end Tended

/-- **The content of a stream**: whatever the worker has done before, and
whatever it does for other downloads meanwhile. From the fetch on the stream
carries the chunks posted so far and is closed once the close is posted, when
the entry goes; in the end it carries all chunks, wherever the fetch was. The id is
one that a URL can carry, and `mime` one that makes a header, as `onfetch` says. -/
theorem stream_content (before early late : List (SwEvent ι)) (id : ι) (filename mime : String)
    (size : Nat) (ds : List Bytes) (hregister : own id early ≠ [])
    (hsession : own id early ++ own id late = session id filename size mime ds) :
    let sw : ServiceWorker ι := handleAll {} (before ++ early)
    let b := sw.bodies.length
    (∀ late₁ late₂, late = late₁ ++ late₂ →
      let sw₁ := sw.handleAll (.fetch id :: late₁)
      let done := own id early ++ own id late₁
      sw₁.bodies[b]? = some ⟨chunks done,
        if .message (.close id) ∈ done then .closed else .readable⟩ ∧
      (.message (.close id) ∈ done → sw₁.streams.lookup id = none)) ∧
    (sw.handleAll (.fetch id :: late)).bodies[b]? = some ⟨ds, .closed⟩ ∧
      (sw.handleAll (.fetch id :: late)).streams.lookup id = none := by
  intro sw b
  have hearly : Tended sw id (own id early) none := by
    have hall : [] ++ own id early ++ own id late = session id filename size mime ds := hsession
    have hrun := ((tended_empty id).fresh before).run early hall
    rw [List.nil_append, handleAll, handleAll, ← List.foldl_append] at hrun
    exact hrun
  have hfetched := hearly.fetch hregister
  have hmoment : ∀ late₁ late₂, late = late₁ ++ late₂ →
      Tended (sw.handleAll (.fetch id :: late₁)) id (own id early ++ own id late₁) (some b) := by
    rintro late₁ late₂ rfl
    have hall : own id early ++ own id late₁ ++ own id late₂ =
        session id filename size mime ds := by
      rw [← hsession, List.append_assoc, own, own, own, own, List.filter_append]
    exact hfetched.run late₁ hall
  have hcontent : ∀ late₁ late₂, late = late₁ ++ late₂ →
      let sw₁ := sw.handleAll (.fetch id :: late₁)
      let done := own id early ++ own id late₁
      sw₁.bodies[b]? = some ⟨chunks done,
        if .message (.close id) ∈ done then .closed else .readable⟩ ∧
      (.message (.close id) ∈ done → sw₁.streams.lookup id = none) := by
    intro late₁ late₂ hlate sw₁ done
    have hserving := (hmoment late₁ late₂ hlate).serving (by simp [hregister])
    by_cases hclose : SwEvent.message (.close id) ∈ done
    · rw [if_pos hclose]
      rw [decide_eq_true hclose] at hserving
      cases hserving with
      | finished b hentry hbody => exact ⟨hbody, fun _ => hentry⟩
    · rw [if_neg hclose]
      rw [decide_eq_false hclose] at hserving
      cases hserving with
      | streaming entry b hentry hctl hbody => exact ⟨hbody, fun h => absurd h hclose⟩
  refine ⟨hcontent, ?_⟩
  obtain ⟨hbody, hentry⟩ := hcontent late [] (List.append_nil late).symm
  have hclose : SwEvent.message (.close id) ∈ own id early ++ own id late := by
    simp [hsession, session]
  have hchunks : chunks (own id early ++ own id late) = ds := by
    rw [hsession, chunks_session]
  rw [hchunks, if_pos hclose] at hbody
  exact ⟨hbody, hentry hclose⟩

/-- Two downloads at once: the first is fetched between its chunks, the second
after its close. -/
theorem stream_content_twoDownloads :
    let early := [.message (.register "a" "a.bin" 3 ""), .message (.register "b" "b.bin" 1 ""),
      .message (.chunk "a" [1, 2]), .message (.chunk "b" [9]), .message (.close "b")]
    let late := [.message (.chunk "a" [3]), .fetch "b", .message (.close "a")]
    own "a" early ≠ [] ∧
      own "a" early ++ own "a" late = session "a" "a.bin" 3 "" [[1, 2], [3]] ∧
      ((handleAll ({} : ServiceWorker String) early).handleAll (.fetch "a" :: late)).bodies[0]? =
        some ⟨[[1, 2], [3]], .closed⟩ := by
  intro early late
  have hregister : own "a" early ≠ [] := by decide
  have hsession : own "a" early ++ own "a" late = session "a" "a.bin" 3 "" [[1, 2], [3]] := by
    decide
  exact ⟨hregister, hsession,
    (stream_content [] early late "a" "a.bin" "" 3 [[1, 2], [3]] hregister hsession).2.1⟩

end ServiceWorker

end FastTransfer.Web
