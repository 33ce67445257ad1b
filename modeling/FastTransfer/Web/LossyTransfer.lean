import FastTransfer.Web.Transfer

/-!
# The transfer when things fail

The same sender, transports and receiver, with nothing excluded: transports close
at any time and whatever is in their buffers is lost, `send` throws, file reads
fail, `createOffer` is called again for the same file, and the file-info message
is one frame among others. What the receiver has got is a list of chunks of the
file, none of them twice; what it makes of them is a piece of the file, and the
file itself if the file-info came before chunk 0 and no chunk is missing.
-/

namespace FastTransfer.Web

/-! ## What the transports have let out -/

namespace Sender

/-- The frames that have left transport `t`, in order. -/
def out (s : Sender) (t : Nat) : List Frame := ((s.transports[t]?).map (·.drained)).getD []

section Out

variable {s s' : Sender} {t : Nat} {tr : Transport}

theorem out_of_some (ht : s.transports[t]? = some tr) : s.out t = tr.drained := by
  simp [out, ht]

theorem out_set (e : Engine) (ht : s.transports[t]? = some tr) {tr' : Transport}
    (hdrained : tr.drained <+: tr'.drained) (u : Nat) :
    s.out u <+: Sender.out { s with toEngine := e, transports := s.transports.set t tr' } u := by
  by_cases hut : u = t
  · subst hut
    have hlt := (List.getElem?_eq_some_iff.mp ht).1
    have hnew : (s.transports.set u tr')[u]? = some tr' := by
      rw [List.getElem?_set_self hlt]
    rw [out_of_some ht]
    simpa [out, hnew] using hdrained
  · have hsame : (s.transports.set t tr')[u]? = s.transports[u]? :=
      List.getElem?_set_ne (Ne.symm hut)
    simp [out, hsame]

/-- **No step takes back what a transport has let out.** -/
theorem out_step {cfg : Config} {file : File} {a : Action} (hs : Steps cfg file s a s')
    (u : Nat) : s.out u <+: s'.out u := by
  cases hs with
  | createOffer =>
      cases hu : s.transports[u]? with
      | none => simp [out, hu]
      | some tr =>
          have hnew : (s.createOffer cfg file).transports[u]? = some tr := by
            have hlt := (List.getElem?_eq_some_iff.mp hu).1
            rw [Sender.createOffer, List.append_assoc, List.getElem?_append_left hlt, hu]
          have hsame : (s.createOffer cfg file).out u = s.out u :=
            (out_of_some hnew).trans (out_of_some hu).symm
          exact hsame ▸ List.prefix_rfl
  | @onopen t tr ht hstate =>
      have hopened : (s.opened cfg tr).drained = tr.drained := by
        rw [Sender.opened]
        split
        · split_ifs
          · rfl
          · rfl
        · rfl
      refine tryStart_rule (P := fun s' => s.out u <+: s'.out u) ?_ (fun _ h _ => h)
        (out_set s.toEngine ht (hopened ▸ List.prefix_rfl) u)
      intro s' t tr h _ ht _ _
      obtain ⟨p, hp⟩ := pumpLoop_snd s'.toEngine tr
      exact h.trans (out_set _ ht (hp ▸ List.prefix_rfl) u)
  | @onclose t tr ht hstate =>
      have hclosed : tr.drained <+: ({ tr with readyState := .closed } : Transport).drained :=
        List.prefix_rfl
      exact out_set s.toEngine ht hclosed u
  | drain ht hstate hdrain => exact out_set s.toEngine ht (drained_of_drain hdrain) u
  | pump ht hturn => exact out_set _ ht (hturn.wires.drained ▸ List.prefix_rfl) u
  | pollDrain hwait =>
      rw [Sender.pollDrain]
      split_ifs
      · exact List.prefix_rfl
      · exact List.prefix_rfl

/-- **Every step gives the transports frames of this file only.** -/
theorem framesOf_step {cfg : Config} {file : File} {lost : List Nat} {a : Action}
    (h : ∀ tr ∈ s.transports, FramesOf file tr) (hown : Owned file lost s)
    (hs : Steps cfg file s a s') : ∀ tr ∈ s'.transports, FramesOf file tr := by
  cases hs with
  | createOffer =>
      intro tr htr
      obtain ⟨t, ht⟩ := List.mem_iff_getElem?.mp htr
      rcases createOffer_getElem? ht with hold | ⟨i, rfl⟩ | ⟨i, -, -, rfl⟩
      · exact h tr (List.mem_of_getElem? hold)
      · exact framesOf_fresh file _
      · exact framesOf_fresh file _
  | @onopen t tr ht hstate =>
      refine tryStart_rule (P := fun s => ∀ tr ∈ s.transports, FramesOf file tr) ?_
        (fun _ h _ => h) (Tally.forall_mem_set h
          ((h tr (List.mem_of_getElem? ht)).opened hown.file_eq cfg))
      intro s t tr h _ ht _ _
      obtain ⟨p, hp⟩ := pumpLoop_snd s.toEngine tr
      rw [put, hp]
      exact Tally.forall_mem_set h (h tr (List.mem_of_getElem? ht))
  | @onclose t tr ht hstate =>
      exact Tally.forall_mem_set h (h tr (List.mem_of_getElem? ht))
  | @drain t tr tr' ht hstate hdrain =>
      exact Tally.forall_mem_set h ((h tr (List.mem_of_getElem? ht)).drain hdrain)
  | @pump t tr ev x ht hturn =>
      have htr := List.mem_of_getElem? ht
      exact Tally.forall_mem_set h ((h tr htr).turn hturn (hown.wellRead tr htr))
  | pollDrain hwait =>
      rw [Sender.pollDrain]
      split_ifs
      · exact h
      · exact h

end Out

/-- What holds of the sender in every run. -/
structure Sending (file : File) (s : Sender) : Prop where
  owned : ∃ lost, Owned file lost s
  frames : ∀ tr ∈ s.transports, FramesOf file tr

theorem sending_start (cfg : Config) (file : File) : Sending file (start cfg file) where
  owned := ⟨[], owned_start cfg file⟩
  frames := by
    intro tr htr
    obtain ⟨t, ht⟩ := List.mem_iff_getElem?.mp htr
    rcases createOffer_getElem? ht with hold | ⟨i, rfl⟩ | ⟨i, -, -, rfl⟩
    · simp at hold
    · exact framesOf_fresh file _
    · exact framesOf_fresh file _

theorem Sending.step {cfg : Config} {file : File} {s s' : Sender} {a : Action}
    (h : Sending file s) (hs : Steps cfg file s a s') : Sending file s' := by
  obtain ⟨lost, hown⟩ := h.owned
  exact ⟨⟨_, hown.step hs⟩, framesOf_step h.frames hown hs⟩

/-- A frame that has left a transport is the file-info or a chunk of the file. -/
theorem Sending.mem_out {file : File} {s : Sender} (h : Sending file s) {t : Nat} {f : Frame}
    (hf : f ∈ s.out t) : f = .fileInfo (fileInfo file) ∨
      ∃ i < Web.totalChunks file, f = .chunk (readChunk file i) := by
  cases ht : s.transports[t]? with
  | none => simp [out, ht] at hf
  | some tr =>
      have htr := List.mem_of_getElem? ht
      rw [out_of_some ht] at hf
      refine (h.frames tr htr f (List.mem_append_left _ hf)).imp_right fun ⟨i, hi⟩ => ⟨i, ?_, hi⟩
      obtain ⟨lost, hown⟩ := h.owned
      refine hown.sentIndices_nodup.2 i (List.mem_flatMap.mpr ⟨tr, htr, ?_⟩)
      rw [Transport.handed_eq]
      exact List.mem_append_left _ (List.mem_filterMap.mpr ⟨f, hf, by simp [hi, Frame.chunkIndex]⟩)

end Sender

/-! ## What the receiver has got -/

namespace Transfer

/-- After `createOffer`, with a receiver that waits for the file-info. -/
def fresh (cfg : Config) (file : File) : Transfer where
  sender := Sender.start cfg file
  receiver := {}

/-- The frame that is delivered next on a transport. -/
def next (x : Transfer) (t : Nat) : Option Frame := (x.sender.out t)[x.delivered t]?

/-- Chunk `i` has been delivered. -/
def Arrived (x : Transfer) (i : Nat) : Prop :=
  ∃ t, ∃ f ∈ (x.sender.out t).take (x.delivered t), f.chunkIndex = some i

/-- "The file-info arrives before chunk 0", as a condition on the steps of a run. -/
def InfoFirst (x : Transfer) : Action → Prop
  | .sender _ => True
  | .deliver t => ∀ f ∈ x.next t, f.chunkIndex = some 0 → x.receiver.fileInfo.isSome

instance decidableInfoFirst (x : Transfer) : (a : Action) → Decidable (InfoFirst x a)
  | .sender _ => inferInstanceAs (Decidable True)
  | .deliver t => inferInstanceAs
      (Decidable (∀ f ∈ x.next t, f.chunkIndex = some 0 → x.receiver.fileInfo.isSome))

/-- The receiver has got `evs`, in this order. -/
structure Heard (file : File) (x : Transfer) (evs : List Receiver.Incoming) : Prop where
  receiver : x.receiver = Receiver.receive file evs
  inFile : ∀ i, .chunk i ∈ evs → i < totalChunks file
  delivered : ∀ t, x.delivered t ≤ (x.sender.out t).length
  arrived : ∀ i, .chunk i ∈ evs ↔ x.Arrived i

theorem heard_fresh (cfg : Config) (file : File) : Heard file (fresh cfg file) [] where
  receiver := rfl
  inFile := by simp
  delivered _ := Nat.zero_le _
  arrived i := by simp [Arrived, fresh]

/-- The sender's steps do not change what has been delivered. -/
theorem Heard.send {file : File} {x : Transfer} {evs : List Receiver.Incoming}
    (h : Heard file x evs) {s : Sender} (hout : ∀ t, x.sender.out t <+: s.out t) :
    Heard file { x with sender := s } evs where
  receiver := h.receiver
  inFile := h.inFile
  delivered t := (h.delivered t).trans (hout t).length_le
  arrived i := by
    have htake (t : Nat) : (s.out t).take (x.delivered t) =
        (x.sender.out t).take (x.delivered t) := by
      obtain ⟨rest, hrest⟩ := hout t
      rw [← hrest, List.take_append_of_le_length (h.delivered t)]
    rw [h.arrived i, Arrived, Arrived]
    simp only [htake]

/-- One more frame is delivered. -/
theorem Heard.deliver {file : File} {x : Transfer} {evs : List Receiver.Incoming}
    (h : Heard file x evs) (hsend : Sender.Sending file x.sender) {t : Nat} {f : Frame}
    (hf : x.next t = some f) :
    ∃ ev : Receiver.Incoming, (∀ i, ev = .chunk i ↔ f.chunkIndex = some i) ∧
      Heard file { x with
        receiver := x.receiver.onmessage f.message
        delivered := Function.update x.delivered t (x.delivered t + 1) } (evs ++ [ev]) := by
  obtain ⟨hlt, hget⟩ := List.getElem?_eq_some_iff.mp hf
  obtain ⟨ev, hmessage, hchunk, hfile⟩ : ∃ ev : Receiver.Incoming, f.message = ev.message file ∧
      (∀ i, ev = .chunk i ↔ f.chunkIndex = some i) ∧
        ∀ i, ev = .chunk i → i < totalChunks file := by
    rcases hsend.mem_out (List.mem_of_getElem? hf) with rfl | ⟨i, hi, rfl⟩
    · exact ⟨.fileInfo, rfl, by simp [Frame.chunkIndex], by simp⟩
    · refine ⟨.chunk i, rfl, by simp [Frame.chunkIndex], ?_⟩
      rintro j ⟨⟩
      exact hi
  refine ⟨ev, hchunk, ?_, ?_, ?_, ?_⟩
  · simp only [h.receiver, hmessage, Receiver.receive, List.map_append, List.foldl_append,
      List.map_cons, List.map_nil, List.foldl_cons, List.foldl_nil]
  · intro i hi
    rcases List.mem_append.mp hi with hi | hi
    · exact h.inFile i hi
    · exact hfile i (List.mem_singleton.mp hi).symm
  · intro u
    by_cases hut : u = t
    · subst hut
      simp only [Function.update_self]
      exact hlt
    · simpa [Function.update_of_ne hut] using h.delivered u
  · intro i
    rw [List.mem_append, List.mem_singleton, h.arrived i, eq_comm, hchunk i]
    constructor
    · rintro (⟨u, g, hg, hi⟩ | hi)
      · refine ⟨u, g, ?_, hi⟩
        by_cases hut : u = t
        · subst hut
          simp only [Function.update_self]
          rw [List.take_succ_eq_append_getElem hlt]
          exact List.mem_append_left _ hg
        · simpa only [Function.update_of_ne hut] using hg
      · refine ⟨t, f, ?_, hi⟩
        simp only [Function.update_self]
        rw [List.take_succ_eq_append_getElem hlt, hget]
        exact List.mem_append_right _ (List.mem_singleton_self f)
    · rintro ⟨u, g, hg, hi⟩
      by_cases hut : u = t
      · subst hut
        simp only [Function.update_self] at hg
        rw [List.take_succ_eq_append_getElem hlt, hget, List.mem_append,
          List.mem_singleton] at hg
        rcases hg with hg | rfl
        · exact .inl ⟨u, g, hg, hi⟩
        · exact .inr hi
      · simp only [Function.update_of_ne hut] at hg
        exact .inl ⟨u, g, hg, hi⟩

/-- What holds in every state of every run. -/
structure Lossy (file : File) (x : Transfer) (evs : List Receiver.Incoming) : Prop where
  sending : Sender.Sending file x.sender
  heard : Heard file x evs

theorem lossy_fresh (cfg : Config) (file : File) : Lossy file (fresh cfg file) [] :=
  ⟨Sender.sending_start cfg file, heard_fresh cfg file⟩

/-- **A step delivers one frame at most.** -/
theorem Lossy.step {cfg : Config} {file : File} {x y : Transfer} {a : Action}
    {evs : List Receiver.Incoming} (h : Lossy file x evs) (hs : step cfg file x a = some y) :
    Lossy file y evs ∨ ∃ t f ev, a = .deliver t ∧ x.next t = some f ∧
      (∀ i, ev = .chunk i ↔ f.chunkIndex = some i) ∧ Lossy file y (evs ++ [ev]) := by
  cases a with
  | sender a =>
      obtain ⟨s, hstep, rfl⟩ := Option.map_eq_some_iff.mp hs
      have hsteps := Sender.step_iff.mp hstep
      exact .inl ⟨h.sending.step hsteps, h.heard.send (Sender.out_step hsteps)⟩
  | deliver t =>
      obtain ⟨tr, ht, hs⟩ := Option.bind_eq_some_iff.mp hs
      obtain ⟨f, hf, hs⟩ := Option.bind_eq_some_iff.mp hs
      obtain rfl := Option.some.inj hs
      have hnext : x.next t = some f := by rw [next, Sender.out_of_some ht, hf]
      obtain ⟨ev, hchunk, hheard⟩ := h.heard.deliver h.sending hnext
      exact .inr ⟨t, f, ev, rfl, hnext, hchunk, h.sending, hheard⟩

theorem lossy_of_reach {cfg : Config} {file : File} {x : Transfer}
    (h : Runs.Reach (step cfg file) (fresh cfg file) x) : ∃ evs, Lossy file x evs :=
  Runs.Reach.invariant (I := fun x => ∃ evs, Lossy file x evs) h ⟨[], lossy_fresh cfg file⟩
    fun _ _ _ ⟨evs, hu⟩ hs => by
      rcases hu.step hs with hnext | ⟨-, -, ev, -, -, -, hnext⟩
      · exact ⟨evs, hnext⟩
      · exact ⟨evs ++ [ev], hnext⟩

/-! ## The piece of the file that is written -/

/-- Without a file-info nothing is written, and nothing completed. -/
theorem receive_uninformed (file : File) {evs : List Receiver.Incoming}
    (h : .fileInfo ∉ evs) :
    (Receiver.receive file evs).fileInfo = none ∧
      (Receiver.receive file evs).downloader = none ∧
      (Receiver.receive file evs).completions = [] := by
  have h4 := Receiver.four_le_chunkFrames file evs
  obtain ⟨-, hinfo, -, -, -, hcompl⟩ := Receiver.handleChunks_before_info h4
  obtain ⟨-, -, -, -, hsome⟩ := Receiver.handleChunks_receiving Receiver.fresh_receiving h4
    fun q d _ hlen => by
      have hnil := Reassembly.eq_nil_of_firsts hlen
      simp at hnil
  rw [Receiver.receive, Receiver.foldl_onmessage_of_chunks file h]
  refine ⟨hinfo, ?_, hcompl⟩
  cases hd : (({} : Receiver).handleChunks (Receiver.chunkFrames file evs)).downloader with
  | none => rfl
  | some calls => simp [hd] at hsome

/-- The writes are the chunks from `k` on, up to the write index. -/
theorem writes_from {file : File} {evs : List Receiver.Incoming} {k : Nat} {r : Receiver}
    (hr : Receiver.Receiving ((Receiver.chunkFrames file evs).map arrival) k r)
    (hlt : ∀ i, .chunk i ∈ evs → i < totalChunks file) (h32 : totalChunks file ≤ 2 ^ 32) :
    ∀ calls ∈ r.downloader,
      writes calls = ((List.range r.nextWriteIndex).map (payload file)).drop k := by
  obtain ⟨out, hin, hwrites⟩ := hr.order
  -- the same receiver with a downloader that was there from the start
  have hall : Receiver.Receiving ((Receiver.chunkFrames file evs).map arrival) 0
      { r with downloader := some (out.map .write) } := by
    refine ⟨⟨out, hin, ?_⟩, Nat.zero_le _, hr.received, hr.bytes⟩
    rintro calls ⟨⟩
    rw [writes_map_write, List.drop_zero]
  have hout := (hall.writes_payload hlt h32).1 _ rfl
  rw [writes_map_write] at hout
  intro calls hcalls
  rw [hwrites calls hcalls, hout]

/-- **A piece of the file**: in every run, with a file of at most 2 ^ 32 chunks, the
bytes written follow each other in the file. -/
theorem written_piece (cfg : Config) (file : File) (h32 : totalChunks file ≤ 2 ^ 32)
    (x : Transfer) (h : Runs.Reach (step cfg file) (fresh cfg file) x) :
    ∀ calls ∈ x.receiver.downloader, (writes calls).flatten <:+: file.bytes := by
  obtain ⟨evs, hx⟩ := lossy_of_reach h
  intro calls hcalls
  by_cases hinfo : .fileInfo ∈ evs
  · obtain ⟨pre, post, rfl, hpre⟩ := List.eq_append_cons_of_mem hinfo
    have hlt : ∀ i, .chunk i ∈ pre ++ post → i < totalChunks file :=
      fun i hi => hx.heard.inFile i (by simpa using List.mem_append.mp hi)
    obtain ⟨k, -, hr, -⟩ := Receiver.receive_spec hpre hlt
    rw [← hx.heard.receiver] at hr
    rw [writes_from hr hlt h32 calls hcalls]
    have hsuffix : (((List.range x.receiver.nextWriteIndex).map (payload file)).drop k).flatten <:+
        ((List.range x.receiver.nextWriteIndex).map (payload file)).flatten := by
      obtain ⟨before, hbefore⟩ :=
        List.drop_suffix k ((List.range x.receiver.nextWriteIndex).map (payload file))
      exact ⟨before.flatten, by rw [← List.flatten_append, hbefore]⟩
    refine hsuffix.isInfix.trans ?_
    rw [← List.flatMap_def]
    exact (payloads_below file _).isInfix
  · rw [hx.heard.receiver, (receive_uninformed file hinfo).2.1] at hcalls
    cases hcalls

/-- Two relays, and a file-info text of two bytes. -/
def twoRelays : Config := { numRelay := 2, numP2P := 0, infoLength := fun _ => 2 }

/-- Relay 1 sends the only chunk, and the file-info comes after it over relay 0. -/
def overtakenRun : List Action :=
  [.sender (.onopen 1), .sender (.onopen 0), .sender (.pump 1 (.read true)),
    .sender (.pump 1 (.send false)), .sender (.drain 1), .sender (.drain 1), .sender (.drain 1),
    .sender (.drain 1), .sender (.drain 1), .deliver 1, .sender (.drain 0), .sender (.drain 0),
    .deliver 0]

/-- The chunk was handled before there was a downloader: the piece is empty. -/
theorem written_piece_overtaken :
    ∃ x, Runs.run (step twoRelays oneByteFile) (fresh twoRelays oneByteFile) overtakenRun = some x ∧
      x.receiver.downloader = some [] ∧
      ∀ calls ∈ x.receiver.downloader, (writes calls).flatten <:+: oneByteFile.bytes :=
  ⟨_, rfl, by decide, written_piece twoRelays oneByteFile (by decide) _
    (Runs.reach_of_run overtakenRun rfl)⟩

/-! ## With the file-info first -/

/-- The file-info has come before chunk 0, or neither of them has come. -/
inductive Informed : List Receiver.Incoming → Prop where
  | waiting {evs : List Receiver.Incoming} (hinfo : .fileInfo ∉ evs) (hzero : .chunk 0 ∉ evs) :
      Informed evs
  | told {pre : List Receiver.Incoming} (hinfo : .fileInfo ∉ pre) (hzero : .chunk 0 ∉ pre)
      (post : List Receiver.Incoming) : Informed (pre ++ .fileInfo :: post)

theorem Informed.snoc {evs : List Receiver.Incoming} (h : Informed evs)
    (ev : Receiver.Incoming) (hev : ev = .chunk 0 → .fileInfo ∈ evs) : Informed (evs ++ [ev]) := by
  cases h with
  | waiting hinfo hzero =>
      cases ev with
      | fileInfo => exact .told hinfo hzero []
      | chunk i =>
          have hne : i ≠ 0 := by
            rintro rfl
            exact hinfo (hev rfl)
          refine .waiting (by simpa using hinfo) ?_
          simpa [Ne.symm hne] using hzero
  | told hinfo hzero post =>
      rw [List.append_assoc]
      exact .told hinfo hzero (post ++ [ev])

/-- The transfer as its users want it, as far as it has come. -/
structure Safe (file : File) (x : Transfer) : Prop where
  written : ∀ calls ∈ x.receiver.downloader, (writes calls).flatten <+: file.bytes
  /-- The download is completed with the last chunk, -/
  completed_iff : x.receiver.completions ≠ [] ↔
    0 < totalChunks file ∧ ∀ i < totalChunks file, x.Arrived i
  /-- once, with the whole file, -/
  completed : x.receiver.completions ≠ [] → x.receiver.completions.length = 1 ∧
    ∃ calls, x.receiver.downloader = some calls ∧ (writes calls).flatten = file.bytes ∧
      closes calls = 1
  /-- and not closed before. -/
  unclosed : x.receiver.completions = [] → ∀ calls ∈ x.receiver.downloader, closes calls = 0

/-- The last of the chunks below `n` is there when the write index is `n`. -/
theorem all_of_next {file : File} {evs : List Receiver.Incoming} {r : Receiver} {k : Nat}
    (hr : Receiver.Receiving ((Receiver.chunkFrames file evs).map arrival) k r)
    (hlt : ∀ i, .chunk i ∈ evs → i < totalChunks file) (h32 : totalChunks file ≤ 2 ^ 32)
    (hnext : r.nextWriteIndex = totalChunks file) : ∀ i < totalChunks file, .chunk i ∈ evs := by
  obtain ⟨out, hin, -⟩ := hr.order
  intro i hi
  have hsome := hin.arrived_iff.mpr (.inl (hnext ▸ hi))
  obtain ⟨p, hp⟩ := Option.ne_none_iff_exists'.mp hsome
  obtain ⟨j, hj, heq⟩ := Receiver.mem_arrivals.mp (Reassembly.mem_of_lookup hp)
  have hmod : j % 2 ^ 32 = j := Nat.mod_eq_of_lt ((hlt j hj).trans_le h32)
  obtain ⟨rfl, -⟩ := Prod.mk.inj heq
  rwa [hmod]

/-- Without chunk 0 nothing is passed on before the downloader exists. -/
theorem told_zero {file : File} {pre : List Receiver.Incoming} (hzero : .chunk 0 ∉ pre)
    (hlt : ∀ i, .chunk i ∈ pre → i < totalChunks file) (h32 : totalChunks file ≤ 2 ^ 32) :
    (Receiver.told file pre).nextWriteIndex = 0 := by
  apply (Receiver.nextWriteIndex_eq_zero (Receiver.four_le_chunkFrames file pre)).mpr
  rw [← Option.not_isSome_iff_eq_none, Reassembly.lookup_isSome_iff]
  intro hm
  obtain ⟨e, he, hfst⟩ := List.mem_map.mp hm
  obtain ⟨i, hi, rfl⟩ := Receiver.mem_arrivals.mp he
  have hi' := hlt i hi
  obtain rfl : i = 0 := (Nat.mod_eq_of_lt (show i < 2 ^ 32 by omega)).symm.trans hfst
  exact hzero hi

/-- An empty file has no chunk that could complete it. -/
theorem receive_empty {file : File} {pre post : List Receiver.Incoming} (hpre : .fileInfo ∉ pre)
    (hlt : ∀ i, .chunk i ∈ pre ++ post → i < totalChunks file) (hzero : totalChunks file = 0) :
    (Receiver.receive file (pre ++ .fileInfo :: post)).downloader = some [] ∧
      (Receiver.receive file (pre ++ .fileInfo :: post)).completions = [] := by
  have hnil : Receiver.chunkFrames file pre = [] ∧ Receiver.chunkFrames file post = [] := by
    rw [← List.append_eq_nil_iff, ← Receiver.chunkFrames_append]
    apply List.filterMap_eq_nil_iff.mpr
    intro ev hev
    cases ev with
    | fileInfo => rfl
    | chunk i => exact absurd (hlt i hev) (show ¬ i < totalChunks file by omega)
  rw [Receiver.receive_info hpre, Receiver.told, hnil.1, hnil.2]
  exact ⟨rfl, rfl⟩

theorem Heard.safe {file : File} {x : Transfer} {evs : List Receiver.Incoming}
    (h : Heard file x evs) (hinformed : Informed evs) (h32 : totalChunks file ≤ 2 ^ 32) :
    Safe file x := by
  have harrived (i : Nat) : x.Arrived i ↔ .chunk i ∈ evs := (h.arrived i).symm
  cases hinformed with
  | waiting hinfo hzero =>
      obtain ⟨-, hnone, hcompl⟩ := receive_uninformed file hinfo
      rw [← h.receiver] at hnone hcompl
      refine ⟨by simp [hnone], ?_, fun hne => absurd hcompl hne, by simp [hnone]⟩
      refine iff_of_false (fun hne => hne hcompl) ?_
      rintro ⟨hpos, hall⟩
      exact hzero ((harrived 0).mp (hall 0 hpos))
  | @told pre hinfo hzero post =>
      have hmem (i : Nat) : Receiver.Incoming.chunk i ∈ pre ++ post ↔
          .chunk i ∈ pre ++ .fileInfo :: post := by simp
      have hlt : ∀ i, .chunk i ∈ pre ++ post → i < totalChunks file :=
        fun i hi => h.inFile i ((hmem i).mp hi)
      obtain ⟨k, hk, hr, htotal, -, hsome, hfin⟩ := Receiver.receive_spec hinfo hlt
      have hk0 : k = 0 := hk.trans
        (told_zero hzero (fun i hi => hlt i (List.mem_append_left _ hi)) h32)
      have hfin := hfin hk0
      rw [hk0] at hr
      rw [← h.receiver] at hr htotal hsome hfin
      obtain ⟨hwrites, hnext⟩ := hr.writes_payload hlt h32
      obtain ⟨calls, hcalls⟩ := Option.isSome_iff_exists.mp hsome
      rcases Nat.eq_zero_or_pos (totalChunks file) with hzero' | hpos
      · obtain ⟨hdown, hcompl⟩ := receive_empty hinfo hlt hzero'
        rw [← h.receiver] at hdown hcompl
        refine ⟨?_, iff_of_false (fun hne => hne hcompl) (by omega), fun hne => absurd hcompl hne,
          ?_⟩
        · simp [hdown, writes]
        · simp [hdown, closes]
      · obtain ⟨hruns, hlen, hcloses⟩ := hfin hpos
        rw [htotal] at hruns
        have hwritten : (writes calls).flatten =
            (List.range x.receiver.nextWriteIndex).flatMap (payload file) := by
          rw [hwrites calls hcalls, ← List.flatMap_def]
        have hdone : x.receiver.completions ≠ [] ↔
            x.receiver.nextWriteIndex = totalChunks file := by
          rw [← List.length_pos_iff, hlen, hruns]
          split_ifs with heq
          · exact iff_of_true Nat.one_pos heq
          · exact iff_of_false (Nat.lt_irrefl 0) heq
        refine ⟨?_, ?_, ?_, ?_⟩
        · intro calls' hcalls'
          obtain rfl := Option.mem_unique hcalls hcalls'
          rw [hwritten]
          exact payloads_below file _
        · rw [hdone]
          constructor
          · intro heq
            have hall := all_of_next hr hlt h32 heq
            exact ⟨hpos, fun i hi => (harrived i).mpr ((hmem i).mp (hall i hi))⟩
          · rintro ⟨-, hall⟩
            exact hnext fun i hi => (hmem i).mpr ((harrived i).mp (hall i hi))
        · intro hne
          have heq := hdone.mp hne
          rw [if_pos heq] at hruns
          refine ⟨hlen.trans hruns, calls, hcalls, ?_, (hcloses calls hcalls).trans hruns⟩
          rw [hwritten, heq]
          exact flatMap_payload file
        · intro hnone calls' hcalls'
          rw [hcloses calls' hcalls', ← hlen, hnone]
          rfl

/-- The file-info is there once it has been received. -/
theorem Heard.fileInfo_mem {file : File} {x : Transfer} {evs : List Receiver.Incoming}
    (h : Heard file x evs) (hsome : x.receiver.fileInfo.isSome) : .fileInfo ∈ evs := by
  by_contra hinfo
  rw [h.receiver, (receive_uninformed file hinfo).1] at hsome
  cases hsome

/-- The invariant of the runs in which the file-info comes first. -/
theorem informed_of_reach {cfg : Config} {file : File} {x : Transfer}
    (h : Runs.ReachWhen (step cfg file) InfoFirst (fresh cfg file) x) :
    ∃ evs, Lossy file x evs ∧ Informed evs := by
  refine Runs.ReachWhen.invariant (I := fun x => ∃ evs, Lossy file x evs ∧ Informed evs) h
    ⟨[], lossy_fresh cfg file, .waiting List.not_mem_nil List.not_mem_nil⟩ ?_
  rintro x a y ⟨evs, hx, hinformed⟩ hok hs
  rcases hx.step hs with hy | ⟨t, f, ev, rfl, hnext, hchunk, hy⟩
  · exact ⟨evs, hy, hinformed⟩
  · refine ⟨evs ++ [ev], hy, hinformed.snoc ev fun hzero => ?_⟩
    exact hx.heard.fileInfo_mem (hok f hnext ((hchunk 0).mp hzero))

/-- **The transfer under failures**: in every run in which the file-info comes
first, the bytes written are a prefix of the file, and the receiver completes
the download once, with the whole file, when the last of its chunks arrives. The
file has at most 2 ^ 32 chunks, as many as a frame can number. -/
theorem transfer_safe (cfg : Config) (file : File) (h32 : totalChunks file ≤ 2 ^ 32)
    (x : Transfer) (h : Runs.ReachWhen (step cfg file) InfoFirst (fresh cfg file) x) :
    Safe file x := by
  obtain ⟨evs, hx, hinformed⟩ := informed_of_reach h
  exact hx.heard.safe hinformed h32

/-- Relay 0 sends the file-info and closes before its pump can send; relay 1 sends
the chunk. -/
def lossyRun : List Action :=
  [.sender (.onopen 0), .sender (.drain 0), .sender (.drain 0), .deliver 0, .sender (.onclose 0),
    .sender (.pump 0 (.read true)), .sender (.pump 0 (.send false)), .sender (.onopen 1),
    .sender (.pump 1 (.read true)), .sender (.pump 1 (.send false)), .sender (.drain 1),
    .sender (.drain 1), .sender (.drain 1), .sender (.drain 1), .sender (.drain 1), .deliver 1]

theorem transfer_safe_relayCloses :
    ∃ x, Runs.run (step twoRelays oneByteFile) (fresh twoRelays oneByteFile) lossyRun = some x ∧
      x.receiver.completions ≠ [] ∧ Safe oneByteFile x :=
  ⟨_, rfl, by decide, transfer_safe twoRelays oneByteFile (by decide) _
    (Runs.reachWhen_of_run lossyRun rfl (by decide))⟩

end Transfer

end FastTransfer.Web
