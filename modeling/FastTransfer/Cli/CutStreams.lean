import FastTransfer.Cli.StripedTransfer

/-!
# The striped transfer over connections that break

A connection may break at any time: what is in flight on it is lost, and of what
has arrived the receiving task still gets a first part at most. The sending task
panics at its next write, and a receiving task that finds the end of the stream
in the middle of a chunk prints the error and leaves its loop. Then `receive_file`
goes on with what there is, and only the checksum at its end can tell.

The proofs keep beside each stream one that was not cut and that has made the same
steps: there the lost bytes are still in flight.
-/

namespace FastTransfer.Cli

open Tiling Filling

/-- The connection breaks, with `n` bytes left to read. -/
def Stream.cut (st : Stream) (n : Nat) : Option Stream :=
  if st.closed ∧ st.arrived.length ≤ n then none
  else
    some { st with
      inFlight := []
      arrived := st.arrived.take n
      sending := match st.sending with
        | .running _ => .panicked
        | .ended => .ended
        | .panicked => .panicked }

namespace Striped

/-- A step of the transfer, or a break of stream `k`. -/
inductive CutAction where
  | act (a : Action)
  | cut (k n : Nat)
  deriving DecidableEq

/-- One step of a transfer whose connections may break. -/
def cutStep (lib : Libraries) (file : SourceFile) (s : Striped) : CutAction → Option Striped
  | .act a => step lib file s a
  | .cut k n => do
      let st ← s.streams[k]?
      let st ← st.cut n
      some (s.setStream k st)

/-- Chunk `i` has not been written. -/
def Missing (s : Striped) (i : Nat) : Prop := ∀ st ∈ s.streams, i ∉ st.written

instance (s : Striped) (i : Nat) : Decidable (s.Missing i) :=
  inferInstanceAs (Decidable (∀ st ∈ s.streams, i ∉ st.written))

/-- What holds at every moment, whichever streams are cut. -/
structure CutSound (lib : Libraries) (file : SourceFile) (s : Striped) : Prop where
  noPanic : ∀ st ∈ s.streams, st.receiving ≠ .panicked
  /-- The output file is made from the header that was sent. -/
  header : ∀ header, s.phase = .running header →
    header = fileHeader lib file s.totalChunks ∧ s.output.length = file.size
  /-- Each chunk that is written is in its place, -/
  written : ∀ i, ¬ s.Missing i →
    i < s.totalChunks ∧ block chunkSize s.output i = block chunkSize file.bytes i
  /-- and the place of another is empty. -/
  missing : ∀ i, s.Missing i → ∀ b ∈ block chunkSize s.output i, b = 0
  /-- A task that ends at the marker has written all of its stripe. -/
  ended : ∀ k st, s.streams[k]? = some st → st.receiving = .ended →
    ∀ i < s.totalChunks, i % numStreams = k → i ∈ st.written

/-- What holds when the transfer is over. -/
structure CutDone (lib : Libraries) (file : SourceFile) (s : Striped) : Prop where
  ends : s.phase = .failed ∨ ∀ st ∈ s.streams, st.receiving = .ended ∨ st.receiving = .failed
  /-- Unless the checksums collide, the transfer is reported as verified just
  when the chunks that are missing are all zeros in the file. -/
  verified : (lib.sha256 s.output = lib.sha256 file.bytes → s.output = file.bytes) →
    (s.verified lib ↔ s.phase ≠ .failed ∧
      ∀ i < s.totalChunks, s.Missing i → ∀ b ∈ block chunkSize file.bytes i, b = 0)

end Striped

/-! ## The stream that was not cut -/

section Shadow

variable {st st₀ st' : Stream}

/-- `st` has made the steps of `st₀`, and may have been cut. -/
structure Stream.Shadow (st st₀ : Stream) : Prop where
  arrived : st.arrived = st₀.arrived
  written : st.written = st₀.written
  receiving : st.receiving = st₀.receiving ∨ st.receiving = .failed ∧ st₀.receiving = .reading
  uncut : st.closed = false → st = st₀

theorem Stream.Shadow.refl (st : Stream) : st.Shadow st := ⟨rfl, rfl, .inl rfl, fun _ => rfl⟩

theorem send_closed {file : SourceFile} {n : Nat} (h : st.send file n = some st') :
    st.closed = false := by
  cases hsending : st.sending with
  | running i => simp [Stream.closed, hsending]
  | ended | panicked => simp [Stream.send, hsending] at h

theorem deliver_closed {n : Nat} (h : st.deliver n = some st') : st.closed = false := by
  rw [Stream.deliver] at h
  split_ifs at h with hn
  have hne : st.inFlight ≠ [] := List.length_pos_iff.mp (by omega)
  cases hsending : st.sending with
  | running i => simp [Stream.closed, hsending]
  | ended | panicked => simpa [Stream.closed, hsending] using hne

theorem recv_written {c : Nat} (h : st.recv c = some st') : st'.written = st.written := by
  cases hr : st.receiving with
  | writing index offset data | ended | failed | panicked => simp [Stream.recv, hr] at h
  | reading =>
      simp only [Stream.recv, hr] at h
      split at h
      · obtain rfl := Option.some.inj h
        rfl
      · split_ifs at h
        obtain rfl := Option.some.inj h
        rfl
      · obtain rfl := Option.some.inj h
        rfl

/-- A stream is closed when nothing can be sent and nothing can arrive. -/
theorem closed_of_stuck {file : SourceFile} {n : Nat} (hsend : st.send file n = none)
    (hdeliver : ∀ l, st.deliver l = none) : st.closed = true := by
  have hnil : st.inFlight = [] := by
    by_contra hne
    have hnone := hdeliver st.inFlight.length
    rw [Stream.deliver, if_pos ⟨List.length_pos_iff.mpr hne, Nat.le_refl _⟩] at hnone
    cases hnone
  cases hsending : st.sending with
  | ended | panicked => simp [Stream.closed, hsending, hnil]
  | running i =>
      simp only [Stream.send, hsending] at hsend
      split_ifs at hsend
      cases hread : readRange file i with
      | none => simp [hread] at hsend
      | some x => simp [hread] at hsend

theorem Stream.Shadow.recv (h : st.Shadow st₀) {c : Nat} (hs : st.recv c = some st') :
    st'.Shadow st₀ ∨ ∃ st₀', st₀.recv c = some st₀' ∧ st'.Shadow st₀' := by
  have hreading : st.receiving = .reading := by
    cases hr : st.receiving with
    | reading => rfl
    | writing index offset data | ended | failed | panicked => simp [Stream.recv, hr] at hs
  have hreading₀ : st₀.receiving = .reading := by
    rcases h.receiving with heq | ⟨hfailed, -⟩
    · rw [← heq, hreading]
    · simp [hfailed] at hreading
  simp only [Stream.recv, hreading] at hs
  cases hrecv : recvChunk st.arrived with
  | ok chunk rest =>
      simp only [hrecv, Option.some.injEq] at hs
      subst hs
      refine .inr ⟨{ st₀ with arrived := rest, receiving := _ }, ?_, rfl, h.written, .inl rfl,
        fun hopen => ?_⟩
      · simp only [Stream.recv, hreading₀, ← h.arrived, hrecv]
      · rw [h.uncut hopen]
  | short =>
      simp only [hrecv] at hs
      split_ifs at hs with hclosed
      obtain rfl := Option.some.inj hs
      exact .inl ⟨h.arrived, h.written, .inr ⟨rfl, hreading₀⟩,
        fun hopen => absurd hclosed (Bool.not_eq_true _ ▸ hopen)⟩
  | failed =>
      simp only [hrecv, Option.some.injEq] at hs
      subst hs
      refine .inr ⟨{ st₀ with receiving := .panicked }, ?_, h.arrived, h.written, .inl rfl,
        fun hopen => ?_⟩
      · simp only [Stream.recv, hreading₀, ← h.arrived, hrecv]
      · rw [h.uncut hopen]

theorem Stream.Shadow.write (h : st.Shadow st₀) {output output' : Bytes}
    (hs : st.write output = some (st', output')) :
    ∃ st₀', st₀.write output = some (st₀', output') ∧ st'.Shadow st₀' := by
  cases hr : st.receiving with
  | reading | ended | failed | panicked => simp [Stream.write, hr] at hs
  | writing index offset data =>
      have hr₀ : st₀.receiving = .writing index offset data := by
        rcases h.receiving with heq | ⟨hfailed, -⟩
        · rw [← heq, hr]
        · simp [hfailed] at hr
      simp only [Stream.write, hr, Option.some.injEq, Prod.mk.injEq] at hs
      obtain ⟨rfl, rfl⟩ := hs
      refine ⟨{ st₀ with receiving := .reading, written := st₀.written ++ [index] },
        by simp only [Stream.write, hr₀], h.arrived, ?_, .inl rfl, fun hopen => ?_⟩
      · show st.written ++ [index] = st₀.written ++ [index]
        rw [h.written]
      · rw [h.uncut hopen]

/-- The bytes that a cut takes are in flight again. -/
def Stream.restored (st : Stream) (n : Nat) : Stream :=
  { st with arrived := st.arrived.take n, inFlight := st.arrived.drop n ++ st.inFlight }

theorem Stream.Shadow.cut (h : st.Shadow st₀) {n : Nat} (hs : st.cut n = some st') :
    st'.Shadow (st₀.restored n) := by
  rw [Stream.cut] at hs
  split_ifs at hs
  obtain rfl := Option.some.inj hs
  refine ⟨congrArg (List.take n) h.arrived, h.written, h.receiving, fun hopen => ?_⟩
  cases hsending : st.sending with
  | running i | ended | panicked => simp [Stream.closed, hsending] at hopen

theorem Carries.restored {file : SourceFile} {header : Bytes} {k r m : Nat}
    (h : Carries file header k r m st) (n : Nat) : Carries file header k r m (st.restored n) where
  sent := h.sent
  below := h.below
  sending := h.sending
  received := h.received
  ended := h.ended
  wire := by
    show st.arrived.take n ++ (st.arrived.drop n ++ st.inFlight) = _
    rw [← List.append_assoc, List.take_append_drop]
    exact h.wire

end Shadow

namespace Striped

section Shadowed

variable {lib : Libraries} {file : SourceFile} {s s₀ s' : Striped}

/-- Stream by stream; a receiver that failed for want of a header is still
waiting for it in `s₀`. -/
structure Shadowed (s s₀ : Striped) : Prop where
  totalChunks : s.totalChunks = s₀.totalChunks
  first : s.first = s₀.first
  output : s.output = s₀.output
  phase : s.phase = s₀.phase ∨ s.phase = .failed
  length : s.streams.length = s₀.streams.length
  streams : ∀ (k : Nat) (st st₀ : Stream),
    s.streams[k]? = some st → s₀.streams[k]? = some st₀ → st.Shadow st₀

theorem Shadowed.refl (s : Striped) : Shadowed s s where
  totalChunks := rfl
  first := rfl
  output := rfl
  phase := .inl rfl
  length := rfl
  streams _ _ _ hk hk₀ := Option.some.inj (hk.symm.trans hk₀) ▸ Stream.Shadow.refl _

theorem Shadowed.get (h : Shadowed s s₀) {k : Nat} {st : Stream} (hk : s.streams[k]? = some st) :
    ∃ st₀, s₀.streams[k]? = some st₀ ∧ st.Shadow st₀ := by
  have hlt : k < s₀.streams.length := h.length ▸ (List.getElem?_eq_some_iff.mp hk).1
  exact ⟨_, List.getElem?_eq_getElem hlt, h.streams k _ _ hk (List.getElem?_eq_getElem hlt)⟩

/-- The same stream changes in both. -/
theorem Shadowed.streams_set (h : Shadowed s s₀) {k : Nat} {st' st₀' : Stream}
    (hshadow : st'.Shadow st₀') (j : Nat) (v v₀ : Stream)
    (hv : (s.streams.set k st')[j]? = some v) (hv₀ : (s₀.streams.set k st₀')[j]? = some v₀) :
    v.Shadow v₀ := by
  rcases Tally.getElem?_set_cases hv with ⟨rfl, rfl⟩ | ⟨hj, hv⟩
  · rcases Tally.getElem?_set_cases hv₀ with ⟨-, rfl⟩ | ⟨hj, -⟩
    · exact hshadow
    · exact absurd rfl hj
  · rcases Tally.getElem?_set_cases hv₀ with ⟨rfl, -⟩ | ⟨-, hv₀⟩
    · exact absurd rfl hj
    · exact h.streams j v v₀ hv hv₀

theorem Shadowed.setStream (h : Shadowed s s₀) (k : Nat) {st' st₀' : Stream}
    (hshadow : st'.Shadow st₀') : Shadowed (s.setStream k st') (s₀.setStream k st₀') where
  totalChunks := h.totalChunks
  first := h.first
  output := h.output
  phase := h.phase
  length := by
    rw [Striped.setStream, Striped.setStream, List.length_set, List.length_set]
    exact h.length
  streams := h.streams_set hshadow

/-- Only the stream that is cut changes. -/
theorem Shadowed.setStream_left (h : Shadowed s s₀) {k : Nat} {st' st₀ : Stream}
    (hk : s₀.streams[k]? = some st₀) (hshadow : st'.Shadow st₀) :
    Shadowed (s.setStream k st') s₀ := by
  have hset := h.setStream k hshadow
  have hself : s₀.setStream k st₀ = s₀ := by
    obtain ⟨hlt, rfl⟩ := List.getElem?_eq_some_iff.mp hk
    rw [Striped.setStream, List.set_getElem_self]
  rwa [hself] at hset

theorem Shadowed.recvHeader (h : Shadowed s s₀) {st st₀ : Stream} (hshadow : st.Shadow st₀)
    (hs : s.recvHeader lib st = some s') :
    Shadowed s' s₀ ∨ ∃ s₀', s₀.recvHeader lib st₀ = some s₀' ∧ Shadowed s' s₀' := by
  cases hrecv : recvMessage st.arrived with
  | ok headerData rest =>
      have hrecv₀ : recvMessage st₀.arrived = .ok headerData rest := hshadow.arrived ▸ hrecv
      have hrest : Stream.Shadow { st with arrived := rest } { st₀ with arrived := rest } :=
        ⟨rfl, hshadow.written, hshadow.receiving, fun hopen => by rw [hshadow.uncut hopen]⟩
      have hset := h.setStream s.first hrest
      cases hheader : lib.fromSlice headerData with
      | some header =>
          simp only [Striped.recvHeader, hrecv, hheader, Option.some.injEq] at hs
          subst hs
          refine .inr ⟨{ s₀.setStream s.first { st₀ with arrived := rest } with
            phase := .running header, output := List.replicate header.size 0 }, ?_,
            hset.totalChunks, hset.first, rfl, .inl rfl, hset.length, hset.streams⟩
          simp only [Striped.recvHeader, hrecv₀, hheader, h.first]
      | none =>
          simp only [Striped.recvHeader, hrecv, hheader, Option.some.injEq] at hs
          subst hs
          refine .inr ⟨{ s₀.setStream s.first { st₀ with arrived := rest } with
            phase := .failed }, ?_,
            hset.totalChunks, hset.first, hset.output, .inl rfl, hset.length, hset.streams⟩
          simp only [Striped.recvHeader, hrecv₀, hheader, h.first]
  | short =>
      simp only [Striped.recvHeader, hrecv] at hs
      split_ifs at hs
      obtain rfl := Option.some.inj hs
      exact .inl ⟨h.totalChunks, h.first, h.output, .inr rfl, h.length, h.streams⟩
  | failed =>
      simp only [Striped.recvHeader, hrecv, Option.some.injEq] at hs
      subst hs
      exact .inl ⟨h.totalChunks, h.first, h.output, .inr rfl, h.length, h.streams⟩

/-- **The simulation**: a step is one of the streams that were not cut, too, or
it finds an end that is not there for them. -/
theorem Shadowed.step {a : Action} (h : Shadowed s s₀) (hs : step lib file s a = some s') :
    Shadowed s' s₀ ∨ ∃ s₀', Striped.step lib file s₀ a = some s₀' ∧ Shadowed s' s₀' := by
  cases a with
  | send k =>
      obtain ⟨st, hk, hs⟩ := Option.bind_eq_some_iff.mp hs
      obtain ⟨st', hst, hs⟩ := Option.bind_eq_some_iff.mp hs
      obtain rfl := Option.some.inj hs
      obtain ⟨st₀, hk₀, hshadow⟩ := h.get hk
      obtain rfl := hshadow.uncut (send_closed hst)
      refine .inr ⟨s₀.setStream k st', ?_, h.setStream k (.refl st')⟩
      simp [Striped.step, hk₀, ← h.totalChunks, hst]
  | deliver k l =>
      obtain ⟨st, hk, hs⟩ := Option.bind_eq_some_iff.mp hs
      obtain ⟨st', hst, hs⟩ := Option.bind_eq_some_iff.mp hs
      obtain rfl := Option.some.inj hs
      obtain ⟨st₀, hk₀, hshadow⟩ := h.get hk
      obtain rfl := hshadow.uncut (deliver_closed hst)
      refine .inr ⟨s₀.setStream k st', ?_, h.setStream k (.refl st')⟩
      simp [Striped.step, hk₀, hst]
  | recvHeader =>
      cases hphase : s.phase with
      | running header | failed => simp [Striped.step, hphase] at hs
      | awaiting =>
          simp only [Striped.step, hphase] at hs
          obtain ⟨st, hk, hs⟩ := Option.bind_eq_some_iff.mp hs
          obtain ⟨st₀, hk₀, hshadow⟩ := h.get hk
          have hphase₀ : s₀.phase = .awaiting := by
            rw [← h.phase.resolve_right (by simp [hphase]), hphase]
          rcases h.recvHeader hshadow hs with hleft | ⟨s₀', hs₀, hnext⟩
          · exact .inl hleft
          · refine .inr ⟨s₀', ?_, hnext⟩
            simp [Striped.step, hphase₀, ← h.first, hk₀, hs₀]
  | recv k =>
      cases hphase : s.phase with
      | awaiting | failed => simp [Striped.step, hphase] at hs
      | running header =>
          simp only [Striped.step, hphase] at hs
          obtain ⟨st, hk, hs⟩ := Option.bind_eq_some_iff.mp hs
          obtain ⟨st', hst, hs⟩ := Option.bind_eq_some_iff.mp hs
          obtain rfl := Option.some.inj hs
          obtain ⟨st₀, hk₀, hshadow⟩ := h.get hk
          have hphase₀ : s₀.phase = .running header := by
            rw [← h.phase.resolve_right (by simp [hphase]), hphase]
          rcases hshadow.recv hst with hshadow' | ⟨st₀', hst₀, hshadow'⟩
          · exact .inl (h.setStream_left hk₀ hshadow')
          · refine .inr ⟨s₀.setStream k st₀', ?_, h.setStream k hshadow'⟩
            simp [Striped.step, hphase₀, hk₀, hst₀]
  | write k =>
      obtain ⟨st, hk, hs⟩ := Option.bind_eq_some_iff.mp hs
      obtain ⟨⟨st', output⟩, hst, hs⟩ := Option.bind_eq_some_iff.mp hs
      obtain rfl := Option.some.inj hs
      obtain ⟨st₀, hk₀, hshadow⟩ := h.get hk
      obtain ⟨st₀', hst₀, hshadow'⟩ := hshadow.write hst
      have hset := h.setStream k hshadow'
      refine .inr ⟨{ s₀.setStream k st₀' with output }, ?_, hset.totalChunks, hset.first, rfl,
        hset.phase, hset.length, hset.streams⟩
      simp [Striped.step, hk₀, ← h.output, hst₀]

end Shadowed

end Striped

end FastTransfer.Cli
