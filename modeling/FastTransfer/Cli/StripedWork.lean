import FastTransfer.Lib.Tally
import FastTransfer.Cli.Frames
import FastTransfer.Cli.Striped

/-!
# The work of the striped transfer

A measure of the work that is left: each turn of a sending task is worth more
than the bytes of its chunk, each byte in flight two steps, and each byte that
has arrived one. Every step of the transfer uses some of it up. The measure needs
no invariant: it decreases in every state, reachable or not.
-/

namespace FastTransfer.Cli

open Tiling Filling

/-! ## The work of a stream -/

/-- The turns of the sending loop that are left, the marker included. -/
def Sending.turns (totalChunks : Nat) : Sending → Nat
  | .running chunkIdx => totalChunks - chunkIdx + 1
  | .ended | .panicked => 0

/-- More than the bytes of a frame count. -/
def turnWork : Nat := 2 * (12 + chunkSize) + 1

/-- The steps of a receiving task that no byte pays for. -/
def Receiving.work : Receiving → Nat
  | .reading => 1
  | .writing _ _ _ => 2
  | .ended | .failed | .panicked => 0

/-- The work of a stream and its two tasks. -/
def Stream.work (totalChunks : Nat) (st : Stream) : Nat :=
  turnWork * st.sending.turns totalChunks + 2 * st.inFlight.length + st.arrived.length +
    st.receiving.work

section Stream

variable {file : SourceFile} {n : Nat} {st st' : Stream}

theorem length_sendChunk (index : Nat) (data : Bytes) :
    (sendChunk index data).length = 12 + data.length := by
  simp only [sendChunk, List.length_append, BigEndian.length_toBytes]
  omega

/-- A chunk is not longer than the chunk size. -/
theorem length_le_of_readRange {i : Nat} {range : ReadRange} {buf : Bytes}
    (h : readRange file i = some (range, buf)) : buf.length ≤ chunkSize := by
  obtain ⟨offset, -, h⟩ := Option.bind_eq_some_iff.mp h
  obtain ⟨remaining, -, h⟩ := Option.bind_eq_some_iff.mp h
  obtain ⟨buf', hread, h⟩ := Option.bind_eq_some_iff.mp h
  obtain ⟨-, rfl⟩ := Prod.mk.inj (Option.some.inj h)
  rw [seekRead] at hread
  split_ifs at hread
  obtain rfl := Option.some.inj hread
  rw [length_slice]
  omega

/-- A task that ends gives its turns up. -/
theorem turnWork_lt (turns : Nat) : turnWork * 0 < turnWork * (turns + 1) :=
  Nat.mul_lt_mul_of_pos_left (Nat.succ_pos turns) (by decide)

/-- One turn pays for the frame that it sends. -/
theorem turnWork_le (i : Nat) {data : Bytes} {turns turns' : Nat}
    (hdata : data.length ≤ chunkSize) (hturns : turns' < turns) :
    turnWork * turns' + 2 * (sendChunk i data).length < turnWork * turns := by
  have hle := Nat.mul_le_mul_left turnWork (Nat.succ_le_of_lt hturns)
  rw [Nat.mul_succ] at hle
  rw [length_sendChunk]
  have hturn : 2 * (12 + data.length) < turnWork := by
    rw [turnWork]
    omega
  omega

theorem Stream.send_work (h : st.send file n = some st') : st'.work n < st.work n := by
  cases hsending : st.sending with
  | ended | panicked => simp [Stream.send, hsending] at h
  | running i =>
      simp only [Stream.send, hsending] at h
      simp only [Stream.work, hsending]
      split_ifs at h with hi
      · cases hread : readRange file i with
        | none =>
            simp only [hread, Option.some.injEq] at h
            subst h
            have hturn := turnWork_lt (n - i)
            simp only [Sending.turns]
            omega
        | some x =>
            obtain ⟨next, hnext, rfl⟩ : ∃ next : Sending, next.turns n < n - i + 1 ∧
                st' = { st with
                  inFlight := st.inFlight ++ sendChunk i x.2
                  sent := st.sent ++ [x.1]
                  sending := next } := by
              cases hadd : checkedAdd i numStreams with
              | none => exact ⟨.panicked, Nat.succ_pos _, by simpa [hread, hadd] using h.symm⟩
              | some next =>
                  refine ⟨.running next, ?_, by simpa [hread, hadd] using h.symm⟩
                  rw [checkedAdd] at hadd
                  split_ifs at hadd
                  obtain rfl := Option.some.inj hadd
                  simp only [Sending.turns, numStreams]
                  omega
            have hwork := turnWork_le i (length_le_of_readRange hread) hnext
            show turnWork * next.turns n + _ + _ + _ < turnWork * (n - i + 1) + _ + _ + _
            simp only [List.length_append]
            omega
      · obtain rfl := Option.some.inj h
        have hwork := turnWork_le u64Max (show ([] : Bytes).length ≤ chunkSize from Nat.zero_le _)
          (show 0 < n - i + 1 by omega)
        simp only [List.length_append, Sending.turns]
        omega

theorem Stream.deliver_work {l : Nat} (h : st.deliver l = some st') : st'.work n < st.work n := by
  rw [Stream.deliver] at h
  split_ifs at h with hl
  obtain rfl := Option.some.inj h
  simp only [Stream.work, List.length_append, List.length_take, List.length_drop]
  omega

theorem Stream.recv_work {c : Nat} (h : st.recv c = some st') : st'.work n < st.work n := by
  cases hr : st.receiving with
  | writing index offset data | ended | failed | panicked => simp [Stream.recv, hr] at h
  | reading =>
      simp only [Stream.recv, hr] at h
      simp only [Stream.work, hr, Receiving.work]
      cases hrecv : recvChunk st.arrived with
      | ok chunk rest =>
          obtain ⟨index, data⟩ := chunk
          obtain ⟨next, hnext, rfl⟩ : ∃ next : Receiving, next.work ≤ 2 ∧
              st' = { st with arrived := rest, receiving := next } := by
            simp only [hrecv] at h
            split_ifs at h
            · exact ⟨.ended, Nat.zero_le _, (Option.some.inj h).symm⟩
            · cases hmul : checkedMul index c with
              | none => exact ⟨.panicked, Nat.zero_le _, by simpa [hmul] using h.symm⟩
              | some offset =>
                  exact ⟨.writing index offset data, Nat.le_refl _, by simpa [hmul] using h.symm⟩
          have hlength := congrArg List.length ((recvChunk_eq_ok_iff _ _ _ _).mp hrecv).1
          rw [List.length_append, length_sendChunk] at hlength
          show turnWork * st.sending.turns n + 2 * st.inFlight.length + rest.length +
            next.work < _
          omega
      | short =>
          simp only [hrecv] at h
          split_ifs at h
          obtain rfl := Option.some.inj h
          simp
      | failed =>
          simp only [hrecv, Option.some.injEq] at h
          subst h
          simp

theorem Stream.write_work {output output' : Bytes} (h : st.write output = some (st', output')) :
    st'.work n < st.work n := by
  cases hr : st.receiving with
  | reading | ended | failed | panicked => simp [Stream.write, hr] at h
  | writing index offset data =>
      simp only [Stream.write, hr, Option.some.injEq, Prod.mk.injEq] at h
      obtain ⟨rfl, -⟩ := h
      simp [Stream.work, hr, Receiving.work]

end Stream

/-! ## The work of the transfer -/

namespace Striped

/-- The header is still to be read. -/
def Phase.work : Phase → Nat
  | .awaiting => 1
  | .running _ | .failed => 0

/-- The work that is left in a state. -/
def work (s : Striped) : Nat :=
  (s.streams.map (Stream.work s.totalChunks)).sum + Phase.work s.phase

section Work

variable {lib : Libraries} {file : SourceFile} {s s' : Striped} {k : Nat} {st st' : Stream}

theorem setStream_work (hk : s.streams[k]? = some st) (st' : Stream) :
    (s.setStream k st').work + st.work s.totalChunks = s.work + st'.work s.totalChunks := by
  have hsum := Tally.sum_map_set (Stream.work s.totalChunks) (x := st') hk
  simp only [work, Striped.setStream]
  omega

theorem recvHeader_work (hphase : s.phase = .awaiting) (hk : s.streams[s.first]? = some st)
    (hs : s.recvHeader lib st = some s') : s'.work < s.work := by
  have hpay (rest : Bytes) (hrest : rest.length ≤ st.arrived.length) :
      (s.setStream s.first { st with arrived := rest }).work ≤ s.work := by
    have hwork := setStream_work hk { st with arrived := rest }
    simp only [Stream.work] at hwork
    omega
  cases hrecv : recvMessage st.arrived with
  | ok headerData rest =>
      have hle := hpay rest (messageReader.suffix_of_onStream hrecv).length_le
      simp only [work, Striped.setStream, hphase, Phase.work] at hle
      cases hheader : lib.fromSlice headerData with
      | some header =>
          simp only [Striped.recvHeader, hrecv, hheader, Option.some.injEq] at hs
          subst hs
          simp only [work, Striped.setStream, hphase, Phase.work]
          omega
      | none =>
          simp only [Striped.recvHeader, hrecv, hheader, Option.some.injEq] at hs
          subst hs
          simp only [work, Striped.setStream, hphase, Phase.work]
          omega
  | short =>
      simp only [Striped.recvHeader, hrecv] at hs
      split_ifs at hs
      obtain rfl := Option.some.inj hs
      simp only [work, hphase, Phase.work]
      omega
  | failed =>
      simp only [Striped.recvHeader, hrecv, Option.some.injEq] at hs
      subst hs
      simp only [work, hphase, Phase.work]
      omega

/-- **Every step uses up some of the work.** -/
theorem step_work {a : Action} (hs : step lib file s a = some s') : s'.work < s.work := by
  cases a with
  | send k =>
      obtain ⟨st, hk, hs⟩ := Option.bind_eq_some_iff.mp hs
      obtain ⟨st', hst, hs⟩ := Option.bind_eq_some_iff.mp hs
      obtain rfl := Option.some.inj hs
      have hwork := setStream_work hk st'
      have hlt := Stream.send_work hst
      omega
  | deliver k l =>
      obtain ⟨st, hk, hs⟩ := Option.bind_eq_some_iff.mp hs
      obtain ⟨st', hst, hs⟩ := Option.bind_eq_some_iff.mp hs
      obtain rfl := Option.some.inj hs
      have hwork := setStream_work hk st'
      have hlt := Stream.deliver_work (n := s.totalChunks) hst
      omega
  | recvHeader =>
      cases hphase : s.phase with
      | running header | failed => simp [step, hphase] at hs
      | awaiting =>
          simp only [step, hphase] at hs
          obtain ⟨st, hk, hs⟩ := Option.bind_eq_some_iff.mp hs
          exact recvHeader_work hphase hk hs
  | recv k =>
      cases hphase : s.phase with
      | awaiting | failed => simp [step, hphase] at hs
      | running header =>
          simp only [step, hphase] at hs
          obtain ⟨st, hk, hs⟩ := Option.bind_eq_some_iff.mp hs
          obtain ⟨st', hst, hs⟩ := Option.bind_eq_some_iff.mp hs
          obtain rfl := Option.some.inj hs
          have hwork := setStream_work hk st'
          have hlt := Stream.recv_work (n := s.totalChunks) hst
          omega
  | write k =>
      obtain ⟨st, hk, hs⟩ := Option.bind_eq_some_iff.mp hs
      obtain ⟨⟨st', output⟩, hst, hs⟩ := Option.bind_eq_some_iff.mp hs
      obtain rfl := Option.some.inj hs
      have hwork := setStream_work hk st'
      have hlt := Stream.write_work (n := s.totalChunks) hst
      show (s.setStream k st').work < s.work
      omega

end Work

end Striped

end FastTransfer.Cli
