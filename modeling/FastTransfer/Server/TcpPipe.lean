import Mathlib.Logic.Function.Basic
import Mathlib.Tactic.SplitIfs
import FastTransfer.Lib.Runs

/-!
# A session of the TCP relay

`relay` of `internal/handlers/relay.go`: two pipes that share two connections.
A read returns some of the bytes that the source has sent and the relay has not
read, at any time; the source ends its sending side after its last byte, at any
time. No endpoint aborts, so a read or a write fails only on a connection that
the other pipe has closed.
-/

namespace FastTransfer.Server

/-- The two connections of a session. -/
inductive Side where
  | a
  | b
  deriving DecidableEq

/-- The other connection of the session. -/
def Side.other : Side → Side
  | .a => .b
  | .b => .a

@[simp] theorem Side.other_other (d : Side) : d.other.other = d := by
  cases d <;> rfl

@[simp] theorem Side.other_ne (d : Side) : d.other ≠ d := by
  cases d <;> decide

@[simp] theorem Side.ne_other (d : Side) : d ≠ d.other := d.other_ne.symm

theorem Side.eq_or_eq_other (d e : Side) : e = d ∨ e = d.other := by
  cases d <;> cases e <;> simp [Side.other]

/-- Where a pipe stands: `io.CopyBuffer` reads, or writes what is left of a
chunk, or has returned; then the destination is closed. -/
inductive Pipe where
  | reading
  | writing (chunk : List UInt8)
  | copied
  | done
  deriving DecidableEq

/-- What a pipe has read and not yet written. -/
def Pipe.chunk : Pipe → List UInt8
  | .writing chunk => chunk
  | _ => []

/-- A session of the relay: two connections and the two pipes between them. -/
structure RelaySession where
  /-- What an endpoint has sent, or will send, and the relay has not read. -/
  unread : Side → List UInt8
  delivered : Side → List UInt8 := fun _ => []
  closed : Side → Bool := fun _ => false
  /-- The pipe whose destination is this side. -/
  pipe : Side → Pipe := fun _ => .reading

namespace RelaySession

/-- The buffer of a pipe. -/
def bufSize : Nat := 256 * 1024

/-- The session before anything is read. -/
def start (sent : Side → List UInt8) : RelaySession := { unread := sent }

/-- The pipe to `dst` goes on. -/
def goto (s : RelaySession) (dst : Side) (pipe : Pipe) : RelaySession :=
  { s with pipe := Function.update s.pipe dst pipe }

/-- The source has sent at least `n` bytes, and a read returns them. -/
def read (s : RelaySession) (dst : Side) (n : Nat) : Option RelaySession :=
  let src := dst.other
  if s.pipe dst = .reading ∧ s.closed src = false ∧ 0 < n ∧ n ≤ bufSize ∧
      n ≤ (s.unread src).length then
    some { s.goto dst (.writing ((s.unread src).take n)) with
      unread := Function.update s.unread src ((s.unread src).drop n) }
  else none

/-- A read returns the end of the stream, or an error if the source is closed. -/
def readEnd (s : RelaySession) (dst : Side) : Option RelaySession :=
  let src := dst.other
  if s.pipe dst = .reading ∧ (s.closed src = true ∨ s.unread src = []) then
    some (s.goto dst .copied)
  else none

/-- `n` more bytes of the chunk are written; a write fails if the destination is
closed. -/
def write (s : RelaySession) (dst : Side) (n : Nat) : Option RelaySession :=
  match s.pipe dst with
  | .writing chunk =>
      if s.closed dst = true then some (s.goto dst .copied)
      else if 0 < n ∧ n ≤ chunk.length then
        some { s.goto dst (if n = chunk.length then .reading else .writing (chunk.drop n)) with
          delivered := Function.update s.delivered dst (s.delivered dst ++ chunk.take n) }
      else none
  | _ => none

/-- `dst.Close()`. -/
def close (s : RelaySession) (dst : Side) : Option RelaySession :=
  if s.pipe dst = .copied then
    some { s.goto dst .done with closed := Function.update s.closed dst true }
  else none

/-- What the pipe to `dst` does next. -/
inductive Action where
  | read (dst : Side) (n : Nat)
  | readEnd (dst : Side)
  | write (dst : Side) (n : Nat)
  | close (dst : Side)

/-- One step of the session. -/
def step (s : RelaySession) : Action → Option RelaySession
  | .read dst n => s.read dst n
  | .readEnd dst => s.readEnd dst
  | .write dst n => s.write dst n
  | .close dst => s.close dst

/-- Everything that a step can do. -/
inductive Steps (s : RelaySession) : Action → RelaySession → Prop where
  | read {dst : Side} {n : Nat} (hpipe : s.pipe dst = .reading)
      (hopen : s.closed dst.other = false) :
      Steps s (.read dst n) { s.goto dst (.writing ((s.unread dst.other).take n)) with
        unread := Function.update s.unread dst.other ((s.unread dst.other).drop n) }
  | readEnd {dst : Side} (hpipe : s.pipe dst = .reading)
      (hend : s.closed dst.other = true ∨ s.unread dst.other = []) :
      Steps s (.readEnd dst) (s.goto dst .copied)
  | writeFails {dst : Side} {n : Nat} {chunk : List UInt8} (hpipe : s.pipe dst = .writing chunk)
      (hclosed : s.closed dst = true) : Steps s (.write dst n) (s.goto dst .copied)
  | write {dst : Side} {n : Nat} {chunk : List UInt8} {pipe : Pipe}
      (hpipe : s.pipe dst = .writing chunk) (hrest : pipe.chunk = chunk.drop n)
      (hgoes : pipe ≠ .copied ∧ pipe ≠ .done) :
      Steps s (.write dst n) { s.goto dst pipe with
        delivered := Function.update s.delivered dst (s.delivered dst ++ chunk.take n) }
  | close {dst : Side} (hpipe : s.pipe dst = .copied) :
      Steps s (.close dst) { s.goto dst .done with closed := Function.update s.closed dst true }

theorem steps_of_step {s s' : RelaySession} {a : Action} (h : step s a = some s') :
    Steps s a s' := by
  cases a with
  | read dst n =>
      obtain ⟨⟨hpipe, hopen, -⟩, ht⟩ := Option.ite_none_right_eq_some.mp h
      exact Option.some.inj ht ▸ .read hpipe hopen
  | readEnd dst =>
      obtain ⟨⟨hpipe, hend⟩, ht⟩ := Option.ite_none_right_eq_some.mp h
      exact Option.some.inj ht ▸ .readEnd hpipe hend
  | write dst n =>
      simp only [step, write] at h
      split at h
      next chunk hpipe =>
        split_ifs at h with hclosed hn hlen
        · exact Option.some.inj h ▸ .writeFails hpipe hclosed
        · exact Option.some.inj h ▸ .write hpipe (by simp [Pipe.chunk, hlen]) (by simp)
        · exact Option.some.inj h ▸ .write hpipe rfl (by simp)
      next => cases h
  | close dst =>
      obtain ⟨hpipe, ht⟩ := Option.ite_none_right_eq_some.mp h
      exact Option.some.inj ht ▸ .close hpipe

/-! ## No byte gets lost in a pipe -/

/-- What is delivered, what a pipe holds and what it has not read make up what
the source sends; a pipe that has ended has read everything, or has found its
source closed. -/
structure FlowAt (sent : Side → List UInt8) (s : RelaySession) (d : Side) : Prop where
  flow : s.delivered d ++ (s.pipe d).chunk ++ s.unread d.other = sent d.other
  closed : s.closed d = true ↔ s.pipe d = .done
  ended : s.pipe d = .copied ∨ s.pipe d = .done →
    s.closed d.other = true ∨ s.unread d.other = []

/-- **The flow invariant**, of both pipes. -/
def Flow (sent : Side → List UInt8) (s : RelaySession) : Prop := ∀ d, FlowAt sent s d

theorem flow_start (sent : Side → List UInt8) : Flow sent (start sent) :=
  fun d => ⟨rfl, by simp [start], by simp [start]⟩

section Steps

variable {sent : Side → List UInt8} {s t : RelaySession} {a : Action}

theorem Flow.of_sides (dst : Side) (h : FlowAt sent s dst) (h' : FlowAt sent s dst.other) :
    Flow sent s := by
  intro d
  rcases dst.eq_or_eq_other d with rfl | rfl
  · exact h
  · exact h'

theorem Flow.steps (hs : Flow sent s) (h : Steps s a t) : Flow sent t := by
  cases h with
  | @read dst n hpipe hopen =>
      have hmine := hs dst
      have hother := hs dst.other
      refine Flow.of_sides dst ⟨?_, ?_, ?_⟩ ⟨?_, ?_, ?_⟩
      · simpa [goto, hpipe, Pipe.chunk] using hmine.flow
      · simpa [goto, hpipe] using hmine.closed
      · simp [goto]
      · simpa [goto] using hother.flow
      · simpa [goto] using hother.closed
      · simpa [goto] using hother.ended
  | @readEnd dst hpipe hend =>
      have hmine := hs dst
      have hother := hs dst.other
      refine Flow.of_sides dst ⟨?_, ?_, fun _ => hend⟩ ⟨?_, ?_, ?_⟩
      · simpa [goto, hpipe, Pipe.chunk] using hmine.flow
      · simpa [goto, hpipe] using hmine.closed
      · simpa [goto] using hother.flow
      · simpa [goto] using hother.closed
      · simpa [goto] using hother.ended
  | @writeFails dst n chunk hpipe hclosed =>
      -- only this pipe closes its destination
      rw [(hs dst).closed.mp hclosed] at hpipe
      cases hpipe
  | @write dst n chunk pipe hpipe hrest hgoes =>
      have hmine := hs dst
      have hother := hs dst.other
      refine Flow.of_sides dst ⟨?_, ?_, ?_⟩ ⟨?_, ?_, ?_⟩
      · rw [← hmine.flow, hpipe, (show (Pipe.writing chunk).chunk = chunk from rfl)]
        simp only [goto, Function.update_self, hrest]
        rw [List.append_assoc (s.delivered dst), List.take_append_drop]
      · simpa [goto, hpipe, hgoes.2] using hmine.closed
      · simp [goto, hgoes]
      · simpa [goto] using hother.flow
      · simpa [goto] using hother.closed
      · simpa [goto] using hother.ended
  | @close dst hpipe =>
      have hmine := hs dst
      have hother := hs dst.other
      refine Flow.of_sides dst ⟨?_, ?_, fun _ => ?_⟩ ⟨?_, ?_, fun _ => ?_⟩
      · simpa [goto, hpipe, Pipe.chunk] using hmine.flow
      · simp [goto]
      · simpa [goto] using hmine.ended (.inl hpipe)
      · simpa [goto] using hother.flow
      · simpa [goto] using hother.closed
      · simp

end Steps

/-! ## What the endpoints get -/

/-- A destination is closed only when everything that it sends has been read. -/
def ReadBeforeClose (s : RelaySession) : Action → Prop
  | .close dst => s.unread dst = []
  | _ => True

instance decidableReadBeforeClose (s : RelaySession) : ∀ a, Decidable (ReadBeforeClose s a)
  | .close dst => inferInstanceAs (Decidable (s.unread dst = []))
  | .read _ _ | .readEnd _ | .write _ _ => inferInstanceAs (Decidable True)

/-- Nothing is left to read from a connection that is closed. -/
def ClosedRead (s : RelaySession) : Prop := ∀ d, s.closed d = true → s.unread d = []

theorem closedRead_steps {sent : Side → List UInt8} {s t : RelaySession} {a : Action}
    (hs : Flow sent s) (h : Steps s a t) : ClosedRead t ↔ ClosedRead s ∧ ReadBeforeClose s a := by
  cases h with
  | @read dst n hpipe hopen =>
      refine Iff.trans (forall_congr' fun d => ?_) (and_iff_left trivial).symm
      rcases dst.eq_or_eq_other d with rfl | rfl
      · simp [goto]
      · simp [goto, hopen]
  | readEnd | writeFails | write => exact (and_iff_left trivial).symm
  | @close dst hpipe =>
      have hopen : s.closed dst ≠ true := by
        rw [Ne, (hs dst).closed, hpipe]
        simp
      constructor
      · intro ht
        refine ⟨fun d hd => ?_, ht dst (by simp)⟩
        rcases dst.eq_or_eq_other d with rfl | rfl
        · exact absurd hd hopen
        · exact ht dst.other (by simpa using hd)
      · rintro ⟨hclosed, hread⟩ d hd
        rcases dst.eq_or_eq_other d with rfl | rfl
        · exact hread
        · exact hclosed dst.other (by simpa using hd)

/-- Whoever is closed has got everything that the other one sent. -/
def AllDelivered (sent : Side → List UInt8) (s : RelaySession) : Prop :=
  ∀ d, s.closed d = true → s.delivered d = sent d.other

/-- `relay` has returned. -/
def Returned (s : RelaySession) : Prop := ∀ d, s.pipe d = .done

theorem Flow.allDelivered {sent : Side → List UInt8} {s : RelaySession} (hs : Flow sent s)
    (hread : ClosedRead s) : AllDelivered sent s := by
  intro d hd
  have hdone := (hs d).closed.mp hd
  have hnone : s.unread d.other = [] := by
    rcases (hs d).ended (.inr hdone) with hclosed | hnone
    · exact hread _ hclosed
    · exact hnone
  have hflow := (hs d).flow
  rw [hdone, hnone] at hflow
  simpa [Pipe.chunk] using hflow

theorem Flow.closedRead {sent : Side → List UInt8} {s : RelaySession} (hs : Flow sent s)
    (hret : Returned s) (hall : AllDelivered sent s) : ClosedRead s := by
  intro d hd
  have hflow := (hs d.other).flow
  rw [hall d.other ((hs _).closed.mpr (hret _)), hret d.other] at hflow
  simpa [Pipe.chunk] using hflow

/-- **What the TCP relay delivers.** At every moment each endpoint has got a
prefix of what the other one sent. If no connection is closed before everything
that it sends has been read, whoever is closed has got all of it; and once the
relay has returned, that happened if and only if the condition was met. -/
theorem delivers_iff (sent : Side → List UInt8) (as : List Action) (s : RelaySession)
    (hrun : Runs.run step (start sent) as = some s) :
    (∀ d, s.delivered d <+: sent d.other) ∧
      (Runs.Meets step ReadBeforeClose (start sent) as → AllDelivered sent s) ∧
      (Returned s → (AllDelivered sent s ↔ Runs.Meets step ReadBeforeClose (start sent) as)) := by
  have hs : Flow sent s := (Runs.reach_of_run as hrun).invariant (flow_start sent)
    fun _ _ _ hu hstep => hu.steps (steps_of_step hstep)
  have hiff : ClosedRead s ↔
      ClosedRead (start sent) ∧ Runs.Meets step ReadBeforeClose (start sent) as := by
    apply Runs.good_iff_meets hrun (flow_start sent)
    intro a _ u v hu hstep
    exact ⟨hu.steps (steps_of_step hstep), closedRead_steps hu (steps_of_step hstep)⟩
  rw [and_iff_right (show ClosedRead (start sent) by simp [ClosedRead, start])] at hiff
  refine ⟨fun d => ?_, fun hmeets => hs.allDelivered (hiff.mpr hmeets), fun hret => ?_⟩
  · rw [← (hs d).flow, List.append_assoc]
    exact List.prefix_append _ _
  · exact ⟨fun hall => hiff.mp (hs.closedRead hret hall), fun hmeets =>
      hs.allDelivered (hiff.mpr hmeets)⟩

/-- The two endpoints send one byte each. -/
def oneByteEach : Side → List UInt8
  | .a => [1]
  | .b => [2]

def oneByteRun : List Action :=
  [.read .a 1, .read .b 1, .write .b 1, .write .a 1, .readEnd .a, .close .a,
    .readEnd .b, .close .b]

theorem delivers_iff_oneByteEach :
    ∃ s, Runs.run step (start oneByteEach) oneByteRun = some s ∧ Returned s ∧
      s.delivered .b = [1] ∧ AllDelivered oneByteEach s := by
  refine ⟨_, rfl, ?_, by decide, (delivers_iff oneByteEach oneByteRun _ rfl).2.1 (by decide)⟩
  intro d
  cases d <;> decide

/-- One endpoint ends its sending side at once; the relay closes the other one
before it has read the byte that this one sends. -/
theorem not_delivers_halfClosed :
    ¬ ∀ (sent : Side → List UInt8) (as : List Action) (s : RelaySession),
      Runs.run step (start sent) as = some s → AllDelivered sent s := by
  intro h
  have hall := h (fun | .a => [] | .b => [2]) [.readEnd .b, .close .b, .readEnd .a, .close .a] _
    rfl .a (by decide)
  exact absurd hall (by decide)

end RelaySession

end FastTransfer.Server
