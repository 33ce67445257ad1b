import Mathlib.Tactic.SplitIfs
import FastTransfer.Web.Chunks

/-!
# The loop of the WebSocket relay

`wsRelay` of `internal/handlers/relay_ws.go`. The source connection is the
list of the messages that `NextReader` finds on it, each with what its reader
returns; when the list is at its end, `NextReader` fails. The destination
connection carries out a number of operations and fails at every one after
that. Of `gorilla/websocket` this uses: a reader yields the bytes of one
message, a failure in the middle of it is an error of the copy, and closing a
message writer ends the message with the bytes written so far.
-/

namespace FastTransfer.Server

open Web (Bytes)

/-- The type of a WebSocket message. -/
inductive MessageType where
  | text
  | binary
  deriving DecidableEq

/-- A WebSocket message. -/
@[ext]
structure Message where
  type : MessageType
  bytes : Bytes
  deriving DecidableEq

/-- A message of the source connection as the relay reads it: in pieces, and
to its end or up to a failure (which may be the read limit). -/
structure Reading where
  message : Message
  reads : List Bytes
  failed : Bool := false
  reads_prefix : reads.flatten <+: message.bytes
  reads_all : failed = false → reads.flatten = message.bytes

/-- The connection that a relay loop writes to. -/
structure Destination where
  /-- How many operations still succeed; `none` when all of them do. -/
  opsLeft : Option Nat
  /-- The message that has been begun and not closed. -/
  writer : Option Message := none
  /-- The messages that the peer has got whole. -/
  delivered : List Message := []
  deriving DecidableEq

namespace Destination

/-- One operation on the connection, `none` when it fails. -/
def spend (dst : Destination) : Option Destination :=
  match dst.opsLeft with
  | none => some dst
  | some 0 => none
  | some (n + 1) => some { dst with opsLeft := some n }

/-- `dst.NextWriter(msgType)`. -/
def nextWriter (dst : Destination) (msgType : MessageType) : Option Destination :=
  dst.spend.map fun dst => { dst with writer := some ⟨msgType, []⟩ }

/-- `writer.Write(p)`. -/
def write (dst : Destination) (p : Bytes) : Option Destination :=
  dst.spend.map fun dst =>
    { dst with writer := dst.writer.map fun m => { m with bytes := m.bytes ++ p } }

/-- `writer.Close()`. -/
def close (dst : Destination) : Option Destination :=
  dst.spend.map fun dst =>
    { dst with writer := none, delivered := dst.delivered ++ dst.writer.toList }

end Destination

/-- `io.CopyBuffer`: whether it returned without an error, and the destination
afterwards. -/
def copyBuffer (writer : Destination) (reads : List Bytes) (failed : Bool) :
    Bool × Destination :=
  match reads with
  | [] => (!failed, writer)
  | p :: reads =>
      match writer.write p with
      | none => (false, writer)
      | some writer => copyBuffer writer reads failed

/-- `wsRelay`, on all that `src` will be read: it ends at the first error. -/
def wsRelay (src : List Reading) (dst : Destination) : Destination :=
  match src with
  | [] => dst
  | reader :: src =>
      match dst.nextWriter reader.message.type with
      | none => dst
      | some writer =>
          match copyBuffer writer reader.reads reader.failed with
          | (false, writer) => writer.close.getD writer
          | (true, writer) =>
              match writer.close with
              | none => writer
              | some dst => wsRelay src dst

/-! ## Operations -/

/-- The destination carries out `k` more operations. -/
def Allows (opsLeft : Option Nat) (k : Nat) : Prop := ∀ n ∈ opsLeft, k ≤ n

instance decidableAllows (opsLeft : Option Nat) (k : Nat) : Decidable (Allows opsLeft k) :=
  match opsLeft with
  | none => isTrue (by simp [Allows])
  | some n => decidable_of_iff (k ≤ n) (by simp [Allows])

theorem allows_zero (opsLeft : Option Nat) : Allows opsLeft 0 := fun _ _ => Nat.zero_le _

theorem allows_add {opsLeft : Option Nat} {k l : Nat} :
    Allows opsLeft (k + l) ↔ Allows opsLeft k ∧ Allows (opsLeft.map (· - k)) l := by
  cases opsLeft with
  | none => simp [Allows]
  | some n =>
      simp only [Allows, Option.mem_def, Option.some.injEq, Option.map_some, forall_eq']
      omega

theorem map_sub_add (opsLeft : Option Nat) (k l : Nat) :
    opsLeft.map (· - (k + l)) = (opsLeft.map (· - k)).map (· - l) := by
  cases opsLeft with
  | none => rfl
  | some n => simp [Nat.sub_add_eq]

namespace Destination

theorem spend_of_allows {dst : Destination} (h : Allows dst.opsLeft 1) :
    dst.spend = some { dst with opsLeft := dst.opsLeft.map (· - 1) } := by
  obtain ⟨opsLeft, writer, delivered⟩ := dst
  match opsLeft with
  | none => rfl
  | some 0 => exact absurd (h 0 rfl) (by simp)
  | some (n + 1) => rfl

theorem spend_eq_none {dst : Destination} (h : ¬ Allows dst.opsLeft 1) : dst.spend = none := by
  obtain ⟨opsLeft, writer, delivered⟩ := dst
  match opsLeft with
  | none => exact absurd (by simp [Allows]) h
  | some 0 => rfl
  | some (n + 1) => exact absurd (by simp [Allows]) h

theorem nextWriter_of_allows {dst : Destination} (h : Allows dst.opsLeft 1) (t : MessageType) :
    dst.nextWriter t =
      some { dst with opsLeft := dst.opsLeft.map (· - 1), writer := some ⟨t, []⟩ } := by
  rw [nextWriter, spend_of_allows h]
  rfl

theorem close_of_allows {dst : Destination} (h : Allows dst.opsLeft 1) :
    dst.close = some { dst with
      opsLeft := dst.opsLeft.map (· - 1)
      writer := none
      delivered := dst.delivered ++ dst.writer.toList } := by
  rw [close, spend_of_allows h]
  rfl

theorem close_eq_none {dst : Destination} (h : ¬ Allows dst.opsLeft 1) : dst.close = none := by
  rw [close, spend_eq_none h]
  rfl

end Destination

/-- The copy of a message that the destination takes in full. -/
theorem copyBuffer_of_allows {reads : List Bytes} {writer : Destination} {m : Message}
    (hm : writer.writer = some m) (h : Allows writer.opsLeft reads.length) (failed : Bool) :
    copyBuffer writer reads failed = (!failed, { writer with
      opsLeft := writer.opsLeft.map (· - reads.length)
      writer := some { m with bytes := m.bytes ++ reads.flatten } }) := by
  induction reads generalizing writer m with
  | nil =>
      obtain ⟨opsLeft, w, delivered⟩ := writer
      obtain rfl : w = some m := hm
      cases opsLeft <;> simp [copyBuffer]
  | cons p reads ih =>
      rw [List.length_cons, Nat.add_comm, allows_add] at h
      have hwrite : writer.write p = some { writer with
          opsLeft := writer.opsLeft.map (· - 1)
          writer := some { m with bytes := m.bytes ++ p } } := by
        rw [Destination.write, Destination.spend_of_allows h.1]
        simp [hm]
      rw [copyBuffer, hwrite]
      simp only
      rw [ih rfl h.2, List.length_cons, Nat.add_comm reads.length, map_sub_add, List.flatten_cons,
        List.append_assoc]

/-- A destination that fails during the copy has failed for good. -/
theorem copyBuffer_of_not_allows {reads : List Bytes} (writer : Destination)
    (h : ¬ Allows writer.opsLeft reads.length) (failed : Bool) :
    ∃ dst, copyBuffer writer reads failed = (false, dst) ∧ ¬ Allows dst.opsLeft 1 ∧
      dst.delivered = writer.delivered := by
  induction reads generalizing writer with
  | nil => exact absurd (allows_zero _) h
  | cons p reads ih =>
      rw [List.length_cons, Nat.add_comm, allows_add, not_and] at h
      rw [copyBuffer]
      by_cases h1 : Allows writer.opsLeft 1
      · rw [Destination.write, Destination.spend_of_allows h1]
        exact ih _ (h h1)
      · rw [Destination.write, Destination.spend_eq_none h1]
        exact ⟨writer, rfl, h1, rfl⟩

/-! ## One turn of the loop -/

/-- The operations of a turn: `NextWriter`, a write for each read, `Close`. -/
def Reading.ops (m : Reading) : Nat := 1 + m.reads.length + 1

section Turn

variable {m : Reading} {dst : Destination}

/-- What is left of the destination when it has taken a whole turn. -/
def Destination.took (dst : Destination) (m : Reading) : Destination where
  opsLeft := dst.opsLeft.map (· - m.ops)
  delivered := dst.delivered ++ [⟨m.message.type, m.reads.flatten⟩]

/-- The destination fails within the turn, and for good. -/
theorem wsRelay_fails (h : ¬ Allows dst.opsLeft m.ops) (src : List Reading) :
    (wsRelay (m :: src) dst).delivered = dst.delivered ∧
      ¬ Allows (wsRelay (m :: src) dst).opsLeft 1 := by
  rw [Reading.ops, allows_add, allows_add, not_and] at h
  rw [wsRelay]
  by_cases h1 : Allows dst.opsLeft 1
  · rw [Destination.nextWriter_of_allows h1]
    simp only
    by_cases h2 : Allows (dst.opsLeft.map (· - 1)) m.reads.length
    · rw [copyBuffer_of_allows rfl h2]
      have h3 := h ⟨h1, h2⟩
      rw [map_sub_add] at h3
      have hclose : ({ dst with
          opsLeft := (dst.opsLeft.map (· - 1)).map (· - m.reads.length)
          writer := some ⟨m.message.type, [] ++ m.reads.flatten⟩ } : Destination).close = none :=
        Destination.close_eq_none h3
      cases m.failed with
      | true =>
          show (Option.getD (Destination.close _) _).delivered = _ ∧
            ¬ Allows (Option.getD (Destination.close _) _).opsLeft 1
          rw [hclose]
          exact ⟨rfl, h3⟩
      | false =>
          simp only [Bool.not_false, hclose, true_and]
          exact h3
    · obtain ⟨writer, hcopy, h3, hdelivered⟩ := copyBuffer_of_not_allows
        { dst with opsLeft := dst.opsLeft.map (· - 1), writer := some ⟨m.message.type, []⟩ }
        h2 m.failed
      simp only [hcopy, Destination.close_eq_none h3]
      exact ⟨hdelivered, h3⟩
  · rw [Destination.nextWriter, Destination.spend_eq_none h1]
    exact ⟨rfl, h1⟩

/-- The destination fails within the turn: nothing is delivered, and the loop ends. -/
theorem wsRelay_of_fails (h : ¬ Allows dst.opsLeft m.ops) (src : List Reading) :
    (wsRelay (m :: src) dst).delivered = dst.delivered := (wsRelay_fails h src).1

theorem wsRelay_of_allows (h : Allows dst.opsLeft m.ops) (src : List Reading) :
    wsRelay (m :: src) dst = if m.failed then dst.took m else wsRelay src (dst.took m) := by
  rw [Reading.ops, allows_add, allows_add] at h
  obtain ⟨⟨h1, h2⟩, h3⟩ := h
  rw [map_sub_add] at h3
  rw [wsRelay, Destination.nextWriter_of_allows h1]
  simp only
  rw [copyBuffer_of_allows rfl h2]
  have hclose : ({ dst with
      opsLeft := (dst.opsLeft.map (· - 1)).map (· - m.reads.length)
      writer := some ⟨m.message.type, [] ++ m.reads.flatten⟩ } : Destination).close =
      some (dst.took m) := by
    rw [Destination.close_of_allows h3, Destination.took, Reading.ops, map_sub_add, map_sub_add]
    rfl
  cases m.failed with
  | true =>
      show (Destination.close _).getD _ = _
      rw [hclose]
      rfl
  | false =>
      simp only [Bool.not_false, hclose]
      rfl

end Turn

/-! ## What is forwarded -/

/-- What the source sends. -/
def messages (src : List Reading) : List Message := src.map (·.message)

/-- The first message whose reading fails is nevertheless read whole, or the
destination has failed by the time the relay closes it. -/
def NoCutDelivered (src : List Reading) (opsLeft : Option Nat) : Prop :=
  ∀ pre m post, src = pre ++ m :: post → (∀ r ∈ pre, r.failed = false) → m.failed = true →
    m.reads.flatten = m.message.bytes ∨ ¬ Allows opsLeft ((pre ++ [m]).map (·.ops)).sum

theorem noCutDelivered_nil (opsLeft : Option Nat) : NoCutDelivered [] opsLeft := by
  intro pre m post h
  simp at h

/-- A message that is read to its end does not matter, as long as the
destination takes it. -/
theorem noCutDelivered_cons {m : Reading} {src : List Reading} {opsLeft : Option Nat}
    (hm : m.failed = false) : NoCutDelivered (m :: src) opsLeft ↔
      (Allows opsLeft m.ops → NoCutDelivered src (opsLeft.map (· - m.ops))) := by
  constructor
  · rintro h hallows pre m' post rfl hpre hm'
    apply (h (m :: pre) m' post rfl (by simpa [hm] using hpre) hm').imp_right
    intro hnot hyes
    apply hnot
    rw [List.cons_append, List.map_cons, List.sum_cons, allows_add]
    exact ⟨hallows, hyes⟩
  · intro h pre m' post heq hpre hm'
    cases pre with
    | nil =>
        obtain ⟨rfl, -⟩ := List.cons.inj heq
        exact absurd (hm.symm.trans hm') (by decide)
    | cons r pre =>
        obtain ⟨rfl, rfl⟩ := List.cons.inj heq
        by_cases hallows : Allows opsLeft m.ops
        · refine (h hallows pre m' post rfl (fun r hr => hpre r (List.mem_cons_of_mem _ hr))
            hm').imp_right fun hnot hyes => hnot ?_
          rw [List.cons_append, List.map_cons, List.sum_cons, allows_add] at hyes
          exact hyes.2
        · refine .inr fun hyes => hallows ?_
          rw [List.cons_append, List.map_cons, List.sum_cons, allows_add] at hyes
          exact hyes.1

theorem noCutDelivered_failed {m : Reading} {src : List Reading} {opsLeft : Option Nat}
    (hm : m.failed = true) : NoCutDelivered (m :: src) opsLeft ↔
      m.reads.flatten = m.message.bytes ∨ ¬ Allows opsLeft m.ops := by
  constructor
  · intro h
    simpa using h [] m src rfl (by simp) hm
  · intro h pre m' post heq hpre hm'
    cases pre with
    | nil =>
        obtain ⟨rfl, -⟩ := List.cons.inj heq
        simpa using h
    | cons r pre =>
        obtain ⟨rfl, -⟩ := List.cons.inj heq
        exact absurd ((hpre m List.mem_cons_self).symm.trans hm) (by decide)

/-- **Whole messages**: the peer gets a prefix of what the source sends exactly
when no message that was cut short is closed on a living destination. -/
theorem forwards_prefix_iff (src : List Reading) (opsLeft : Option Nat) :
    (wsRelay src { opsLeft }).delivered <+: messages src ↔ NoCutDelivered src opsLeft := by
  -- with something delivered before
  have hfrom : ∀ (src : List Reading) (dst : Destination),
      (wsRelay src dst).delivered <+: dst.delivered ++ messages src ↔
        NoCutDelivered src dst.opsLeft := by
    intro src
    induction src with
    | nil =>
        intro dst
        simp [wsRelay, messages, noCutDelivered_nil]
    | cons m src ih =>
        intro dst
        by_cases hallows : Allows dst.opsLeft m.ops
        · rw [wsRelay_of_allows hallows]
          cases hm : m.failed with
          | true =>
              rw [noCutDelivered_failed hm, if_pos rfl, Destination.took,
                List.prefix_append_right_inj, messages, List.map_cons, List.cons_prefix_cons]
              simp [hallows, Message.ext_iff]
          | false =>
              have hread : (⟨m.message.type, m.reads.flatten⟩ : Message) = m.message := by
                rw [m.reads_all hm]
              have hih := ih (dst.took m)
              rw [Destination.took, hread, List.append_assoc] at hih
              rw [noCutDelivered_cons hm, if_neg (by decide), Destination.took, hread]
              simpa [hallows, messages] using hih
        · rw [wsRelay_of_fails hallows]
          cases hm : m.failed with
          | true => simp [noCutDelivered_failed hm, hallows]
          | false => simp [noCutDelivered_cons hm, hallows]
  exact hfrom src { opsLeft }

/-- Two bytes of a message of four, and then the source fails. -/
def cutReading : Reading where
  message := ⟨.binary, [0, 0, 0, 7]⟩
  reads := [[0, 0]]
  failed := true
  reads_prefix := ⟨[0, 7], rfl⟩
  reads_all := by decide

/-- The half message is closed, and so the peer gets it as a whole one. -/
theorem not_forwards_prefix_cut :
    ¬ ∀ (src : List Reading) (opsLeft : Option Nat),
      (wsRelay src { opsLeft }).delivered <+: messages src := by
  intro h
  have hprefix := (h [cutReading] none).eq_of_length (by decide)
  exact absurd hprefix (by decide)

end FastTransfer.Server
