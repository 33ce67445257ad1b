import Mathlib.Data.List.Basic

/-!
# Frames on a byte stream

A decoder looks at what has arrived of a stream so far. It finds a value and
what follows it, or needs more, or fails. `Reads decode a frame` says that it
finds `a` in `frame` however the stream is cut: not before the last element of
the frame is there, and then leaving just what follows.

A `Reader` is a decoder as a program that asks for exact numbers of elements.
It may run on a stream that comes in pieces, and reads the same from any pieces
of the same stream.
-/

namespace Framing

variable {α β : Type*}

/-- What a decoder finds in what has arrived. -/
inductive Decoded (α β : Type*) where
  | ok (a : α) (rest : List β)
  /-- The stream may go on to a value. -/
  | short
  | failed
  deriving DecidableEq

/-- `decode` finds `a` in `frame`, however the stream is cut. -/
structure Reads (decode : List β → Decoded α β) (a : α) (frame : List β) : Prop where
  whole : ∀ rest, decode (frame ++ rest) = .ok a rest
  part : ∀ s, s <+: frame → s.length < frame.length → decode s = .short

/-- A frame at the front of a stream of which `s` has arrived and `more` has not. -/
theorem Reads.split {decode : List β → Decoded α β} {a : α} {frame rest s more : List β}
    (h : Reads decode a frame) (hs : s ++ more = frame ++ rest) :
    (decode s = .short ∧ s.length < frame.length) ∨
      ∃ s', decode s = .ok a s' ∧ s' ++ more = rest := by
  rcases List.append_eq_append_iff.mp hs with ⟨l, rfl, rfl⟩ | ⟨l, rfl, rfl⟩
  · cases l with
    | nil =>
        refine .inr ⟨[], ?_, by simp⟩
        simpa using h.whole []
    | cons x l =>
        have hlt : s.length < (s ++ x :: l).length := by simp
        exact .inl ⟨h.part s (List.prefix_append _ _) hlt, hlt⟩
  · exact .inr ⟨l, h.whole l, rfl⟩

/-! ## Programs that read -/

/-- A program that asks for `n` elements and goes on with them, to a value or a failure. -/
inductive Reader (α β : Type*) where
  | ok (a : α)
  | failed
  | exact (n : Nat) (next : List β → Reader α β)

namespace Reader

variable {γ : Type*}

/-- The program on what has arrived of a stream. -/
def onStream : Reader α β → List β → Decoded α β
  | .ok a, s => .ok a s
  | .failed, _ => .failed
  | .exact n next, s => if n ≤ s.length then (next (s.take n)).onStream (s.drop n) else .short

/-- Collect `n` elements; a read takes what is there of one piece, at most. -/
def gather (n : Nat) : List (List β) → Option (List β × List (List β))
  | [] => if n = 0 then some ([], []) else none
  | piece :: pieces =>
      if n ≤ piece.length then some (piece.take n, piece.drop n :: pieces)
      else (gather (n - piece.length) pieces).map fun x => (piece ++ x.1, x.2)

/-- The program on a stream in pieces. -/
def onPieces : Reader α β → List (List β) → Decoded α (List β)
  | .ok a, pieces => .ok a pieces
  | .failed, _ => .failed
  | .exact n next, pieces =>
      match gather n pieces with
      | some (xs, pieces) => (next xs).onPieces pieces
      | none => .short

/-- One program after the other. -/
def bind : Reader α β → (α → Reader γ β) → Reader γ β
  | .ok a, f => f a
  | .failed, _ => .failed
  | .exact n next, f => .exact n fun xs => (next xs).bind f

theorem gather_of_le {n : Nat} {pieces : List (List β)} (hn : n ≤ pieces.flatten.length) :
    ∃ rest, gather n pieces = some (pieces.flatten.take n, rest) ∧
      rest.flatten = pieces.flatten.drop n := by
  induction pieces generalizing n with
  | nil =>
      obtain rfl : n = 0 := Nat.le_zero.mp hn
      exact ⟨[], rfl, rfl⟩
  | cons piece pieces ih =>
      rw [List.flatten_cons, List.length_append] at hn
      rw [gather, List.flatten_cons]
      by_cases hpiece : n ≤ piece.length
      · rw [if_pos hpiece, List.take_append_of_le_length hpiece,
          List.drop_append_of_le_length hpiece]
        exact ⟨_, rfl, rfl⟩
      · have hlt : piece.length ≤ n := Nat.le_of_not_le hpiece
        obtain ⟨rest, hgather, hrest⟩ := ih (n := n - piece.length) (by omega)
        rw [if_neg hpiece, hgather, List.take_append, List.drop_append, List.take_of_length_le hlt,
          List.drop_of_length_le hlt]
        exact ⟨rest, rfl, hrest⟩

theorem gather_of_lt {n : Nat} {pieces : List (List β)} (hn : pieces.flatten.length < n) :
    gather n pieces = none := by
  induction pieces generalizing n with
  | nil => exact if_neg (Nat.ne_of_gt hn)
  | cons piece pieces ih =>
      rw [List.flatten_cons, List.length_append] at hn
      rw [gather, if_neg (show ¬ n ≤ piece.length by omega), ih (by omega)]
      rfl

end Reader

/-- What is left, without its cuts. -/
def Decoded.flatten : Decoded α (List β) → Decoded α β
  | .ok a pieces => .ok a pieces.flatten
  | .short => .short
  | .failed => .failed

namespace Reader

variable {γ : Type*}

/-- **The cuts do not matter**: a program reads from pieces what it reads from
the whole stream. -/
theorem flatten_onPieces (r : Reader α β) (pieces : List (List β)) :
    (r.onPieces pieces).flatten = r.onStream pieces.flatten := by
  induction r generalizing pieces with
  | ok a => rfl
  | failed => rfl
  | exact n next ih =>
      rw [onPieces, onStream]
      by_cases hn : n ≤ pieces.flatten.length
      · obtain ⟨rest, hgather, hrest⟩ := gather_of_le hn
        rw [if_pos hn, hgather, ← hrest]
        exact ih _ rest
      · rw [if_neg hn, gather_of_lt (Nat.lt_of_not_le hn)]
        rfl

section Exact

variable {n : Nat} {next : List β → Reader α β} {s : List β}

theorem onStream_exact_of_le (h : n ≤ s.length) :
    (exact n next).onStream s = (next (s.take n)).onStream (s.drop n) := if_pos h

theorem onStream_exact_of_lt (h : s.length < n) : (exact n next).onStream s = .short :=
  if_neg (Nat.not_le_of_lt h)

theorem onStream_exact_append {xs : List β} (h : xs.length = n) (rest : List β) :
    (exact n next).onStream (xs ++ rest) = (next xs).onStream rest := by
  have hle : n ≤ (xs ++ rest).length := by
    rw [List.length_append]
    omega
  rw [onStream_exact_of_le hle, List.take_left' h, List.drop_left' h]

/-- A program that has found a value has had what it asked for first. -/
theorem onStream_exact_eq_ok {a : α} {rest : List β}
    (h : (exact n next).onStream s = .ok a rest) :
    ∃ xs t, s = xs ++ t ∧ xs.length = n ∧ (next xs).onStream t = .ok a rest := by
  rw [onStream] at h
  split_ifs at h with hn
  exact ⟨s.take n, s.drop n, (List.take_append_drop n s).symm, List.length_take_of_le hn, h⟩

end Exact

/-- What follows a value is an end of the stream. -/
theorem suffix_of_onStream (r : Reader α β) {a : α} {s rest : List β}
    (h : r.onStream s = .ok a rest) : rest <:+ s := by
  induction r generalizing s with
  | ok b =>
      obtain ⟨-, rfl⟩ := Decoded.ok.inj h
      exact List.suffix_refl s
  | failed => cases h
  | exact n next ih =>
      obtain ⟨xs, t, rfl, -, hnext⟩ := onStream_exact_eq_ok h
      exact (ih xs hnext).trans (List.suffix_append xs t)

theorem onStream_bind (r : Reader α β) (f : α → Reader γ β) (s : List β) :
    (r.bind f).onStream s =
      match r.onStream s with
      | .ok a rest => (f a).onStream rest
      | .short => .short
      | .failed => .failed := by
  induction r generalizing s with
  | ok a => rfl
  | failed => rfl
  | exact n next ih =>
      rw [bind, onStream, onStream]
      split_ifs with hn
      · exact ih (s.take n) (s.drop n)
      · rfl

end Reader

/-- A program that ends without reading. -/
theorem reads_ok (a : α) : Reads (β := β) (Reader.ok a).onStream a [] where
  whole _ := rfl
  part _ _ hlt := absurd hlt (Nat.not_lt_zero _)

/-- **The rule of reads**: what a program asks for first is the front of its frame. -/
theorem Reads.exact {n : Nat} {next : List β → Reader α β} {a : α} {xs frame : List β}
    (h : Reads (next xs).onStream a frame) (hn : xs.length = n) :
    Reads (Reader.exact n next).onStream a (xs ++ frame) where
  whole rest := by
    rw [List.append_assoc, Reader.onStream_exact_append hn]
    exact h.whole rest
  part s hs hlt := by
    rw [List.length_append] at hlt
    by_cases hle : n ≤ s.length
    · -- `xs` is there, and a part of the rest
      obtain ⟨t, rfl⟩ := List.prefix_of_prefix_length_le (List.prefix_append xs frame) hs (hn ▸ hle)
      rw [Reader.onStream_exact_append hn]
      rw [List.length_append] at hlt
      exact h.part t ((List.prefix_append_right_inj xs).mp hs) (by omega)
    · exact Reader.onStream_exact_of_lt (Nat.lt_of_not_le hle)

/-- **The rule of sequences**: one frame after the other is read by one program
after the other. -/
theorem Reads.bind {γ : Type*} {r : Reader α β} {f : α → Reader γ β} {a : α} {c : γ}
    {frame frame' : List β} (h : Reads r.onStream a frame) (h' : Reads (f a).onStream c frame') :
    Reads (r.bind f).onStream c (frame ++ frame') where
  whole rest := by
    rw [Reader.onStream_bind, List.append_assoc, h.whole]
    exact h'.whole rest
  part s hs hlt := by
    obtain ⟨more, hmore⟩ := hs
    rw [Reader.onStream_bind]
    rcases h.split hmore with ⟨hshort, -⟩ | ⟨s', hok, hrest⟩
    · rw [hshort]
    · rw [hok]
      apply h'.part s' ⟨more, hrest⟩
      have hlen := congrArg List.length hmore
      have hlen' := congrArg List.length hrest
      simp only [List.length_append] at hlen hlen' hlt
      omega

/-- A frame that comes in pieces. -/
theorem Reads.onPieces {r : Reader α β} {a : α} {frame : List β} (h : Reads r.onStream a frame)
    {pieces : List (List β)} (hpieces : pieces.flatten = frame) :
    ∃ rest, r.onPieces pieces = .ok a rest ∧ rest.flatten = [] := by
  have hflatten := r.flatten_onPieces pieces
  have hwhole := h.whole []
  rw [List.append_nil] at hwhole
  rw [hpieces, hwhole] at hflatten
  cases hread : r.onPieces pieces with
  | ok b rest =>
      rw [hread] at hflatten
      obtain ⟨rfl, hrest⟩ := Decoded.ok.inj hflatten
      exact ⟨rest, rfl, hrest⟩
  | short | failed =>
      rw [hread] at hflatten
      cases hflatten

/-- A frame that breaks off. -/
theorem Reads.onPieces_short {r : Reader α β} {a : α} {frame : List β}
    (h : Reads r.onStream a frame) {pieces : List (List β)} (hpieces : pieces.flatten <+: frame)
    (hne : pieces.flatten ≠ frame) : r.onPieces pieces = .short := by
  have hflatten := r.flatten_onPieces pieces
  have hlt : pieces.flatten.length < frame.length :=
    Nat.lt_of_le_of_ne hpieces.length_le fun heq => hne (hpieces.eq_of_length heq)
  rw [h.part _ hpieces hlt] at hflatten
  cases hread : r.onPieces pieces with
  | short => rfl
  | ok b rest | failed =>
      rw [hread] at hflatten
      cases hflatten

end Framing
