import Mathlib.Tactic.Ring

/-!
# Fixed-width big-endian numbers

`toBytes w n` writes the low `w` bytes of `n`, most significant first: a
number that does not fit is reduced modulo `256 ^ w`, which is what a
truncating cast or a `setUint32` does. `toNat` reads any byte string back.
-/

namespace BigEndian

/-- The low `w` bytes of `n`, most significant first. -/
def toBytes : Nat → Nat → List UInt8
  | 0, _ => []
  | w + 1, n => UInt8.ofNat (n / 256 ^ w) :: toBytes w n

/-- The number that a byte string denotes, most significant byte first. -/
def toNat : List UInt8 → Nat
  | [] => 0
  | b :: bs => b.toNat * 256 ^ bs.length + toNat bs

@[simp] theorem length_toBytes (w n : Nat) : (toBytes w n).length = w := by
  induction w with
  | zero => rfl
  | succ w ih => simp [toBytes, ih]

theorem toNat_lt (l : List UInt8) : toNat l < 256 ^ l.length := by
  induction l with
  | nil => simp [toNat]
  | cons b bs ih =>
      have hb : b.toNat + 1 ≤ 256 := b.toNat_lt
      calc b.toNat * 256 ^ bs.length + toNat bs
          < b.toNat * 256 ^ bs.length + 256 ^ bs.length := by omega
        _ = (b.toNat + 1) * 256 ^ bs.length := by ring
        _ ≤ 256 * 256 ^ bs.length := Nat.mul_le_mul_right _ hb
        _ = 256 ^ (b :: bs).length := by simp [Nat.pow_succ, Nat.mul_comm]

/-- Reading back a written number gives it reduced to the width. -/
theorem toNat_toBytes (w n : Nat) : toNat (toBytes w n) = n % 256 ^ w := by
  induction w with
  | zero => simp [toBytes, toNat, Nat.mod_one]
  | succ w ih =>
      have hb : (UInt8.ofNat (n / 256 ^ w)).toNat = n / 256 ^ w % 256 := by simp
      rw [toBytes, toNat, ih, hb, length_toBytes, Nat.pow_succ, Nat.mod_mul]
      ring

theorem toNat_toBytes_of_lt {w n : Nat} (h : n < 256 ^ w) :
    toNat (toBytes w n) = n := by
  rw [toNat_toBytes, Nat.mod_eq_of_lt h]

/-- Only the low bytes are written. -/
theorem toBytes_add_mul (w n k : Nat) :
    toBytes w (n + k * 256 ^ w) = toBytes w n := by
  induction w generalizing k with
  | zero => rfl
  | succ w ih =>
      have hpos : 0 < 256 ^ w := Nat.pow_pos (by omega)
      have hsplit : n + k * 256 ^ (w + 1) = n + k * 256 * 256 ^ w := by ring
      rw [toBytes, toBytes, hsplit, ih, Nat.add_mul_div_right _ _ hpos]
      congr 1
      apply UInt8.toNat_inj.mp
      simp

/-- Writing back a read number gives the same bytes: the encoding of each
width is a bijection. -/
theorem toBytes_toNat (l : List UInt8) : toBytes l.length (toNat l) = l := by
  induction l with
  | nil => rfl
  | cons b bs ih =>
      have hpos : 0 < 256 ^ bs.length := Nat.pow_pos (by omega)
      have hdiv : (b.toNat * 256 ^ bs.length + toNat bs) / 256 ^ bs.length = b.toNat := by
        rw [Nat.add_comm, Nat.add_mul_div_right _ _ hpos,
          Nat.div_eq_of_lt (toNat_lt bs), Nat.zero_add]
      rw [List.length_cons, toBytes, toNat, hdiv, Nat.add_comm, toBytes_add_mul, ih]
      simp

end BigEndian
