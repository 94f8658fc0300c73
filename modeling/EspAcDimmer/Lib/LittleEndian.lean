import Mathlib.Algebra.Group.Nat.Defs
import Mathlib.Data.List.Basic

/-! # Numbers as little-endian bytes

A number in a field of fixed width, lowest byte first. The two directions are inverse to each other
as long as the number fits the field.
-/

namespace LittleEndian

/-- The low `n` bytes of a number. -/
def toBytes : Nat → Nat → List (BitVec 8)
  | 0, _ => []
  | n + 1, x => BitVec.ofNat 8 x :: toBytes n (x / 256)

/-- The number that the bytes stand for. -/
def ofBytes : List (BitVec 8) → Nat
  | [] => 0
  | b :: bs => b.toNat + 256 * ofBytes bs

@[simp] theorem length_toBytes (n x : Nat) : (toBytes n x).length = n := by
  induction n generalizing x with
  | zero => rfl
  | succ n ih => simp [toBytes, ih]

/-- `n` bytes make a number below `256 ^ n`. -/
theorem ofBytes_lt (bs : List (BitVec 8)) : ofBytes bs < 256 ^ bs.length := by
  induction bs with
  | nil => simp [ofBytes]
  | cons b bs ih =>
    have hb : b.toNat < 256 := b.isLt
    simp only [ofBytes, List.length_cons, Nat.pow_succ]
    omega

/-- A number that fits into the bytes comes back. -/
theorem ofBytes_toBytes {n x : Nat} (hx : x < 256 ^ n) : ofBytes (toBytes n x) = x := by
  induction n generalizing x with
  | zero =>
    have : x = 0 := by simpa using hx
    simp [toBytes, ofBytes, this]
  | succ n ih =>
    have hdiv : x / 256 < 256 ^ n := by
      rw [Nat.pow_succ] at hx
      omega
    have hlow : (BitVec.ofNat 8 x).toNat = x % 256 := rfl
    simp only [toBytes, ofBytes, ih hdiv, hlow]
    omega

/-- Bytes come back from their number. -/
theorem toBytes_ofBytes (bs : List (BitVec 8)) : toBytes bs.length (ofBytes bs) = bs := by
  induction bs with
  | nil => rfl
  | cons b bs ih =>
    have hb : b.toNat < 256 := b.isLt
    have hdiv : (b.toNat + 256 * ofBytes bs) / 256 = ofBytes bs := by omega
    have hlow : BitVec.ofNat 8 (b.toNat + 256 * ofBytes bs) = b := by
      apply BitVec.eq_of_toNat_eq
      simp only [BitVec.toNat_ofNat]
      omega
    simp only [List.length_cons, ofBytes, toBytes, hdiv, hlow, ih]

end LittleEndian
