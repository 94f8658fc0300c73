import Mathlib.Algebra.Order.Field.Rat
import Mathlib.Data.Nat.Log
import Mathlib.Tactic.Positivity

/-! # Binary floating point numbers of 32 bits

The value of a bit pattern, and the pattern of a fixed point number. A number of at most 24 bits
behind a power of two is represented exactly, so an operation that is correctly rounded and has such
a result returns it as it is.

* `toRat`: the value; `none` for an infinity and for what is not a number;
* `ofFixed n p`: the pattern of `n / 2 ^ p`.
-/

namespace Binary32

def sign (x : BitVec 32) : Bool := x.msb

def exponent (x : BitVec 32) : Nat := (x.extractLsb' 23 8).toNat

def fraction (x : BitVec 32) : Nat := (x.extractLsb' 0 23).toNat

/-- The absolute value, in units of the smallest number above 0. -/
def magnitude (x : BitVec 32) : Nat :=
  if exponent x = 0 then fraction x else (2 ^ 23 + fraction x) * 2 ^ (exponent x - 1)

def toRat (x : BitVec 32) : Option ℚ :=
  if exponent x = 255 then none
  else some ((if sign x then -1 else 1) * magnitude x / 2 ^ 149)

def pack (sign : Bool) (exponent : BitVec 8) (fraction : BitVec 23) : BitVec 32 :=
  BitVec.ofBool sign ++ exponent ++ fraction

/-- The leading one of the fraction is not stored. -/
def ofFixed (n : Int) (p : Nat) : BitVec 32 :=
  let m := n.natAbs
  if m = 0 then 0
  else pack (n < 0) (BitVec.ofNat 8 (127 + m.log2 - p)) (BitVec.ofNat 23 (m * 2 ^ (23 - m.log2)))

/-! ## Fields -/

/-- The bits of a pattern are those of its fields, the fraction lowest. -/
theorem getLsbD_pack (s : Bool) (e : BitVec 8) (f : BitVec 23) (i : Nat) :
    (pack s e f).getLsbD i = if i < 23 then f.getLsbD i
      else if i < 31 then e.getLsbD (i - 23) else (BitVec.ofBool s).getLsbD (i - 31) := by
  show BitVec.getLsbD (BitVec.ofBool s ++ e ++ f : BitVec (1 + 8 + 23)) i = _
  rw [BitVec.getLsbD_append, BitVec.getLsbD_append, Nat.sub_sub]
  split
  · rfl
  · split
    · rw [if_pos (by omega)]
    · rw [if_neg (by omega)]

@[simp] theorem sign_pack (s : Bool) (e : BitVec 8) (f : BitVec 23) : sign (pack s e f) = s := by
  unfold sign
  rw [BitVec.msb_eq_getLsbD_last, getLsbD_pack]
  simp

@[simp] theorem exponent_pack (s : Bool) (e : BitVec 8) (f : BitVec 23) :
    exponent (pack s e f) = e.toNat := by
  unfold exponent
  congr 1
  apply BitVec.eq_of_getLsbD_eq
  intro i hi
  rw [BitVec.getLsbD_extractLsb', getLsbD_pack, if_neg (by omega), if_pos (by omega),
    Nat.add_sub_cancel_left, decide_eq_true hi, Bool.true_and]

@[simp] theorem fraction_pack (s : Bool) (e : BitVec 8) (f : BitVec 23) :
    fraction (pack s e f) = f.toNat := by
  unfold fraction
  congr 1
  apply BitVec.eq_of_getLsbD_eq
  intro i hi
  rw [BitVec.getLsbD_extractLsb', getLsbD_pack, if_pos (by omega), Nat.zero_add,
    decide_eq_true hi, Bool.true_and]

/-! ## Fixed point numbers -/

/-- The bits of a number, moved up to the leading one of the fraction. -/
theorem normalised {m : Nat} (h0 : m ≠ 0) (hm : m < 2 ^ 24) :
    m.log2 ≤ 23 ∧ 2 ^ 23 ≤ m * 2 ^ (23 - m.log2) ∧ m * 2 ^ (23 - m.log2) < 2 ^ 24 := by
  have hlog : m.log2 < 24 := (Nat.log2_lt h0).mpr hm
  have hsplit : 2 ^ m.log2 * 2 ^ (23 - m.log2) = 2 ^ 23 := by
    rw [← Nat.pow_add]
    congr 1
    omega
  have hsplit' : 2 ^ (m.log2 + 1) * 2 ^ (23 - m.log2) = 2 ^ 24 := by
    rw [← Nat.pow_add]
    congr 1
    omega
  refine ⟨by omega, ?_, ?_⟩
  · rw [← hsplit]
    exact Nat.mul_le_mul_right _ (Nat.log2_self_le h0)
  · rw [← hsplit']
    exact Nat.mul_lt_mul_of_pos_right Nat.lt_log2_self (Nat.two_pow_pos _)

/-- The pattern of a fixed point number is finite, and has its absolute value. -/
theorem magnitude_ofFixed {n : Int} {p : Nat} (h0 : n.natAbs ≠ 0) (hn : n.natAbs < 2 ^ 24)
    (hp : p ≤ 126) : exponent (ofFixed n p) ≠ 255 ∧
      magnitude (ofFixed n p) * 2 ^ p = n.natAbs * 2 ^ 149 := by
  rcases normalised h0 hn with ⟨hlog, hlow, hhigh⟩
  have hexp : (BitVec.ofNat 8 (127 + n.natAbs.log2 - p)).toNat = 127 + n.natAbs.log2 - p := by
    rw [BitVec.toNat_ofNat, Nat.mod_eq_of_lt (by omega)]
  have hfrac : 2 ^ 23 + (BitVec.ofNat 23 (n.natAbs * 2 ^ (23 - n.natAbs.log2))).toNat =
      n.natAbs * 2 ^ (23 - n.natAbs.log2) := by
    rw [BitVec.toNat_ofNat]
    generalize n.natAbs * 2 ^ (23 - n.natAbs.log2) = v at hlow hhigh
    omega
  unfold magnitude ofFixed
  simp only [if_neg h0, exponent_pack, fraction_pack, hexp, hfrac]
  refine ⟨by omega, ?_⟩
  rw [if_neg (by omega), Nat.mul_assoc, Nat.mul_assoc, ← Nat.pow_add, ← Nat.pow_add]
  congr 2
  omega

/-- A fixed point number of 24 bits has an exact representation. -/
theorem toRat_ofFixed {n : Int} {p : Nat} (hn : n.natAbs < 2 ^ 24) (hp : p ≤ 126) :
    toRat (ofFixed n p) = some ((n : ℚ) / 2 ^ p) := by
  by_cases h0 : n.natAbs = 0
  · obtain rfl : n = 0 := Int.natAbs_eq_zero.mp h0
    have hzero : exponent 0#32 = 0 ∧ fraction 0#32 = 0 := ⟨rfl, rfl⟩
    rw [ofFixed, if_pos h0]
    simp [toRat, magnitude, hzero.1, hzero.2]
  rcases magnitude_ofFixed h0 hn hp with ⟨hfinite, hmag⟩
  have hsign : sign (ofFixed n p) = decide (n < 0) := by
    unfold ofFixed
    simp only [if_neg h0, sign_pack]
  have habs : (if decide (n < 0) then (-1 : ℚ) else 1) * n.natAbs = n := by
    rw [Nat.cast_natAbs]
    by_cases hneg : n < 0
    · simp [hneg, abs_of_neg hneg]
    · simp [hneg, abs_of_nonneg (not_lt.mp hneg)]
  have hmag' : (magnitude (ofFixed n p) : ℚ) * 2 ^ p = n.natAbs * 2 ^ 149 := by exact_mod_cast hmag
  unfold toRat
  rw [if_neg hfinite, hsign, Option.some.injEq, ← habs,
    div_eq_div_iff (by positivity) (by positivity), mul_assoc, hmag', mul_assoc]

end Binary32
