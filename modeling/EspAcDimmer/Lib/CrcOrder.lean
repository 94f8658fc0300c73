import Mathlib.Data.Nat.Prime.Basic
import Mathlib.Dynamics.PeriodicPts.Defs
import EspAcDimmer.Lib.Crc

/-! # The order of a polynomial

Two errors are missed iff as many zeros as they are apart bring the register from 1 back to 1. That
happens after each multiple of a number of zeros, the order of the polynomial.

* `run_zeros_eq_one_iff`: the order, from its prime factors;
* `toNat_run_leaps`: registers after many zeros, computed on numbers;
* `valid_two_iff`: two errors in a message.
-/

namespace Crc

open Function

variable {w : Nat} {poly r : BitVec w} {bs : List Bool}

/-- A run over zeros is an iteration of the shift. -/
theorem run_zeros_eq_iterate (n : Nat) :
    run poly r (zeros n) = (fun r => shift poly r false)^[n] r := by
  induction n generalizing r with
  | zero => rfl
  | succ n ih =>
    rw [zeros, List.replicate_succ, run, List.foldl_cons]
    exact ih

/-- `N` zeros lead back to 1, and with no prime factor of `N` fewer of them do. -/
theorem run_zeros_eq_one_iff {N : Nat} (hback : run poly 1#w (zeros N) = 1#w)
    (hfactor : ∀ p, p.Prime → p ∣ N → run poly 1#w (zeros (N / p)) ≠ 1#w) (n : Nat) :
    run poly 1#w (zeros n) = 1#w ↔ N ∣ n := by
  have hiff : ∀ n, run poly 1#w (zeros n) = 1#w ↔
      minimalPeriod (fun r => shift poly r false) 1#w ∣ n := by
    intro n
    rw [run_zeros_eq_iterate]
    exact isPeriodicPt_iff_minimalPeriod_dvd
  rcases (hiff N).mp hback with ⟨k, hk⟩
  by_cases hone : k = 1
  · rw [hiff, hk, hone, Nat.mul_one]
  · -- there would be a prime factor to take out
    rcases Nat.exists_prime_and_dvd hone with ⟨p, hp, d, rfl⟩
    refine absurd ((hiff (N / p)).mpr ⟨d, ?_⟩) (hfactor p hp ?_)
    · rw [hk, Nat.mul_left_comm, Nat.mul_div_cancel_left _ hp.pos]
    · rw [hk]
      exact Dvd.intro_left _ (by rw [Nat.mul_right_comm, Nat.mul_assoc])

/-! ## Many zeros -/

/-- The register after `2 ^ k` zeros, as a number. The cases are what makes an evaluation compute
the number before it goes on. -/
def leap (poly : Nat) : Nat → Nat → Nat
  | 0, r => if r % 2 = 1 then r / 2 ^^^ poly else r / 2
  | k + 1, r =>
    match leap poly k r with
    | 0 => leap poly k 0
    | m + 1 => leap poly k (m + 1)

/-- `2 ^ (k + 1)` zeros are `2 ^ k` zeros twice. -/
theorem leap_succ (poly k r : Nat) : leap poly (k + 1) r = leap poly k (leap poly k r) := by
  rw [leap]
  split
  · next h => rw [h]
  · next h => rw [h]

/-- A single zero, on numbers. -/
theorem toNat_shift : (shift poly r false).toNat = leap poly.toNat 0 r.toNat := by
  have hlow : r.getLsbD 0 = decide (r.toNat % 2 = 1) := by
    rw [BitVec.getLsbD, Nat.testBit_zero]
  have hhalf : (r >>> 1).toNat = r.toNat / 2 := by
    rw [BitVec.toNat_ushiftRight, Nat.shiftRight_one]
  unfold shift
  rw [leap, hlow, Bool.xor_false]
  by_cases h : r.toNat % 2 = 1
  · rw [if_pos (decide_eq_true h), if_pos h, BitVec.toNat_xor, hhalf]
  · rw [if_neg (by simpa using h), if_neg h, hhalf]

/-- `leap` is the run over `2 ^ k` zeros, on numbers. -/
theorem toNat_run_leap (k : Nat) :
    (run poly r (zeros (2 ^ k))).toNat = leap poly.toNat k r.toNat := by
  induction k generalizing r with
  | zero => exact toNat_shift
  | succ k ih =>
    have hzeros : zeros (2 ^ (k + 1)) = zeros (2 ^ k) ++ zeros (2 ^ k) := by
      rw [zeros, zeros, List.replicate_append_replicate, Nat.pow_succ, Nat.mul_two]
    rw [hzeros, run_append, ih, ih, leap_succ]

/-- A run over any number of zeros goes by the powers of two that it is made of. -/
theorem toNat_run_leaps (ks : List Nat) :
    (run poly r (zeros (ks.map (2 ^ ·)).sum)).toNat =
      ks.foldl (fun r k => leap poly.toNat k r) r.toNat := by
  induction ks generalizing r with
  | nil => rfl
  | cons k ks ih =>
    have hzeros : zeros ((k :: ks).map (2 ^ ·)).sum =
        zeros (2 ^ k) ++ zeros (ks.map (2 ^ ·)).sum := by
      rw [zeros, zeros, List.replicate_append_replicate, List.map_cons, List.sum_cons]
    rw [hzeros, run_append, ih, toNat_run_leap, List.foldl_cons]

/-! ## Two errors -/

/-- Two errors and nothing else. -/
theorem valid_two_iff (hpoly : poly.msb = true) {i j : Nat} (hij : i < j)
    (h : ∀ k, bs[k]? = some true ↔ k = i ∨ k = j) :
    Valid poly bs ↔ run poly 1#w (zeros (j - i)) = 1#w := by
  have hi : bs[i]? = some true := (h i).mpr (.inl rfl)
  have hj : bs[j]? = some true := (h j).mpr (.inr rfl)
  rcases List.getElem?_eq_some_iff.mp hi with ⟨hil, hib⟩
  rcases List.getElem?_eq_some_iff.mp hj with ⟨hjl, hjb⟩
  have hbefore : true ∉ bs.take i := by
    intro hmem
    rcases List.mem_iff_getElem?.mp hmem with ⟨k, hk⟩
    rw [List.getElem?_take] at hk
    split at hk
    · next hlt =>
      have := (h k).mp hk
      omega
    · cases hk
  have hbetween : true ∉ (bs.drop (i + 1)).take (j - i - 1) := by
    intro hmem
    rcases List.mem_iff_getElem?.mp hmem with ⟨k, hk⟩
    rw [List.getElem?_take] at hk
    split at hk
    · next hlt =>
      rw [List.getElem?_drop] at hk
      have := (h _).mp hk
      omega
    · cases hk
  have hbehind : true ∉ bs.drop (j + 1) := by
    intro hmem
    rcases List.mem_iff_getElem?.mp hmem with ⟨k, hk⟩
    rw [List.getElem?_drop] at hk
    have := (h _).mp hk
    omega
  have hdrop : (bs.drop (i + 1)).drop (j - i - 1) = true :: bs.drop (j + 1) := by
    rw [List.drop_drop, show i + 1 + (j - i - 1) = j by omega, List.drop_eq_getElem_cons hjl, hjb]
  have hsplit : bs = bs.take i ++
      ((true :: ((bs.drop (i + 1)).take (j - i - 1) ++ [true])) ++ bs.drop (j + 1)) := by
    calc bs = bs.take i ++ bs.drop i := (List.take_append_drop i bs).symm
      _ = bs.take i ++ (true :: ((bs.drop (i + 1)).take (j - i - 1) ++
            (bs.drop (i + 1)).drop (j - i - 1))) := by
          rw [List.drop_eq_getElem_cons hil, hib, List.take_append_drop]
      _ = _ := by
          rw [hdrop]
          simp
  have hlength : ((bs.drop (i + 1)).take (j - i - 1)).length + 1 = j - i := by
    rw [List.length_take, List.length_drop]
    omega
  rw [hsplit, eq_zeros hbefore, valid_zeros_append_iff, eq_zeros hbehind,
    valid_append_zeros_iff hpoly, eq_zeros hbetween, valid_double_iff hpoly, hlength]

end Crc
