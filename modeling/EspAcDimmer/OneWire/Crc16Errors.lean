import Mathlib.Tactic.NormNum.Prime
import EspAcDimmer.Lib.CrcOrder
import EspAcDimmer.OneWire.CrcErrors

/-! # What `check_crc16` catches

A device sends its data and, behind them, the complement of their CRC-16. Errors in data and CRC
are missed iff they are a multiple of the polynomial. So no odd number of errors is missed, none
within 16 consecutive bits, and two of them iff they are a multiple of 32767 bits apart.
-/

namespace EspAcDimmer

open Crc

theorem crc16Poly_msb : crc16Poly.msb = true := by decide

/-- A number of zero bits, in leaps of powers of two. -/
theorem run_crc16_leaps (ks : List Nat) {N : Nat} (hN : (ks.map (2 ^ ·)).sum = N) :
    run crc16Poly 1#16 (zeros N) = 1#16 ↔ ks.foldl (fun r k => leap 0xA001 k r) 1 = 1 := by
  rw [← hN, ← BitVec.toNat_inj, toNat_run_leaps]
  exact Iff.rfl

/-- The order of `x` is `2 ^ 15 - 1`, which is `7 * 31 * 151`. -/
theorem crc16_order (n : Nat) : run crc16Poly 1#16 (zeros n) = 1#16 ↔ 32767 ∣ n := by
  have hback : run crc16Poly 1#16 (zeros 32767) = 1#16 :=
    (run_crc16_leaps (List.range 15) rfl).mpr (by decide +kernel)
  refine run_zeros_eq_one_iff hback ?_ n
  intro p hp hdvd
  have hcases : p = 7 ∨ p = 31 ∨ p = 151 := by
    rw [show 32767 = 7 * (31 * 151) from rfl, hp.dvd_mul, hp.dvd_mul] at hdvd
    rcases hdvd with h | h | h
    · exact .inl ((Nat.prime_dvd_prime_iff_eq hp (by norm_num)).mp h)
    · exact .inr (.inl ((Nat.prime_dvd_prime_iff_eq hp (by norm_num)).mp h))
    · exact .inr (.inr ((Nat.prime_dvd_prime_iff_eq hp (by norm_num)).mp h))
  rcases hcases with rfl | rfl | rfl
  · exact mt (run_crc16_leaps [12, 9, 6, 3, 0] rfl).mp (by decide +kernel)
  · exact mt (run_crc16_leaps [10, 5, 0] rfl).mp (by decide +kernel)
  · exact mt (run_crc16_leaps [7, 6, 4, 3, 0] rfl).mp (by decide +kernel)

/-! ## The check -/

/-- A word, by its two bytes. -/
theorem eq_append_iff (v : BitVec 16) (low high : BitVec 8) :
    v = high ++ low ↔ v.setWidth 8 = low ∧ (v >>> 8).setWidth 8 = high := by
  constructor
  · rintro rfl
    constructor
    · apply BitVec.eq_of_getLsbD_eq
      intro i hi
      simp only [BitVec.getLsbD_setWidth, BitVec.getLsbD_append, hi, decide_true, Bool.true_and,
        if_true]
    · apply BitVec.eq_of_getLsbD_eq
      intro i hi
      simp only [BitVec.getLsbD_setWidth, BitVec.getLsbD_ushiftRight, BitVec.getLsbD_append, hi,
        decide_true, Bool.true_and]
      rw [if_neg (by omega), Nat.add_sub_cancel_left]
  · rintro ⟨rfl, rfl⟩
    apply BitVec.eq_of_getLsbD_eq
    intro i hi
    rw [BitVec.getLsbD_append]
    split
    · next h => simp only [BitVec.getLsbD_setWidth, h, decide_true, Bool.true_and]
    · next h =>
      have hi' : i - 8 < 8 := by omega
      simp only [BitVec.getLsbD_setWidth, BitVec.getLsbD_ushiftRight, hi', decide_true,
        Bool.true_and]
      rw [Nat.add_sub_cancel' (by omega)]

/-- The complements of the two bytes behind the data are the register that the data lead to. -/
theorem checkCrc16_iff (input : List (BitVec 8)) (low high : BitVec 8) (crc : BitVec 16) :
    checkCrc16 input (low, high) crc = true ↔
      run crc16Poly crc (transmitted (input ++ [~~~low, ~~~high])) = 0#16 := by
  have hcrc : crc16 input crc = run crc16Poly crc (transmitted input) :=
    foldl_transmitted crc16Byte_eq input crc
  have hbits : transmitted [~~~low, ~~~high] = bits (~~~(high ++ low)) := by
    rw [BitVec.not_append, bits_append]
    simp
  unfold checkCrc16
  rw [transmitted_append, run_append, hcrc, hbits, run_bits _ (Nat.le_refl 16),
    run_zeros_eq_zero_iff crc16Poly_msb, BitVec.setWidth_eq, BitVec.xor_eq_zero_iff,
    BitVec.setWidth_not (by decide), BitVec.setWidth_setWidth_of_le _ (by decide),
    BitVec.setWidth_eq]
  generalize run crc16Poly crc (transmitted input) = v
  have hcomplement : v = ~~~(high ++ low) ↔ ~~~v = high ++ low := by
    rw [← BitVec.not_inj, BitVec.not_not]
  simp only
  rw [low_byte, high_byte, decide_eq_true_eq, setWidth_inj (by decide), setWidth_inj (by decide),
    hcomplement, eq_append_iff]

/-- An error pattern on data and CRC that pass the check is missed iff it is valid itself. -/
theorem checkCrc16_corrupted {input e : List (BitVec 8)} {low high e₀ e₁ : BitVec 8}
    {crc : BitVec 16} (hok : checkCrc16 input (low, high) crc = true)
    (hlen : e.length = input.length) :
    checkCrc16 (corrupted input e) (low ^^^ e₀, high ^^^ e₁) crc = true ↔
      Valid crc16Poly (transmitted (e ++ [e₀, e₁])) := by
  have hframe : corrupted input e ++ [~~~(low ^^^ e₀), ~~~(high ^^^ e₁)] =
      corrupted (input ++ [~~~low, ~~~high]) (e ++ [e₀, e₁]) := by
    rw [corrupted, corrupted, List.zipWith_append hlen.symm, BitVec.not_xor_left,
      BitVec.not_xor_left]
    rfl
  have hrun : run crc16Poly (crc ^^^ 0#16) (List.zipWith (· ^^ ·)
      (transmitted (input ++ [~~~low, ~~~high])) (transmitted (e ++ [e₀, e₁]))) =
        run crc16Poly crc (transmitted (input ++ [~~~low, ~~~high])) ^^^
          run crc16Poly 0#16 (transmitted (e ++ [e₀, e₁])) :=
    run_xor (by simp [length_transmitted, hlen])
  rw [checkCrc16_iff] at hok ⊢
  rw [BitVec.xor_zero, hok, BitVec.zero_xor] at hrun
  rw [hframe, transmitted_corrupted (by simp [hlen]), hrun]
  exact Iff.rfl

/-- Whatever the data and the starting value: `check_crc16` accepts no frame with an odd number of
errors, or with errors within 16 consecutive bits, and one with two errors iff they are a multiple
of 32767 bits apart. -/
theorem checkCrc16_catches {input e : List (BitVec 8)} {low high e₀ e₁ : BitVec 8}
    {crc : BitVec 16} (hok : checkCrc16 input (low, high) crc = true)
    (hlen : e.length = input.length) :
    let errors := transmitted (e ++ [e₀, e₁])
    let accepted := checkCrc16 (corrupted input e) (low ^^^ e₀, high ^^^ e₁) crc
    (errors.count true % 2 = 1 → accepted = false) ∧
    (true ∈ errors → (∃ p, ∀ i, errors[i]? = some true → p ≤ i ∧ i < p + 16) →
      accepted = false) ∧
    ∀ i j, i < j → (∀ k, errors[k]? = some true ↔ k = i ∨ k = j) →
      (accepted = true ↔ 32767 ∣ j - i) := by
  intro errors accepted
  have hmissed : accepted = true ↔ Valid crc16Poly errors := checkCrc16_corrupted hok hlen
  refine ⟨?_, ?_, ?_⟩
  · intro hodd
    rw [← Bool.not_eq_true, hmissed]
    exact not_valid_of_odd (by decide) hodd
  · rintro hne ⟨p, hwindow⟩
    rw [← Bool.not_eq_true, hmissed]
    exact not_valid_of_window crc16Poly_msb hne hwindow
  · intro i j hij htwo
    rw [hmissed, valid_two_iff crc16Poly_msb hij htwo, crc16_order]

/-- The first bit of a frame and the last bit of its data arrive wrong, or three bits of the CRC. -/
theorem checkCrc16_catches_two :
    checkCrc16 (corrupted [0xF0, 0x88, 0x00, 0x5A, 0x3C] [0x01, 0, 0, 0, 0x80])
      (0xAE ^^^ 0, 0xFB ^^^ 0) 0 = false ∧
    checkCrc16 (corrupted [0xF0, 0x88, 0x00, 0x5A, 0x3C] [0, 0, 0, 0, 0])
      (0xAE ^^^ 0x81, 0xFB ^^^ 0x10) 0 = false := by
  have hok : checkCrc16 [0xF0, 0x88, 0x00, 0x5A, 0x3C] (0xAE, 0xFB) 0 = true := by decide +kernel
  have hlen : ([0x01, 0, 0, 0, 0x80] : List (BitVec 8)).length =
      ([0xF0, 0x88, 0x00, 0x5A, 0x3C] : List (BitVec 8)).length := rfl
  have hlen' : ([0, 0, 0, 0, 0] : List (BitVec 8)).length =
      ([0xF0, 0x88, 0x00, 0x5A, 0x3C] : List (BitVec 8)).length := rfl
  have htwo : ∀ k, (transmitted ([0x01, 0, 0, 0, 0x80] ++ [0, 0]))[k]? = some true ↔
      k = 0 ∨ k = 39 := by
    intro k
    by_cases hk : k < 56
    · revert k
      decide +kernel
    · rw [List.getElem?_eq_none (by rw [length_transmitted]; simp; omega)]
      simp
      omega
  have hodd : (transmitted ([0, 0, 0, 0, 0] ++ [0x81, 0x10])).count true % 2 = 1 := by
    decide +kernel
  constructor
  · have hfirst : checkCrc16 (corrupted [0xF0, 0x88, 0x00, 0x5A, 0x3C] [0x01, 0, 0, 0, 0x80])
        (0xAE ^^^ 0, 0xFB ^^^ 0) 0 = true ↔ 32767 ∣ 39 - 0 :=
      (checkCrc16_catches hok hlen).2.2 0 39 (by decide) htwo
    exact Bool.eq_false_iff.mpr (mt hfirst.mp (by decide))
  · have hthree : checkCrc16 (corrupted [0xF0, 0x88, 0x00, 0x5A, 0x3C] [0, 0, 0, 0, 0])
        (0xAE ^^^ 0x81, 0xFB ^^^ 0x10) 0 = false := (checkCrc16_catches hok hlen').1 hodd
    exact hthree

end EspAcDimmer
