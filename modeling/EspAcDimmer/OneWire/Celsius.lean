import EspAcDimmer.Lib.Binary32
import EspAcDimmer.OneWire.Sensors
import Mathlib.Data.Rat.Floor

/-! # The temperature in a scratchpad

`TemperatureSensor::create` and the two versions of `getCelsius`. The sixteenths of a degree that
come out of a scratchpad are few, and a `float` holds their quotient as it is.
-/

namespace EspAcDimmer

open Binary32

/-- The classes behind `TemperatureSensor`. -/
inductive TemperatureSensor where
  | ds18b20
  | ds18s20
deriving DecidableEq

/-- `TemperatureSensor::create`, which knows a class by the family code. -/
def TemperatureSensor.create (regNum : RegisterNumber) : Option TemperatureSensor :=
  if regNum.romData.familyCode = 0x10 then some ds18s20  -- or old DS1820
  else if regNum.romData.familyCode = 0x28 then some ds18b20
  else if regNum.romData.familyCode = 0x22 then some ds18b20  -- DS1822
  else none

/-- `getCelsius`, with `float(raw) / 16.0`. -/
def TemperatureSensor.getCelsius (sensor : TemperatureSensor) (data : Scratchpad) : BitVec 32 :=
  match sensor with
  | ds18b20 => ofFixed data.raw12.toInt 4
  | ds18s20 => ofFixed data.raw9.toInt 4

/-! ## Sixteenths of a degree -/

/-- The quotient has no rounding. -/
theorem toRat_sixteenths (raw : BitVec 16) :
    toRat (ofFixed raw.toInt 4) = some ((raw.toInt : ℚ) / 16) := by
  have hlow := BitVec.le_toInt raw
  have hhigh := BitVec.toInt_lt (x := raw)
  have hquotient := toRat_ofFixed (n := raw.toInt) (p := 4) (by omega) (by decide)
  rw [hquotient]
  norm_num

/-- The upper half of the numbers is negative. -/
theorem toInt_cases (x : BitVec 16) :
    x.toInt = x.toNat ∧ x.toNat < 2 ^ 15 ∨ x.toInt = x.toNat - 2 ^ 16 ∧ 2 ^ 15 ≤ x.toNat := by
  rw [BitVec.toInt_eq_toNat_cond]
  omega

/-- The low bits cleared, by a mask of the wider type. -/
theorem toNat_masked (x : BitVec 16) (k : Nat) :
    ((x.signExtend 32 &&& ~~~BitVec.ofNat 32 (2 ^ k - 1)).setWidth 16).toNat =
      2 ^ k * (x.toNat / 2 ^ k) := by
  have hshift : (x.signExtend 32 &&& ~~~BitVec.ofNat 32 (2 ^ k - 1)).setWidth 16 =
      (x >>> k) <<< k := by
    apply BitVec.eq_of_getLsbD_eq
    intro i hi
    simp only [BitVec.getLsbD_setWidth, BitVec.getLsbD_and, BitVec.getLsbD_not,
      BitVec.getLsbD_signExtend, BitVec.getLsbD_ofNat, Nat.testBit_two_pow_sub_one,
      BitVec.getLsbD_shiftLeft, BitVec.getLsbD_ushiftRight]
    by_cases hik : i < k
    · simp [hik]
    · simp [hik, hi, show i < 32 by omega, show k + (i - k) = i by omega]
  have hlt : x.toNat / 2 ^ k * 2 ^ k < 2 ^ 16 :=
    (Nat.div_mul_le_self _ _).trans_lt x.isLt
  rw [hshift, BitVec.toNat_shiftLeft, BitVec.toNat_ushiftRight, Nat.shiftLeft_eq,
    Nat.shiftRight_eq_div_pow, Nat.mod_eq_of_lt hlt, Nat.mul_comm]

/-- The resolution that the configuration register is set to. -/
def Scratchpad.resolution (data : Scratchpad) : Resolution :=
  if data.cfg = 0x00 then .bits9
  else if data.cfg = 0x20 then .bits10
  else if data.cfg = 0x40 then .bits11
  else .bits12

/-- How many low bits of the twelve are undefined. -/
def Resolution.undefinedBits : Resolution → Nat
  | bits9 => 3
  | bits10 => 2
  | bits11 => 1
  | bits12 => 0

/-- What a resolution tells apart, in sixteenths of a degree. -/
def Resolution.step (r : Resolution) : Nat := 2 ^ r.undefinedBits

/-- The undefined bits are cleared. -/
theorem Scratchpad.toNat_raw12 (data : Scratchpad) :
    data.raw12.toNat = data.resolution.step * (data.raw.toNat / data.resolution.step) := by
  unfold raw12 resolution
  split
  · exact toNat_masked data.raw 3
  · split
    · exact toNat_masked data.raw 2
    · split
      · exact toNat_masked data.raw 1
      · rw [show Resolution.bits12.step = 1 from rfl, Nat.div_one, Nat.one_mul]

/-- Cleared bits round down, also below zero. -/
theorem Scratchpad.toInt_raw12 (data : Scratchpad) :
    data.raw12.toInt = data.resolution.step * (data.raw.toInt / data.resolution.step) := by
  have hnat := data.toNat_raw12
  have hraw := toInt_cases data.raw
  have hresult := toInt_cases data.raw12
  cases h : data.resolution <;>
    simp only [h, Resolution.step, Resolution.undefinedBits] at hnat ⊢ <;> omega

/-- The bits of `raw` are a half of a degree each. -/
theorem toNat_halves (x : BitVec 16) :
    ((x.signExtend 32 <<< 3).setWidth 16).toNat = 8 * x.toNat % 2 ^ 16 := by
  have hshift : (x.signExtend 32 <<< 3).setWidth 16 = x <<< 3 := by
    apply BitVec.eq_of_getLsbD_eq
    intro i hi
    simp only [BitVec.getLsbD_setWidth, BitVec.getLsbD_shiftLeft, BitVec.getLsbD_signExtend]
    by_cases h3 : i < 3
    · simp [h3]
    · simp [h3, hi, show i < 32 by omega, show i - 3 < 32 by omega, show i - 3 < 16 by omega]
  rw [hshift, BitVec.toNat_shiftLeft, Nat.shiftLeft_eq, Nat.mul_comm]

/-- The whole degrees, twelve sixteenths more, and what remains of the count taken off. -/
theorem toNat_counted (x : BitVec 16) (remain : BitVec 8) :
    (((x.signExtend 32 &&& 0xFFF0) + 12 - remain.setWidth 32).setWidth 16).toNat =
      (16 * (x.toNat / 16) + 12 + 2 ^ 16 - remain.toNat) % 2 ^ 16 := by
  have hmask : (x.signExtend 32 &&& 0xFFF0).toNat = 16 * (x.toNat / 16) := by
    have hlow : (x.signExtend 32 &&& 0xFFF0) =
        ((x.signExtend 32 &&& ~~~BitVec.ofNat 32 (2 ^ 4 - 1)).setWidth 16).setWidth 32 := by
      apply BitVec.eq_of_getLsbD_eq
      intro i hi
      have hbits : ∀ i < 32, (0xFFF0#32).getLsbD i = decide (4 ≤ i ∧ i < 16) := by decide
      simp only [BitVec.getLsbD_setWidth, BitVec.getLsbD_and, BitVec.getLsbD_not,
        BitVec.getLsbD_ofNat, Nat.testBit_two_pow_sub_one]
      rw [show (0xFFF0 : BitVec 32) = 0xFFF0#32 from rfl, hbits i hi]
      grind
    rw [hlow, BitVec.toNat_setWidth, toNat_masked, Nat.mod_eq_of_lt (by omega)]
    rfl
  have hremain := remain.isLt
  have hx := x.isLt
  rw [BitVec.toNat_setWidth, BitVec.toNat_sub, BitVec.toNat_add, hmask, BitVec.toNat_setWidth,
    show (12 : BitVec 32).toNat = 12 from rfl]
  omega

/-- Both branches, in the arithmetic of 16 bits. -/
theorem Scratchpad.toNat_raw9 (data : Scratchpad) :
    data.raw9.toNat = if data 7 = 0x10 then
      (16 * (8 * data.raw.toNat % 2 ^ 16 / 16) + 12 + 2 ^ 16 - (data 6).toNat) % 2 ^ 16
    else 8 * data.raw.toNat % 2 ^ 16 := by
  unfold raw9
  split
  · rw [← toNat_halves]
    exact toNat_counted _ _
  · exact toNat_halves data.raw

/-- A temperature that an `std::int16_t` of sixteenths can hold. -/
theorem Scratchpad.toInt_raw9 (data : Scratchpad) (hlow : -4064 ≤ data.raw.toInt)
    (hhigh : data.raw.toInt < 4096) :
    data.raw9.toInt = if data 7 = 0x10 then 16 * (data.raw.toInt / 2) + 12 - (data 6).toNat
      else 8 * data.raw.toInt := by
  have hnat := data.toNat_raw9
  have hremain := (data 6).isLt
  have hraw := toInt_cases data.raw
  have hresult := toInt_cases data.raw9
  split at hnat
  · next h =>
    rw [if_pos h]
    omega
  · next h =>
    rw [if_neg h]
    omega

/-! ## Degrees -/

/-- What a DS18B20 says, in degrees. -/
def Scratchpad.degrees (data : Scratchpad) : ℚ := data.raw.toInt / 16

/-- What a resolution tells apart, in degrees. -/
def Resolution.degrees (r : Resolution) : ℚ := r.step / 16

/-- Two numbers of sixteenths are two temperatures. -/
theorem sixteenths_inj {raw raw' : BitVec 16} (h : ofFixed raw.toInt 4 = ofFixed raw'.toInt 4) :
    raw = raw' := by
  have hvalue : (raw.toInt : ℚ) / 16 = (raw'.toInt : ℚ) / 16 := by
    rw [← Option.some.injEq, ← toRat_sixteenths, ← toRat_sixteenths, h]
  have hcast : (raw.toInt : ℚ) = raw'.toInt := (div_left_inj' (by norm_num)).mp hvalue
  exact BitVec.eq_of_toInt_eq (by exact_mod_cast hcast)

/-- A DS18B20's temperature is rounded down to its resolution, and nothing else. -/
theorem getCelsius_rounds (data : Scratchpad) :
    ∃ n : ℤ, toRat (TemperatureSensor.ds18b20.getCelsius data) =
        some (n * data.resolution.degrees) ∧
      n * data.resolution.degrees ≤ data.degrees ∧
      data.degrees < (n + 1) * data.resolution.degrees := by
  let step : ℤ := data.resolution.step
  have hstep : 0 < step := Int.natCast_pos.mpr (Nat.two_pow_pos _)
  have hlow : data.raw.toInt / step * step ≤ data.raw.toInt := Int.ediv_mul_le _ hstep.ne'
  have hhigh : data.raw.toInt < (data.raw.toInt / step + 1) * step :=
    Int.lt_ediv_add_one_mul_self _ hstep
  have hlow' : ((data.raw.toInt / step : ℤ) : ℚ) * step ≤ data.raw.toInt := by exact_mod_cast hlow
  have hhigh' : (data.raw.toInt : ℚ) < ((data.raw.toInt / step : ℤ) + 1) * step := by
    exact_mod_cast hhigh
  have hdegrees : data.resolution.degrees = (step : ℚ) / 16 := rfl
  refine ⟨data.raw.toInt / step, ?_, ?_, ?_⟩
  · rw [TemperatureSensor.getCelsius, toRat_sixteenths, data.toInt_raw12, hdegrees]
    push_cast
    rw [mul_comm, mul_div_assoc]
    rfl
  · rw [hdegrees, Scratchpad.degrees, ← mul_div_assoc]
    exact div_le_div_of_nonneg_right hlow' (by norm_num)
  · rw [hdegrees, Scratchpad.degrees, ← mul_div_assoc]
    exact div_lt_div_of_pos_right hhigh' (by norm_num)

/-- The defined bits of a number, by a division. -/
theorem div_two_pow_eq_iff {m n k : Nat} :
    m / 2 ^ k = n / 2 ^ k ↔ ∀ i, k ≤ i → m.testBit i = n.testBit i := by
  rw [← Nat.shiftRight_eq_div_pow, ← Nat.shiftRight_eq_div_pow]
  constructor
  · intro h i hi
    have hbit := congrArg (fun v => v.testBit (i - k)) h
    simpa [Nat.testBit_shiftRight, hi] using hbit
  · intro h
    apply Nat.eq_of_testBit_eq
    intro i
    rw [Nat.testBit_shiftRight, Nat.testBit_shiftRight]
    exact h _ (Nat.le_add_right k i)

/-- At one resolution, two scratchpads of a DS18B20 give the same temperature just when they agree
on the bits that the resolution defines. -/
theorem getCelsius_eq_iff {data data' : Scratchpad} (h : data.resolution = data'.resolution) :
    TemperatureSensor.ds18b20.getCelsius data = TemperatureSensor.ds18b20.getCelsius data' ↔
      ∀ i, data.resolution.undefinedBits ≤ i → data.raw.getLsbD i = data'.raw.getLsbD i := by
  have hnat : data.raw12 = data'.raw12 ↔ data.raw.toNat / data.resolution.step =
      data'.raw.toNat / data.resolution.step := by
    rw [← BitVec.toNat_inj, data.toNat_raw12, data'.toNat_raw12, ← h]
    exact Nat.mul_right_inj (Nat.two_pow_pos _).ne'
  refine Iff.trans ⟨sixteenths_inj, ?_⟩ (hnat.trans div_two_pow_eq_iff)
  intro hraw
  rw [TemperatureSensor.getCelsius, hraw, TemperatureSensor.getCelsius]

/-- A DS18S20 counts halves of a degree, and what remains of its count gives sixteenths. -/
theorem getCelsius_counts (data : Scratchpad) (hlow : -4064 ≤ data.raw.toInt)
    (hhigh : data.raw.toInt < 4096) :
    toRat (TemperatureSensor.ds18s20.getCelsius data) = some
      (if data 7 = 0x10 then
        (⌊(data.raw.toInt : ℚ) / 2⌋ : ℚ) - 1 / 4 +
          ((data 7).toNat - (data 6).toNat) / (data 7).toNat
      else (data.raw.toInt : ℚ) / 2) := by
  rw [TemperatureSensor.getCelsius, toRat_sixteenths, data.toInt_raw9 hlow hhigh]
  split
  · next h =>
    rw [h, show (0x10 : BitVec 8).toNat = 16 from rfl,
      show ((data.raw.toInt : ℚ) / 2) = data.raw.toInt / ((2 : ℕ) : ℚ) by norm_num,
      Rat.floor_intCast_div_natCast]
    push_cast
    ring_nf
  · push_cast
    ring_nf

/-- A DS18S20 at 24.625 C. -/
def countedScratchpad : Scratchpad :=
  fun i => [0x31, 0, 0x4B, 0x46, 0xFF, 0xFF, 0x02, 0x10, 0x84].getD i.val 0

/-- A scratchpad that counts, within the range. -/
theorem getCelsius_counts_scratchpad :
    -4064 ≤ countedScratchpad.raw.toInt ∧ countedScratchpad.raw.toInt < 4096 ∧
      toRat (TemperatureSensor.ds18s20.getCelsius countedScratchpad) = some
        (if countedScratchpad 7 = 0x10 then
          (⌊(countedScratchpad.raw.toInt : ℚ) / 2⌋ : ℚ) - 1 / 4 +
            ((countedScratchpad 7).toNat - (countedScratchpad 6).toNat) /
              (countedScratchpad 7).toNat
        else (countedScratchpad.raw.toInt : ℚ) / 2) :=
  ⟨by decide, by decide, getCelsius_counts countedScratchpad (by decide) (by decide)⟩

end EspAcDimmer
