import EspAcDimmer.OneWire.TemperatureSensor

/-! # What the checksums catch

A frame is its data and, behind them, their `crc8`. Errors are missed iff they are a frame by
themselves, and no odd number of errors is, none that fit the register, and no two that are less
than 127 bits apart.
-/

namespace EspAcDimmer

open Crc

variable {β : Type}

/-- The errors that the check is used for: an odd number of flipped bits, flipped bits within eight
consecutive ones, or two flipped bits of a short frame. -/
def Caught (e : List (BitVec 8)) : Prop :=
  (transmitted e).count true % 2 = 1 ∨
    (true ∈ transmitted e ∧
      ∃ p, ∀ i, (transmitted e)[i]? = some true → p ≤ i ∧ i < p + 8) ∨
    ((transmitted e).count true = 2 ∧ e.length ≤ 15)

/-- What arrives of these bytes. -/
def corrupted (bytes e : List (BitVec 8)) : List (BitVec 8) := List.zipWith (· ^^^ ·) bytes e

@[simp] theorem corrupted_cons (b x : BitVec 8) (bytes e : List (BitVec 8)) :
    corrupted (b :: bytes) (x :: e) = (b ^^^ x) :: corrupted bytes e := rfl

/-- What arrives of a buffer of fixed length. -/
theorem corrupted_ofFn {n : Nat} (f e : Fin n → BitVec 8) :
    corrupted (List.ofFn f) (List.ofFn e) = List.ofFn fun i => f i ^^^ e i := by
  refine List.ext_getElem (by simp [corrupted]) ?_
  intro i h₁ h₂
  simp [corrupted]

/-- On the wire, too, errors are added bit by bit. -/
theorem transmitted_corrupted {frame e : List (BitVec 8)} (h : frame.length = e.length) :
    transmitted (corrupted frame e) =
      List.zipWith (· ^^ ·) (transmitted frame) (transmitted e) := by
  induction frame generalizing e with
  | nil => rfl
  | cons b frame ih =>
    cases e with
    | nil => exact absurd h (by simp)
    | cons x e =>
      have hbits : bits (b ^^^ x) = List.zipWith (· ^^ ·) (bits b) (bits x) := by
        refine List.ext_getElem (by simp) ?_
        intro i h₁ h₂
        simp
      rw [corrupted_cons, transmitted_cons, transmitted_cons, transmitted_cons, hbits,
        List.zipWith_append (by simp), ih (Nat.succ.inj h)]

theorem crc8Poly_msb : crc8Poly.msb = true := by decide

/-- The powers of `x` below its order, 127. -/
theorem crc8_order : ∀ d < 127, 0 < d → run crc8Poly 1#8 (zeros d) ≠ 1#8 := by
  decide +kernel

/-- The check accepts what is a frame. -/
theorem crc8_eq_iff (data : List (BitVec 8)) (c : BitVec 8) :
    crc8 data = c ↔ Valid crc8Poly (transmitted (data ++ [c])) := by
  rw [crc8_eq, transmitted_append, transmitted_cons, transmitted_nil, List.append_nil,
    valid_append_bits crc8Poly_msb]
  exact Iff.rfl

/-- Errors of these classes are no frame by themselves. -/
theorem Caught.not_valid {e : List (BitVec 8)} (h : Caught e) :
    ¬ Valid crc8Poly (transmitted e) := by
  rcases h with hodd | ⟨hne, p, hwindow⟩ | ⟨hdouble, hshort⟩
  · exact not_valid_of_odd (by decide) hodd
  · exact not_valid_of_window crc8Poly_msb hne hwindow
  · refine not_valid_of_double crc8Poly_msb hdouble ?_
    intro d hpos hd
    rw [length_transmitted] at hd
    exact crc8_order d (by omega) hpos

/-- What is left of a frame when it was corrupted is none. -/
theorem Caught.rejected {frame e : List (BitVec 8)} (h : Caught e)
    (hlen : frame.length = e.length) (hframe : Valid crc8Poly (transmitted frame)) :
    ¬ Valid crc8Poly (transmitted (corrupted frame e)) := by
  rw [transmitted_corrupted hlen, hframe.xor_iff]
  · exact h.not_valid
  · rw [length_transmitted, length_transmitted, hlen]

/-- `crc8(bytes, n) == bytes[n]`, of the `n + 1` bytes there are. -/
theorem getLast?_eq_crc8_iff {bytes : List (BitVec 8)} (h : bytes ≠ []) :
    bytes.getLast? = some (crc8 bytes.dropLast) ↔ Valid crc8Poly (transmitted bytes) := by
  have hsplit := List.dropLast_append_getLast h
  rw [List.getLast?_eq_some_getLast h, Option.some.injEq, eq_comm, crc8_eq_iff, hsplit]

/-- A ROM code passes its check iff it is a frame. -/
theorem RegisterNumber.isCrcValid_iff (n : RegisterNumber) :
    n.isCrcValid = true ↔ Valid crc8Poly (transmitted (List.ofFn n.romData)) := by
  have hsplit : List.ofFn n.romData = (List.ofFn n.romData).take 7 ++ [n.romData.crc] := rfl
  unfold isCrcValid calcCrc
  rw [decide_eq_true_eq, eq_comm, crc8_eq_iff, ← hsplit]

/-- So does a scratchpad. -/
theorem Scratchpad.isCrcValid_iff (data : Scratchpad) :
    data.isCrcValid = true ↔ Valid crc8Poly (transmitted (List.ofFn data)) := by
  have hsplit : List.ofFn data = (List.ofFn data).take 8 ++ [data 8] := rfl
  unfold isCrcValid
  rw [decide_eq_true_eq, crc8_eq_iff, ← hsplit]

/-- No check accepts a frame with errors of the classes it is used for, in particular none of a
ROM code and none of a scratchpad. -/
theorem crc8_catches :
    (∀ data e : List (BitVec 8), e.length = data.length + 1 → Caught e →
      (corrupted (data ++ [crc8 data]) e).getLast? ≠
        some (crc8 (corrupted (data ++ [crc8 data]) e).dropLast)) ∧
    (∀ (n : RegisterNumber) (e : RomNo), n.isCrcValid = true → Caught (List.ofFn e) →
      (RegisterNumber.mk fun i => n.romData i ^^^ e i).isCrcValid = false) ∧
    ∀ {β : Type} (w : Wire β) (vTaskDelay : Nat → β → β) (regNum : RegisterNumber)
      (data sent e : Scratchpad) (bus : β), sent.isCrcValid = true → Caught (List.ofFn e) →
      (OneWire.measureTemperature w vTaskDelay regNum data bus).2.1 = (fun i => sent i ^^^ e i) →
        (OneWire.measureTemperature w vTaskDelay regNum data bus).1 = false := by
  refine ⟨?_, ?_, ?_⟩
  · intro data e hlen hcaught
    have hlen' : (data ++ [crc8 data]).length = e.length := by simp [hlen]
    have hne : corrupted (data ++ [crc8 data]) e ≠ [] := by
      rw [← List.length_pos_iff, corrupted, List.length_zipWith, hlen', hlen]
      omega
    rw [ne_eq, getLast?_eq_crc8_iff hne]
    exact hcaught.rejected hlen' ((crc8_eq_iff data _).mp rfl)
  · intro n e hn hcaught
    rw [← Bool.not_eq_true, RegisterNumber.isCrcValid_iff, ← corrupted_ofFn]
    exact hcaught.rejected (by simp) (n.isCrcValid_iff.mp hn)
  · intro β w vTaskDelay regNum data sent e bus hsent hcaught hread
    rw [← Bool.not_eq_true]
    intro hok
    have hvalid := OneWire.measureTemperature_valid hok
    rw [hread, Scratchpad.isCrcValid_iff, ← corrupted_ofFn] at hvalid
    exact hcaught.rejected (by simp) (sent.isCrcValid_iff.mp hsent) hvalid

/-- A bit of a buffer, two bits of a ROM code, and a bit of a scratchpad of zeros. -/
theorem crc8_catches_three :
    (corrupted ([0x28] ++ [crc8 [0x28]]) [0x01, 0x00]).getLast? ≠
      some (crc8 (corrupted ([0x28] ++ [crc8 [0x28]]) [0x01, 0x00]).dropLast) ∧
    (RegisterNumber.mk fun i => 0 ^^^ if i.val = 3 then 0x81 else 0).isCrcValid = false ∧
    (OneWire.measureTemperature ⟨fun n => (true, n), fun n _ => n, fun n => (n = 5, n + 1)⟩
      (fun _ n => n) ⟨fun _ => 0⟩ (fun _ => 0) 0).1 = false :=
  ⟨crc8_catches.1 [0x28] [0x01, 0x00] rfl (Or.inl (by decide +kernel)),
    crc8_catches.2.1 ⟨fun _ => 0⟩ (fun i => if i.val = 3 then 0x81 else 0) (by decide +kernel)
      (Or.inr (Or.inr (by decide +kernel))),
    crc8_catches.2.2 _ _ _ _ (fun _ => 0) (fun i => if i.val = 0 then 0x20 else 0) _
      (by decide +kernel) (Or.inl (by decide +kernel)) (by decide +kernel)⟩

end EspAcDimmer
