import EspAcDimmer.OneWire.Presence

/-! # How long the time slots take

The delays that the code asks for, in microseconds: the callback for them is `ets_delay_us`. A bit
takes the same whatever is on the wire; a reset takes what its waits take, but its retries bound it.
-/

namespace EspAcDimmer

/-- The time slot of a bit written. -/
def writeBitUs (v : Bool) : Nat := if v then 65 else 70

/-- The time slot of a bit read. -/
def readBitUs : Nat := 66

/-- The most that a reset takes. -/
def resetMaxUs : Nat := 1200

namespace Pins

variable {p : Pins}

/-- All delays asked for so far. -/
def requestedUs (p : Pins) : Nat :=
  p.calls.foldl (fun us call => match call with | .delayMsec time => us + time | _ => us) 0

@[simp] theorem requestedUs_setPinMode (mode : PinMode) :
    (p.setPinMode mode).requestedUs = p.requestedUs := by
  simp [requestedUs, setPinMode]

@[simp] theorem requestedUs_setPinValue (value : Bool) :
    (p.setPinValue value).requestedUs = p.requestedUs := by
  simp [requestedUs, setPinValue]

@[simp] theorem requestedUs_delayMsec (time : Nat) :
    (p.delayMsec time).requestedUs = p.requestedUs + time := by
  simp [requestedUs, delayMsec]

@[simp] theorem requestedUs_readPinValue :
    p.readPinValue.2.requestedUs = p.requestedUs := by
  simp [requestedUs, readPinValue]

@[simp] theorem requestedUs_noInterrupts : p.noInterrupts.requestedUs = p.requestedUs := by
  simp [requestedUs, noInterrupts]

@[simp] theorem requestedUs_interrupts : p.interrupts.requestedUs = p.requestedUs := by
  simp [requestedUs, interrupts]

theorem requestedUs_writeBit (p : Pins) (v : Bool) :
    (slots.writeBit p v).requestedUs = p.requestedUs + writeBitUs v := by
  cases v <;> simp [slots, writeBit, writeBitUs, Nat.add_assoc]

theorem requestedUs_readBit (p : Pins) :
    (slots.readBit p).2.requestedUs = p.requestedUs + readBitUs := by
  simp [slots, readBit, readBitUs, Nat.add_assoc]

/-- Letting go of the wire takes no time. -/
theorem requestedUs_release (p : Pins) : p.release.requestedUs = p.requestedUs := by
  simp [release]

/-- A wait gives no retries back. -/
theorem waitFor_le (level : Bool) (time retries : Nat) (p : Pins) :
    (waitFor level time retries p).1 ≤ retries := by
  induction retries generalizing p with
  | zero => exact Nat.le_refl 0
  | succ retries ih =>
    unfold waitFor
    split
    · exact Nat.zero_le _
    · simp only
      split
      · exact Nat.le_succ retries
      · exact Nat.le_succ_of_le (ih _)

/-- A retry that is used up takes one step of the wait. -/
theorem requestedUs_waitFor (level : Bool) (time retries : Nat) (p : Pins) :
    (waitFor level time retries p).2.requestedUs + time * ((waitFor level time retries p).1 - 1) =
      p.requestedUs + time * (retries - 1) := by
  induction retries generalizing p with
  | zero => rfl
  | succ retries ih =>
    unfold waitFor
    split
    · next h =>
      subst h
      rfl
    · have hpos : time * retries = time * (retries - 1) + time := by
        rw [← Nat.mul_succ]
        congr 1
        omega
      simp only [Nat.add_sub_cancel, hpos]
      split
      · simp only [requestedUs_readPinValue, requestedUs_delayMsec]
        omega
      · rw [ih, requestedUs_readPinValue, requestedUs_delayMsec]
        omega

/-- Every retry is used up by a wait, whose steps are 10 us at most, or is waited for at the end. -/
theorem requestedUs_reset (p : Pins) : p.reset.2.requestedUs ≤ p.requestedUs + resetMaxUs := by
  let before : Nat → Pins → Prop := fun retries q =>
    q.requestedUs + 10 * (retries - 1) = p.requestedUs + 690
  let after : Nat → Pins → Prop := fun retries q =>
    q.requestedUs + 10 * (retries - 1) ≤ p.requestedUs + 1190
  have hstart : before (resetTimeUs / resetStepUs) p.idled := by
    show p.idled.requestedUs + 690 = p.requestedUs + 690
    simp [idled]
  have hidle : ∀ retries q, before retries q → before (waitFor true resetStepUs retries q).1
      (waitFor true resetStepUs retries q).2 :=
    fun retries q hbefore => (requestedUs_waitFor true resetStepUs retries q).trans hbefore
  have hpulse : ∀ retries q, before retries q → after retries q.pulsed := by
    intro retries q hbefore
    have hus : q.pulsed.requestedUs = q.requestedUs + 500 := by simp [pulsed, resetPulseUs]
    simp only [before] at hbefore
    simp only [after]
    omega
  have hwait : ∀ level retries q, after retries q → after (waitFor level 2 retries q).1
      (waitFor level 2 retries q).2 := by
    intro level retries q hafter
    have hus := requestedUs_waitFor level 2 retries q
    have hle := waitFor_le level 2 retries q
    simp only [after] at hafter ⊢
    omega
  unfold resetMaxUs
  rcases reset_keeps hstart hidle hpulse hwait with hzero | ⟨retries, q, hpos, hafter, hreset⟩
  · simp only [before, after] at hzero
    omega
  · simp only [after] at hafter
    rw [hreset, requestedUs_delayMsec, requestedUs_interrupts, resetStepUs]
    omega

end Pins

end EspAcDimmer
