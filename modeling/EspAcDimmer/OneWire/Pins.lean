import EspAcDimmer.OneWire.Simulation

/-! # The 1-Wire master at its pins

`onewire.cpp` down to the callbacks: what it calls, in which order and with what. Only
`m_readPinValueClbk` returns anything, so what happens is decided by the values it returns.

Seen from above, the pins are a wire of time slots, and a search is a search on that wire.
-/

namespace EspAcDimmer

inductive PinMode where
  | input
  | output
deriving DecidableEq

inductive IntMode where
  | intrOn
  | intrOff
deriving DecidableEq

/-- A call of a callback, with its argument or its result. -/
inductive Callback where
  | setPinMode (mode : PinMode)
  | readPinValue (value : Bool)
  | setPinValue (value : Bool)
  | delayMsec (time : Nat)
  | setIntrMode (mode : IntMode)
deriving DecidableEq

/-- What `m_readPinValueClbk` returns at its first call, at its second one and so on, the number of
its calls so far, and all calls of all callbacks. -/
structure Pins where
  samples : Nat → Bool
  sampled : Nat := 0
  calls : List Callback := []

namespace Pins

/-! ## Callbacks -/

def setPinMode (p : Pins) (mode : PinMode) : Pins :=
  { p with calls := p.calls ++ [.setPinMode mode] }

def setPinValue (p : Pins) (value : Bool) : Pins :=
  { p with calls := p.calls ++ [.setPinValue value] }

def delayMsec (p : Pins) (time : Nat) : Pins := { p with calls := p.calls ++ [.delayMsec time] }

def readPinValue (p : Pins) : Bool × Pins :=
  (p.samples p.sampled,
    { p with sampled := p.sampled + 1, calls := p.calls ++ [.readPinValue (p.samples p.sampled)] })

def noInterrupts (p : Pins) : Pins := { p with calls := p.calls ++ [.setIntrMode .intrOff] }

def interrupts (p : Pins) : Pins := { p with calls := p.calls ++ [.setIntrMode .intrOn] }

/-! Only `m_readPinValueClbk` takes a value from the pin. -/

section Samples

variable {p : Pins}

@[simp] theorem samples_setPinMode (mode : PinMode) :
    (p.setPinMode mode).samples = p.samples := rfl

@[simp] theorem samples_setPinValue (value : Bool) :
    (p.setPinValue value).samples = p.samples := rfl

@[simp] theorem samples_delayMsec (time : Nat) : (p.delayMsec time).samples = p.samples := rfl

@[simp] theorem samples_noInterrupts : p.noInterrupts.samples = p.samples := rfl

@[simp] theorem samples_interrupts : p.interrupts.samples = p.samples := rfl

@[simp] theorem sampled_setPinMode (mode : PinMode) :
    (p.setPinMode mode).sampled = p.sampled := rfl

@[simp] theorem sampled_setPinValue (value : Bool) :
    (p.setPinValue value).sampled = p.sampled := rfl

@[simp] theorem sampled_delayMsec (time : Nat) : (p.delayMsec time).sampled = p.sampled := rfl

@[simp] theorem sampled_noInterrupts : p.noInterrupts.sampled = p.sampled := rfl

@[simp] theorem sampled_interrupts : p.interrupts.sampled = p.sampled := rfl

end Samples

/-! What the calls leave of the pin. -/

/-- The last mode set. `begin` sets the first one. -/
def pinMode (p : Pins) : PinMode :=
  p.calls.foldl (fun mode call => match call with | .setPinMode mode => mode | _ => mode) .input

/-- The output latch: the last value set. -/
def pinValue (p : Pins) : Bool :=
  p.calls.foldl (fun value call => match call with | .setPinValue value => value | _ => value) false

section Left

variable {p : Pins}

@[simp] theorem pinMode_setPinMode (mode : PinMode) : (p.setPinMode mode).pinMode = mode := by
  simp [pinMode, setPinMode]

@[simp] theorem pinMode_setPinValue (value : Bool) :
    (p.setPinValue value).pinMode = p.pinMode := by
  simp [pinMode, setPinValue]

@[simp] theorem pinMode_delayMsec (time : Nat) : (p.delayMsec time).pinMode = p.pinMode := by
  simp [pinMode, delayMsec]

@[simp] theorem pinMode_readPinValue : p.readPinValue.2.pinMode = p.pinMode := by
  simp [pinMode, readPinValue]

@[simp] theorem pinMode_noInterrupts : p.noInterrupts.pinMode = p.pinMode := by
  simp [pinMode, noInterrupts]

@[simp] theorem pinMode_interrupts : p.interrupts.pinMode = p.pinMode := by
  simp [pinMode, interrupts]

@[simp] theorem pinValue_setPinMode (mode : PinMode) :
    (p.setPinMode mode).pinValue = p.pinValue := by
  simp [pinValue, setPinMode]

@[simp] theorem pinValue_setPinValue (value : Bool) :
    (p.setPinValue value).pinValue = value := by
  simp [pinValue, setPinValue]

@[simp] theorem pinValue_delayMsec (time : Nat) : (p.delayMsec time).pinValue = p.pinValue := by
  simp [pinValue, delayMsec]

@[simp] theorem pinValue_noInterrupts : p.noInterrupts.pinValue = p.pinValue := by
  simp [pinValue, noInterrupts]

@[simp] theorem pinValue_interrupts : p.interrupts.pinValue = p.pinValue := by
  simp [pinValue, interrupts]

end Left

/-! ## Time slots -/

/-- The four waiting loops of `reset`: `do { if (--retries == 0) return false; ... } while( ... )`.
The retries that are left, none if the loop returned false. -/
def waitFor (level : Bool) (time : Nat) : Nat → Pins → Nat × Pins
  | 0, p => (0, p)
  | retries + 1, p =>
    if retries = 0 then (0, p)
    else
      let (value, p) := (p.delayMsec time).readPinValue
      if value = level then (retries, p) else waitFor level time retries p

def resetPulseUs : Nat := 500

def resetTimeUs : Nat := 1200 - resetPulseUs

def resetStepUs : Nat := 10

/-- `OneWire::reset`. -/
def reset (p : Pins) : Bool × Pins :=
  let p := p.noInterrupts |>.setPinMode .input |>.interrupts
  -- wait until the wire is high
  let (retries, p) := waitFor true resetStepUs (resetTimeUs / resetStepUs) p
  if retries = 0 then (false, p)
  else
    let p := p.noInterrupts |>.setPinValue false |>.setPinMode .output |>.interrupts
      |>.delayMsec resetPulseUs |>.noInterrupts |>.setPinMode .input
    let (retries, p) := waitFor true 2 retries p
    if retries = 0 then (false, p)
    else
      let (retries, p) := waitFor false 2 retries p
      if retries = 0 then (false, p)
      else
        let (retries, p) := waitFor true 2 retries p
        if retries = 0 then (false, p)
        else (true, p.interrupts |>.delayMsec (resetStepUs * retries))

def writeBit (p : Pins) (v : BitVec 8) : Pins :=
  if v &&& 1 ≠ 0 then
    p.noInterrupts |>.setPinValue false |>.setPinMode .output |>.delayMsec 10 |>.setPinValue true
      |>.interrupts |>.delayMsec 55
  else
    p.noInterrupts |>.setPinValue false |>.setPinMode .output |>.delayMsec 65 |>.setPinValue true
      |>.interrupts |>.delayMsec 5

def readBit (p : Pins) : Bool × Pins :=
  let p := p.noInterrupts |>.setPinMode .output |>.setPinValue false |>.delayMsec 3
    |>.setPinMode .input |>.delayMsec 10
  let (r, p) := p.readPinValue
  (r, p.interrupts |>.delayMsec 53)

/-- The time slots as a wire. -/
def slots : Wire Pins where
  reset := reset
  writeBit p v := p.writeBit (if v then 1 else 0)
  readBit := readBit

/-! ## Bytes and commands -/

/-- The end of `write` and `write_bytes`, unless the wire is to stay powered. -/
def release (p : Pins) : Pins :=
  p.noInterrupts |>.setPinMode .input |>.setPinValue false |>.interrupts

def write (p : Pins) (v : BitVec 8) (power : BitVec 8 := 0) : Pins :=
  let p := OneWire.write slots v p
  if power = 0 then p.release else p

/-- `write_bytes`, with the first `count` bytes of `buf`. -/
def writeBytes (p : Pins) (buf : List (BitVec 8)) (power : Bool := false) : Pins :=
  let p := buf.foldl (fun p b => p.write b) p
  if power then p else p.release

def read (p : Pins) : BitVec 8 × Pins := OneWire.read slots p

/-- `read_bytes`, and what it stores in `buf`. -/
def readBytes : Nat → Pins → List (BitVec 8) × Pins
  | 0, p => ([], p)
  | count + 1, p =>
    let (b, p) := p.read
    let (bs, p) := readBytes count p
    (b :: bs, p)

def select (p : Pins) (rom : RomNo) : Pins :=
  (List.finRange 8).foldl (fun p i => p.write (rom i)) (p.write 0x55)

def skip (p : Pins) : Pins := p.write 0xCC

def depower (p : Pins) : Pins := p.noInterrupts |>.setPinMode .input |>.interrupts

/-- `OneWire::search`: what was stored in `newAddr` if it returned true, `none` if it returned
false, and the state left. -/
def search (p : Pins) (ow : OneWire) (searchMode : Bool) :
    Option (Option RomNo × OneWire × Pins) :=
  if ow.lastDeviceFlag then some (none, ow.resetCounters, p)
  else
    let (presence, p) := p.reset
    if presence then
      let p := p.write (if searchMode then 0xF0 else 0xEC)
      (OneWire.searchLoop slots ow.lastDiscrepancy 64
          ⟨1, 0, 0, 1, ow.romNo, ow.lastFamilyDiscrepancy, p⟩).map fun s =>
        let ow := { ow with romNo := s.romNo, lastFamilyDiscrepancy := s.lastFamilyDiscrepancy }
        if s.idBitNumber < 65 then (none, ow.resetCounters, s.bus)  -- the loop was left by break
        else
          let ow := { ow with
            lastDiscrepancy := s.lastZero
            lastDeviceFlag := if s.lastZero = 0 then true else ow.lastDeviceFlag }
          if ow.romNo.familyCode = 0 then (none, ow.resetCounters, s.bus)
          else (some ow.romNo, ow, s.bus)
    else some (none, ow.resetCounters, p)

/-! ## The wire of time slots -/

/-- Pins that return the same from now on, whatever was called before. -/
def SameAhead (p q : Pins) : Prop := p.samples = q.samples ∧ p.sampled = q.sampled

/-- A wait depends on the values that are to come. -/
theorem waitFor_sameAhead (level : Bool) (time retries : Nat) {p q : Pins} (h : p.SameAhead q) :
    (waitFor level time retries p).1 = (waitFor level time retries q).1 ∧
      (waitFor level time retries p).2.SameAhead (waitFor level time retries q).2 := by
  induction retries generalizing p q with
  | zero => exact ⟨rfl, h⟩
  | succ retries ih =>
    rcases h with ⟨hsamples, hsampled⟩
    have hread : (p.delayMsec time).readPinValue.1 = (q.delayMsec time).readPinValue.1 := by
      simp only [delayMsec, readPinValue, hsamples, hsampled]
    have hahead : (p.delayMsec time).readPinValue.2.SameAhead (q.delayMsec time).readPinValue.2 :=
      ⟨hsamples, congrArg (· + 1) hsampled⟩
    unfold waitFor
    split
    · exact ⟨rfl, hsamples, hsampled⟩
    · simp only [hread]
      split
      · exact ⟨rfl, hahead⟩
      · exact ih hahead

/-- So does a reset. -/
theorem reset_sameAhead {p q : Pins} (h : p.SameAhead q) :
    p.reset.1 = q.reset.1 ∧ p.reset.2.SameAhead q.reset.2 := by
  unfold reset
  simp only
  have h₁ : (p.noInterrupts |>.setPinMode .input |>.interrupts).SameAhead
      (q.noInterrupts |>.setPinMode .input |>.interrupts) := by
    simpa [SameAhead] using h
  rcases waitFor_sameAhead true resetStepUs (resetTimeUs / resetStepUs) h₁ with ⟨hretries₁, hwait₁⟩
  rw [hretries₁]
  split
  · exact ⟨rfl, hwait₁⟩
  generalize (waitFor true resetStepUs (resetTimeUs / resetStepUs)
    (p.noInterrupts |>.setPinMode .input |>.interrupts)).2 = p₁ at hwait₁ ⊢
  generalize (waitFor true resetStepUs (resetTimeUs / resetStepUs)
    (q.noInterrupts |>.setPinMode .input |>.interrupts)) = q₁ at hwait₁ ⊢
  have h₂ : (p₁.noInterrupts |>.setPinValue false |>.setPinMode .output |>.interrupts
        |>.delayMsec resetPulseUs |>.noInterrupts |>.setPinMode .input).SameAhead
      (q₁.2.noInterrupts |>.setPinValue false |>.setPinMode .output |>.interrupts
        |>.delayMsec resetPulseUs |>.noInterrupts |>.setPinMode .input) := by
    simpa [SameAhead] using hwait₁
  rcases waitFor_sameAhead true 2 q₁.1 h₂ with ⟨hretries₂, hwait₂⟩
  rw [hretries₂]
  split
  · exact ⟨rfl, hwait₂⟩
  rcases waitFor_sameAhead false 2 _ hwait₂ with ⟨hretries₃, hwait₃⟩
  rw [hretries₃]
  split
  · exact ⟨rfl, hwait₃⟩
  rcases waitFor_sameAhead true 2 _ hwait₃ with ⟨hretries₄, hwait₄⟩
  rw [hretries₄]
  split
  · exact ⟨rfl, hwait₄⟩
  · exact ⟨rfl, hwait₄⟩

/-- A bit written reads none of them. -/
theorem writeBit_sameAhead (v : BitVec 8) {p q : Pins} (h : p.SameAhead q) :
    (p.writeBit v).SameAhead (q.writeBit v) := by
  unfold writeBit
  split
  · simpa [SameAhead] using h
  · simpa [SameAhead] using h

/-- A bit read takes the next one. -/
theorem readBit_sameAhead {p q : Pins} (h : p.SameAhead q) :
    p.readBit.1 = q.readBit.1 ∧ p.readBit.2.SameAhead q.readBit.2 := by
  rcases h with ⟨hsamples, hsampled⟩
  simp [readBit, readPinValue, SameAhead, hsamples, hsampled]

/-- The slots answer alike to pins that return the same. -/
theorem slots_sim : WireSim slots slots SameAhead where
  reset _ _ h := reset_sameAhead h
  writeBit _ _ _ h := writeBit_sameAhead _ h
  readBit _ _ h := readBit_sameAhead h

/-- Letting go of the wire reads nothing. -/
theorem write_sameAhead (v power : BitVec 8) (p : Pins) :
    (p.write v power).SameAhead (OneWire.write slots v p) := by
  unfold write
  simp only
  split
  · simp [release, SameAhead]
  · exact ⟨rfl, rfl⟩

/-- A search at the pins is a search on the wire of time slots: it returns the same and leaves the
same state, though it lets go of the wire after its command. -/
theorem search_slots (p : Pins) (ow : OneWire) (searchMode : Bool) :
    ∃ found ow' p' q', p.search ow searchMode = some (found, ow', p') ∧
      ow.search slots searchMode p = some (found, ow', q') ∧ p'.SameAhead q' := by
  have heq : p.search ow searchMode =
      if ow.lastDeviceFlag then some (none, ow.resetCounters, p)
      else if p.reset.1 then
        OneWire.searchWalk slots ow (p.reset.2.write (OneWire.searchCommand searchMode))
      else some (none, ow.resetCounters, p.reset.2) := rfl
  rw [heq, OneWire.search_eq]
  by_cases hflag : ow.lastDeviceFlag = true
  · rw [if_pos hflag, if_pos hflag]
    exact ⟨_, _, _, _, rfl, rfl, rfl, rfl⟩
  rw [if_neg hflag, if_neg hflag]
  show ∃ found ow' p' q', (if p.reset.1 then _ else _) = _ ∧ (if p.reset.1 then _ else _) = _ ∧ _
  by_cases hpresence : p.reset.1 = true
  · rw [if_pos hpresence, if_pos hpresence]
    have hsame : OneWire.Same (fun _ => True) ow ow := ⟨rfl, rfl, rfl, fun _ _ _ => rfl⟩
    have hrelease : (p.reset.2.write (OneWire.searchCommand searchMode)).SameAhead
        (OneWire.write slots (OneWire.searchCommand searchMode) p.reset.2) :=
      write_sameAhead _ 0 _
    obtain ⟨r, r', hr, hr', hend⟩ :=
      OneWire.searchWalk_alike slots_sim hsame (fun _ _ => trivial) hrelease
    refine ⟨r.1, r.2.1, r.2.2, r'.2.2, hr, ?_, hend.bus⟩
    rw [hend.found, hend.same.eq]
    exact hr'
  · rw [if_neg hpresence, if_neg hpresence]
    exact ⟨_, _, _, _, rfl, rfl, rfl, rfl⟩

end Pins

end EspAcDimmer
