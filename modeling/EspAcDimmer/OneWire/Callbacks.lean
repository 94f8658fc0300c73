import EspAcDimmer.OneWire.TemperatureSensor

/-! # The callbacks of a `OneWire`

A `OneWire` reaches its pin through the functions that its constructor is given, and knows nothing
of what is behind them. `Pins` has behind them a record of the calls and what the pin will return;
whatever else is behind them, the methods are the same code.
-/

namespace EspAcDimmer

/-- What the constructor is given, with the state that these functions share. -/
structure Callbacks (σ : Type) where
  setPinMode : σ → PinMode → σ
  readPinValue : σ → Bool × σ
  setPinValue : σ → Bool → σ
  delayMsec : σ → Nat → σ
  setIntrMode : σ → IntMode → σ

namespace Callbacks

variable {σ : Type} (c : Callbacks σ)

def noInterrupts (s : σ) : σ := c.setIntrMode s .intrOff

def interrupts (s : σ) : σ := c.setIntrMode s .intrOn

/-- The waiting loops of `reset`, and the retries that are left. -/
def waitFor (level : Bool) (time : Nat) : Nat → σ → Nat × σ
  | 0, s => (0, s)
  | retries + 1, s =>
    if retries = 0 then (0, s)
    else
      let (value, s) := c.readPinValue (c.delayMsec s time)
      if value = level then (retries, s) else waitFor level time retries s

/-- `OneWire::reset`. -/
def reset (s : σ) : Bool × σ :=
  let s := c.interrupts (c.setPinMode (c.noInterrupts s) .input)
  -- wait until the wire is high
  let (retries, s) := c.waitFor true Pins.resetStepUs (Pins.resetTimeUs / Pins.resetStepUs) s
  if retries = 0 then (false, s)
  else
    let s := c.interrupts (c.setPinMode (c.setPinValue (c.noInterrupts s) false) .output)
    let s := c.setPinMode (c.noInterrupts (c.delayMsec s Pins.resetPulseUs)) .input
    let (retries, s) := c.waitFor true 2 retries s
    if retries = 0 then (false, s)
    else
      let (retries, s) := c.waitFor false 2 retries s
      if retries = 0 then (false, s)
      else
        let (retries, s) := c.waitFor true 2 retries s
        if retries = 0 then (false, s)
        else (true, c.delayMsec (c.interrupts s) (Pins.resetStepUs * retries))

/-- `OneWire::write_bit`. -/
def writeBit (s : σ) (v : BitVec 8) : σ :=
  let s := c.setPinMode (c.setPinValue (c.noInterrupts s) false) .output
  if v &&& 1 ≠ 0 then
    c.delayMsec (c.interrupts (c.setPinValue (c.delayMsec s 10) true)) 55
  else
    c.delayMsec (c.interrupts (c.setPinValue (c.delayMsec s 65) true)) 5

/-- `OneWire::read_bit`. -/
def readBit (s : σ) : Bool × σ :=
  let s := c.setPinValue (c.setPinMode (c.noInterrupts s) .output) false
  let s := c.delayMsec (c.setPinMode (c.delayMsec s 3) .input) 10
  let (r, s) := c.readPinValue s
  (r, c.delayMsec (c.interrupts s) 53)

/-- The time slots as a wire. -/
def slots : Wire σ where
  reset := c.reset
  writeBit s v := c.writeBit s (if v then 1 else 0)
  readBit := c.readBit

/-- The end of `write` and `write_bytes`, unless the wire is to stay powered. -/
def release (s : σ) : σ :=
  c.interrupts (c.setPinValue (c.setPinMode (c.noInterrupts s) .input) false)

/-! ## Bytes and commands -/

def write (s : σ) (v : BitVec 8) (power : BitVec 8 := 0) : σ :=
  let s := OneWire.write c.slots v s
  if power = 0 then c.release s else s

def select (s : σ) (rom : RomNo) : σ :=
  (List.finRange 8).foldl (fun s i => c.write s (rom i)) (c.write s 0x55)

/-- `OneWire::search`. -/
def search (ow : OneWire) (searchMode : Bool) (s : σ) : Option (Option RomNo × OneWire × σ) :=
  if ow.lastDeviceFlag then some (none, ow.resetCounters, s)
  else
    let (presence, s) := c.reset s
    if presence then
      let s := c.write s (OneWire.searchCommand searchMode)
      OneWire.searchWalk c.slots ow s
    else some (none, ow.resetCounters, s)

/-- `measureTemperature`. -/
def measureTemperature (vTaskDelay : Nat → σ → σ) (regNum : RegisterNumber) (data : Scratchpad)
    (s : σ) : Bool × Scratchpad × σ :=
  let (presence, s) := c.reset s
  if !presence then (false, data, s)
  else
    let s := c.select s regNum.romData
    let s := c.write s 0x44 1  -- with parasite power on at the end
    let s := vTaskDelay (msecToSysTick 10) s
    let (presence, s) := c.reset s
    if !presence then (false, data, s)
    else
      let s := c.select s regNum.romData
      let s := c.write s 0xBE
      let (data, s) := OneWire.readData c.slots data s
      if !data.isCrcValid then (false, data, s) else (true, data, s)

/-- What `measureTemperature` does after its first reset. -/
def startConversion (vTaskDelay : Nat → σ → σ) (regNum : RegisterNumber) (s : σ) : σ :=
  vTaskDelay (msecToSysTick 10) (c.write (c.select s regNum.romData) 0x44 1)

/-- What it does after the second one. -/
def readScratchpad (regNum : RegisterNumber) (data : Scratchpad) (s : σ) : Scratchpad × σ :=
  OneWire.readData c.slots data (c.write (c.select s regNum.romData) 0xBE)

/-- A measurement is two commands, each behind a reset that finds somebody. -/
theorem measureTemperature_eq (vTaskDelay : Nat → σ → σ) (regNum : RegisterNumber)
    (data : Scratchpad) (s : σ) :
    c.measureTemperature vTaskDelay regNum data s =
      let first := c.reset s
      let second := c.reset (c.startConversion vTaskDelay regNum first.2)
      let read := c.readScratchpad regNum data second.2
      if first.1 = false then (false, data, first.2)
      else if second.1 = false then (false, data, second.2)
      else (read.1.isCrcValid, read) := by
  unfold measureTemperature startConversion readScratchpad
  simp only [← Scratchpad.check_eq, ← Bool.not_eq_true']

end Callbacks

/-! ## The pins -/

namespace Pins

/-- The callbacks that record their calls. -/
def callbacks : Callbacks Pins where
  setPinMode := setPinMode
  readPinValue := readPinValue
  setPinValue := setPinValue
  delayMsec := delayMsec
  setIntrMode p mode :=
    match mode with
    | .intrOff => p.noInterrupts
    | .intrOn => p.interrupts

/-- The waiting loops are those of the pins. -/
theorem waitFor_callbacks (level : Bool) (time retries : Nat) (p : Pins) :
    callbacks.waitFor level time retries p = waitFor level time retries p := by
  induction retries generalizing p with
  | zero => rfl
  | succ retries ih =>
    simp only [Callbacks.waitFor, waitFor, ih]
    rfl

/-- The time slots are those of the pins. -/
theorem slots_callbacks : callbacks.slots = slots := by
  have hreset : callbacks.reset = reset := by
    funext p
    simp only [Callbacks.reset, reset, waitFor_callbacks]
    rfl
  have hwrite : callbacks.writeBit = writeBit := by
    funext p v
    unfold Callbacks.writeBit writeBit
    split <;> rfl
  simp only [Callbacks.slots, slots, hreset, hwrite]
  rfl

theorem write_callbacks (p : Pins) (v power : BitVec 8) :
    callbacks.write p v power = p.write v power := by
  rw [Callbacks.write, slots_callbacks]
  rfl

/-- With these callbacks a search is a search at the pins. -/
theorem search_callbacks (p : Pins) (ow : OneWire) (searchMode : Bool) :
    callbacks.search ow searchMode p = p.search ow searchMode := by
  have hreset : callbacks.reset = reset := congrArg Wire.reset slots_callbacks
  simp only [Callbacks.search, hreset, write_callbacks, slots_callbacks]
  rfl

/-- With these callbacks a measurement is a measurement at the pins. -/
theorem measureTemperature_callbacks (p : Pins) (regNum : RegisterNumber) (data : Scratchpad) :
    callbacks.measureTemperature (fun _ p => p) regNum data p =
      p.measureTemperature regNum data := by
  have hreset : callbacks.reset = reset := congrArg Wire.reset slots_callbacks
  have hselect : callbacks.select = select := by
    funext p rom
    simp only [Callbacks.select, write_callbacks]
    rfl
  have hread : OneWire.readData slots data = fun p => p.readData data := rfl
  unfold Callbacks.measureTemperature measureTemperature
  simp only [hreset, hselect, hread, write_callbacks, slots_callbacks]

end Pins

end EspAcDimmer
