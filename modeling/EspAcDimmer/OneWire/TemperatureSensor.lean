import EspAcDimmer.OneWire.Crc
import EspAcDimmer.OneWire.Pins

/-! # The driver of the thermometers

`DS18B20_TemperatureSensor::measureTemperature`, which the other class of thermometers inherits: on
any wire of time slots, and at the pins. The integers that the two versions of `getCelsius` divide
are here too.
-/

namespace EspAcDimmer

variable {β γ : Type} {w : Wire β} {v : Wire γ} {R : β → γ → Prop}

/-- `std::uint8_t m_data[9]`. -/
abbrev Scratchpad := Fin 9 → BitVec 8

/-- `crc8(m_data, 8) == m_data[8]`. -/
def Scratchpad.isCrcValid (data : Scratchpad) : Bool :=
  crc8 ((List.ofFn data).take 8) = data 8

/-- `std::uint8_t cfg` of `getCelsius`. -/
def Scratchpad.cfg (data : Scratchpad) : BitVec 8 := data 4 &&& 0x60

/-- `std::int16_t raw = (m_data[1] << 8) | m_data[0]`: an `int` has 32 bits, and an `std::int16_t`
keeps the low 16 of one. -/
def Scratchpad.raw (data : Scratchpad) : BitVec 16 :=
  ((data 1).setWidth 32 <<< 8 ||| (data 0).setWidth 32).setWidth 16

/-- `raw` in `DS18B20_TemperatureSensor::getCelsius`, before the division. -/
def Scratchpad.raw12 (data : Scratchpad) : BitVec 16 :=
  let raw := data.raw.signExtend 32
  -- at lower resolutions the low bits are undefined
  if data.cfg = 0x00 then (raw &&& ~~~7#32).setWidth 16
  else if data.cfg = 0x20 then (raw &&& ~~~3#32).setWidth 16
  else if data.cfg = 0x40 then (raw &&& ~~~1#32).setWidth 16
  else data.raw

/-- `raw` in `DS18S20_DS18S20_TemperatureSensor::getCelsius`, before the division. -/
def Scratchpad.raw9 (data : Scratchpad) : BitVec 16 :=
  let raw := (data.raw.signExtend 32 <<< 3).setWidth 16
  if data 7 = 0x10 then
    -- the count that remains gives the full resolution
    ((raw.signExtend 32 &&& 0xFFF0) + 12 - (data 6).setWidth 32).setWidth 16
  else raw

/-- The check decides what is returned, and nothing else. -/
theorem Scratchpad.check_eq (read : Scratchpad × β) :
    (if !read.1.isCrcValid then (false, read.1, read.2) else (true, read.1, read.2)) =
      (read.1.isCrcValid, read) := by
  cases read.1.isCrcValid <;> rfl

/-- `portTICK_PERIOD_MS`, with `CONFIG_FREERTOS_HZ=100`. -/
def portTickPeriodMs : Nat := 1000 / 100

def msecToSysTick (timeInMs : Nat) : Nat := timeInMs / portTickPeriodMs

namespace OneWire

/-- The loop that fills `m_data`. -/
def readData (w : Wire β) (data : Scratchpad) (bus : β) : Scratchpad × β :=
  (List.finRange 9).foldl
    (fun (data, bus) i =>
      let (b, bus) := read w bus
      (Function.update data i b, bus))
    (data, bus)

/-- `measureTemperature`: what it returns, `m_data`, and the bus. -/
def measureTemperature (w : Wire β) (vTaskDelay : Nat → β → β) (regNum : RegisterNumber)
    (data : Scratchpad) (bus : β) : Bool × Scratchpad × β :=
  let (presence, bus) := w.reset bus
  if !presence then (false, data, bus)  -- "1 Presence is absent!"
  else
    let bus := select w regNum.romData bus
    let bus := write w 0x44 bus  -- start conversion
    let bus := vTaskDelay (msecToSysTick 10) bus
    let (presence, bus) := w.reset bus
    if !presence then (false, data, bus)  -- "2 Presence is absent!"
    else
      let bus := select w regNum.romData bus
      let bus := write w 0xBE bus  -- read scratchpad
      let (data, bus) := readData w data bus
      if !data.isCrcValid then (false, data, bus) else (true, data, bus)

/-- What `measureTemperature` does after its first reset. -/
def startConversion (w : Wire β) (vTaskDelay : Nat → β → β) (regNum : RegisterNumber) (bus : β) :
    β :=
  vTaskDelay (msecToSysTick 10) (write w 0x44 (select w regNum.romData bus))

/-- What it does after the second one. -/
def readScratchpad (w : Wire β) (regNum : RegisterNumber) (data : Scratchpad) (bus : β) :
    Scratchpad × β :=
  readData w data (write w 0xBE (select w regNum.romData bus))

/-- A measurement is two commands, each behind a reset that finds somebody. -/
theorem measureTemperature_eq (w : Wire β) (vTaskDelay : Nat → β → β) (regNum : RegisterNumber)
    (data : Scratchpad) (bus : β) :
    measureTemperature w vTaskDelay regNum data bus =
      let first := w.reset bus
      let second := w.reset (startConversion w vTaskDelay regNum first.2)
      let read := readScratchpad w regNum data second.2
      if first.1 = false then (false, data, first.2)
      else if second.1 = false then (false, data, second.2)
      else (read.1.isCrcValid, read) := by
  simp only [← Scratchpad.check_eq, ← Bool.not_eq_true']
  rfl

/-- `measureTemperature` returns true only with a scratchpad that passes the check. -/
theorem measureTemperature_valid {w : Wire β} {vTaskDelay : Nat → β → β}
    {regNum : RegisterNumber} {data : Scratchpad} {bus : β}
    (h : (measureTemperature w vTaskDelay regNum data bus).1 = true) :
    (measureTemperature w vTaskDelay regNum data bus).2.1.isCrcValid = true := by
  rw [measureTemperature_eq] at h ⊢
  simp only at h ⊢
  split at h
  · exact Bool.noConfusion h
  · next hfirst =>
    rw [if_neg hfirst]
    split at h
    · exact Bool.noConfusion h
    · next hsecond =>
      rw [if_neg hsecond]
      exact h

end OneWire

namespace Pins

def readData (p : Pins) (data : Scratchpad) : Scratchpad × Pins :=
  (List.finRange 9).foldl
    (fun (data, p) i =>
      let (b, p) := p.read
      (Function.update data i b, p))
    (data, p)

/-- `measureTemperature` at the pins, which `vTaskDelay` does not touch. -/
def measureTemperature (p : Pins) (regNum : RegisterNumber) (data : Scratchpad) :
    Bool × Scratchpad × Pins :=
  let (presence, p) := p.reset
  if !presence then (false, data, p)
  else
    let p := p.select regNum.romData
    let p := p.write 0x44 1  -- with parasite power on at the end
    let (presence, p) := p.reset
    if !presence then (false, data, p)
    else
      let p := p.select regNum.romData
      let p := p.write 0xBE
      let (data, p) := p.readData data
      if !data.isCrcValid then (false, data, p) else (true, data, p)

end Pins

/-! ## From the wire to the pins -/

/-- A byte read from both wires is the same. -/
theorem WireSim.read (h : WireSim w v R) {a : β} {b : γ} (hab : R a b) :
    (OneWire.read w a).1 = (OneWire.read v b).1 ∧ R (OneWire.read w a).2 (OneWire.read v b).2 := by
  unfold OneWire.read
  generalize (0 : BitVec 8) = r
  induction OneWire.bitMasks generalizing a b r with
  | nil => exact ⟨rfl, hab⟩
  | cons mask masks ih =>
    rcases h.readBit _ _ hab with ⟨hbit, hbus⟩
    simp only [List.foldl_cons, hbit]
    exact ih hbus _

/-- So is a scratchpad. -/
theorem WireSim.readData (h : WireSim w v R) {a : β} {b : γ} (hab : R a b) (data : Scratchpad) :
    (OneWire.readData w data a).1 = (OneWire.readData v data b).1 ∧
      R (OneWire.readData w data a).2 (OneWire.readData v data b).2 := by
  unfold OneWire.readData
  induction List.finRange 9 generalizing a b data with
  | nil => exact ⟨rfl, hab⟩
  | cons i is ih =>
    rcases h.read hab with ⟨hbyte, hbus⟩
    simp only [List.foldl_cons, hbyte]
    exact ih hbus _

namespace Pins

/-- A byte at the pins is a byte on the wire of time slots. -/
theorem write_sim (b power : BitVec 8) {p q : Pins} (h : p.SameAhead q) :
    (p.write b power).SameAhead (OneWire.write slots b q) := by
  rcases write_sameAhead b power p with ⟨hsamples, hsampled⟩
  rcases slots_sim.write h b with ⟨hsamples', hsampled'⟩
  exact ⟨hsamples.trans hsamples', hsampled.trans hsampled'⟩

/-- So is a selection. -/
theorem select_sim (rom : RomNo) {p q : Pins} (h : p.SameAhead q) :
    (p.select rom).SameAhead (OneWire.select slots rom q) := by
  unfold select OneWire.select
  have hstart := write_sim 0x55 0 h
  generalize p.write 0x55 = p at hstart
  generalize OneWire.write slots 0x55 q = q at hstart
  induction List.finRange 8 generalizing p q with
  | nil => exact hstart
  | cons i is ih => exact ih _ _ (write_sim (rom i) 0 hstart)

/-- The driver at the pins is the driver on the wire of time slots. -/
theorem measureTemperature_slots (p : Pins) (regNum : RegisterNumber) (data : Scratchpad) :
    ∃ ok data' p' q', p.measureTemperature regNum data = (ok, data', p') ∧
      OneWire.measureTemperature slots (fun _ p => p) regNum data p = (ok, data', q') ∧
      p'.SameAhead q' := by
  have heq : p.measureTemperature regNum data =
      let first := p.reset
      let second := ((first.2.select regNum.romData).write 0x44 1).reset
      let read := ((second.2.select regNum.romData).write 0xBE).readData data
      if first.1 = false then (false, data, first.2)
      else if second.1 = false then (false, data, second.2)
      else (read.1.isCrcValid, read) := by
    unfold measureTemperature
    simp only [← Scratchpad.check_eq, ← Bool.not_eq_true']
  rw [OneWire.measureTemperature_eq, heq]
  simp only [show slots.reset = reset from rfl]
  split
  · exact ⟨_, _, _, _, rfl, rfl, rfl, rfl⟩
  -- what `write` does behind its bits is not seen by the second reset
  have hstart : ((p.reset.2.select regNum.romData).write 0x44 1).SameAhead
      (OneWire.startConversion slots (fun _ p => p) regNum p.reset.2) :=
    write_sim 0x44 1 (select_sim regNum.romData ⟨rfl, rfl⟩)
  rcases reset_sameAhead hstart with ⟨hpresence, hreset⟩
  rw [← hpresence]
  split
  · exact ⟨_, _, _, _, rfl, rfl, hreset⟩
  have hfetch := write_sim 0xBE 0 (select_sim regNum.romData hreset)
  unfold OneWire.readScratchpad
  generalize (Pins.select _ _).write 0xBE = p₁ at hfetch ⊢
  generalize OneWire.write slots 0xBE _ = q₁ at hfetch ⊢
  have hread := slots_sim.readData hfetch data
  rw [show p₁.readData data = OneWire.readData slots data p₁ from rfl]
  generalize OneWire.readData slots data p₁ = r at hread ⊢
  generalize OneWire.readData slots data q₁ = r' at hread ⊢
  exact ⟨_, r.1, r.2, r'.2, rfl, by rw [hread.1], hread.2⟩

end Pins

end EspAcDimmer
