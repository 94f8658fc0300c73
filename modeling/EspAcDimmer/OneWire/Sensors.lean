import EspAcDimmer.OneWire.Recovery
import EspAcDimmer.OneWire.TemperatureSensor
import EspAcDimmer.OneWire.Timing

/-! # A bus of thermometers

Thermometers that know the commands of `measureTemperature`, and a bus whose clock goes on by the
delays that the code asks for. A conversion takes as long as the comments of `getCelsius` say, and
until it is over the scratchpad is the previous one.
-/

namespace EspAcDimmer

open BitTrie Crc

/-! ## Sensors -/

inductive Resolution where
  | bits9
  | bits10
  | bits11
  | bits12
deriving DecidableEq

/-- How long a conversion takes, in microseconds. -/
def Resolution.conversionUs : Resolution → Nat
  | bits9 => 93750
  | bits10 => 187500
  | bits11 => 375000
  | bits12 => 750000

/-- No conversion takes less than 93.75 ms. -/
theorem Resolution.conversionUs_ge (r : Resolution) : 93750 ≤ r.conversionUs := by
  cases r <;> decide

/-- What a sensor has received since the reset, or is about to send. -/
inductive Phase where
  | romCommand (received : List Bool)
  | matchRom (k : Nat)
  | functionCommand (received : List Bool)
  | transmit (data : Scratchpad) (k : Nat)
  /-- Until the next reset. -/
  | silent

/-- A bit of the scratchpad, and ones behind its end. -/
def Scratchpad.bit (data : Scratchpad) (k : Nat) : Bool :=
  ((List.ofFn data).getD (k / 8) 0xFF).getLsbD (k % 8)

structure Sensor where
  resolution : Resolution
  scratchpad : Scratchpad
  /-- When the conversion under way is over, and what it puts into the scratchpad. -/
  converting : Option (Nat × Scratchpad)
  /-- What a conversion finds that is started at this time. -/
  result : Nat → Scratchpad
  phase : Phase

namespace Sensor

/-- The scratchpad at this time. -/
def scratchpadAt (s : Sensor) (clock : Nat) : Scratchpad :=
  match s.converting with
  | none => s.scratchpad
  | some (due, data) => if due ≤ clock then data else s.scratchpad

def toPhase (s : Sensor) (phase : Phase) : Sensor := { s with phase := phase }

@[simp] theorem phase_toPhase (s : Sensor) (phase : Phase) : (s.toPhase phase).phase = phase := rfl

@[simp] theorem toPhase_toPhase (s : Sensor) (phase phase' : Phase) :
    (s.toPhase phase).toPhase phase' = s.toPhase phase' := rfl

theorem toPhase_of_phase {s : Sensor} {phase : Phase} (h : s.phase = phase) :
    s.toPhase phase = s := by
  subst h
  rfl

/-- Command 0x44. -/
def convert (s : Sensor) (clock : Nat) : Sensor :=
  { s with
    scratchpad := s.scratchpadAt clock
    converting := some (clock + s.resolution.conversionUs, s.result clock)
    phase := .silent }

/-- Until the conversion is over the scratchpad stays what it was. -/
theorem scratchpadAt_convert (s : Sensor) (start clock : Nat) :
    (s.convert start).scratchpadAt clock =
      if start + s.resolution.conversionUs ≤ clock then s.result start
      else s.scratchpadAt start := rfl

def romCommand (s : Sensor) (received : List Bool) : Sensor :=
  s.toPhase (if received = bits (0x55 : BitVec 8) then .matchRom 0 else .silent)

def functionCommand (s : Sensor) (clock : Nat) (received : List Bool) : Sensor :=
  if received = bits (0x44 : BitVec 8) then s.convert clock
  else if received = bits (0xBE : BitVec 8) then s.toPhase (.transmit (s.scratchpadAt clock) 0)
  else s.toPhase .silent

/-- The sensor `rom` when a bit was written. -/
def writeSlot (rom : RomNo) (clock : Nat) (s : Sensor) (v : Bool) : Sensor :=
  match s.phase with
  | .romCommand received =>
    if received.length + 1 < 8 then s.toPhase (.romCommand (received ++ [v]))
    else s.romCommand (received ++ [v])
  | .matchRom k =>
    if rom.bit k = v then
      s.toPhase (if k + 1 < 64 then .matchRom (k + 1) else .functionCommand [])
    else s.toPhase .silent
  | .functionCommand received =>
    if received.length + 1 < 8 then s.toPhase (.functionCommand (received ++ [v]))
    else s.functionCommand clock (received ++ [v])
  | .transmit _ _ | .silent => s.toPhase .silent

/-- What a sensor sends when a bit is read; a 1 if it has nothing to say. -/
def sends (s : Sensor) : Bool :=
  match s.phase with
  | .transmit data k => data.bit k
  | _ => true

def readSlot (s : Sensor) : Sensor :=
  match s.phase with
  | .transmit data k => s.toPhase (.transmit data (k + 1))
  | _ => s.toPhase .silent

end Sensor

/-! ## The bus -/

/-- How long a reset takes that starts at this time. -/
structure ResetTime where
  us : Nat → Nat
  us_le : ∀ clock, us clock ≤ resetMaxUs

structure SensorBus where
  /-- In microseconds. -/
  clock : Nat
  sensor : RomNo → Sensor

/-- The wire to the sensors `S`. -/
def sensorWire (S : Finset RomNo) (time : ResetTime) : Wire SensorBus where
  reset bus := (decide S.Nonempty,
    ⟨bus.clock + time.us bus.clock, fun rom => (bus.sensor rom).toPhase (.romCommand [])⟩)
  writeBit bus v :=
    let clock := bus.clock + writeBitUs v
    ⟨clock, fun rom => (bus.sensor rom).writeSlot rom clock v⟩
  readBit bus := (andOf S fun rom => (bus.sensor rom).sends,
    ⟨bus.clock + readBitUs, fun rom => (bus.sensor rom).readSlot⟩)

/-- `vTaskDelay`, with the ticks of `portTICK_PERIOD_MS`. -/
def SensorBus.vTaskDelay (ticks : Nat) (bus : SensorBus) : SensorBus :=
  { bus with clock := bus.clock + ticks * (portTickPeriodMs * 1000) }

variable {S : Finset RomNo} {time : ResetTime} {rom target : RomNo} {bus : SensorBus}

/-! ## Bits written -/

theorem romBits_eq (rom : RomNo) :
    (List.finRange 8).flatMap (fun i => byteBits (rom i)) = (List.range 64).map rom.bit := rfl

/-- A ROM code is written bit by bit, behind its command. -/
theorem select_eq_foldl {β : Type} (w : Wire β) (rom : RomNo) (bus : β) :
    OneWire.select w rom bus =
      ((List.range 64).map rom.bit).foldl w.writeBit (OneWire.write w 0x55 bus) := by
  rw [← romBits_eq, List.foldl_flatMap]
  unfold OneWire.select
  simp only [write_eq_foldl]

namespace SensorBus

/-- The state after these bits were written. -/
def written (S : Finset RomNo) (time : ResetTime) (bus : SensorBus) (bs : List Bool) : SensorBus :=
  bs.foldl (sensorWire S time).writeBit bus

@[simp] theorem written_nil : bus.written S time [] = bus := rfl

@[simp] theorem written_cons (b : Bool) (bs : List Bool) : bus.written S time (b :: bs) =
    ((sensorWire S time).writeBit bus b).written S time bs := rfl

/-- A bit takes 65 or 70 us. -/
theorem clock_written (S : Finset RomNo) (time : ResetTime) (bus : SensorBus) (bs : List Bool) :
    bus.clock ≤ (bus.written S time bs).clock ∧
      (bus.written S time bs).clock ≤ bus.clock + 70 * bs.length := by
  induction bs generalizing bus with
  | nil => exact ⟨Nat.le_refl _, Nat.le_refl _⟩
  | cons b bs ih =>
    rcases ih ((sensorWire S time).writeBit bus b) with ⟨hle, hge⟩
    have hclock : ((sensorWire S time).writeBit bus b).clock = bus.clock + writeBitUs b := rfl
    have hbit : writeBitUs b ≤ 70 := by cases b <;> decide
    rw [written_cons, List.length_cons]
    omega

theorem sensor_writeBit (S : Finset RomNo) (time : ResetTime) (bus : SensorBus) (rom : RomNo)
    (b : Bool) : ((sensorWire S time).writeBit bus b).sensor rom =
      (bus.sensor rom).writeSlot rom ((sensorWire S time).writeBit bus b).clock b := rfl

/-- A silent sensor takes no notice. -/
theorem sensor_silent (h : (bus.sensor rom).phase = .silent) (bs : List Bool) :
    (bus.written S time bs).sensor rom = bus.sensor rom := by
  induction bs generalizing bus with
  | nil => rfl
  | cons b bs ih =>
    have hstep : ((sensorWire S time).writeBit bus b).sensor rom = bus.sensor rom := by
      rw [sensor_writeBit, Sensor.writeSlot, h]
      exact Sensor.toPhase_of_phase h
    rw [written_cons, ih (by rw [hstep, h]), hstep]

/-- A sensor that waits for a command acts on it with its eighth bit. -/
theorem sensor_command (wait : List Bool → Phase) (act : Nat → Sensor → List Bool → Sensor)
    (hslot : ∀ clock s received v, s.phase = wait received → s.writeSlot rom clock v =
      if received.length + 1 < 8 then s.toPhase (wait (received ++ [v]))
      else act clock s (received ++ [v]))
    (hact : ∀ clock s phase received, act clock (s.toPhase phase) received = act clock s received)
    {bs received : List Bool} (h : (bus.sensor rom).phase = wait received)
    (hlen : received.length + bs.length = 8) (hbs : bs ≠ []) :
    (bus.written S time bs).sensor rom =
      act (bus.written S time bs).clock (bus.sensor rom) (received ++ bs) := by
  induction bs generalizing bus received with
  | nil => exact absurd rfl hbs
  | cons b bs ih =>
    rw [List.length_cons] at hlen
    have hstep := sensor_writeBit S time bus rom b
    rw [hslot _ _ _ _ h] at hstep
    rw [written_cons]
    by_cases hlast : bs = []
    · subst hlast
      rw [written_nil, hstep, if_neg (by simpa using hlen.ge)]
    · have hpos := List.length_pos_iff.mpr hlast
      rw [if_pos (by omega)] at hstep
      have hphase : (((sensorWire S time).writeBit bus b).sensor rom).phase =
          wait (received ++ [b]) := by rw [hstep, Sensor.phase_toPhase]
      rw [ih hphase (by simp only [List.length_append, List.length_singleton]; omega) hlast, hstep,
        hact, List.append_assoc, List.singleton_append]

/-- A sensor that was reset acts on the first byte. -/
theorem sensor_romCommand (h : (bus.sensor rom).phase = .romCommand []) (v : BitVec 8) :
    (bus.written S time (bits v)).sensor rom = (bus.sensor rom).romCommand (bits v) := by
  refine sensor_command .romCommand (fun _ s received => s.romCommand received)
    (fun clock s received v hs => ?_) (fun _ _ _ _ => rfl) h (by simp) (bits_ne_nil v)
  rw [Sensor.writeSlot, hs]

/-- A sensor that was selected acts on the next one. -/
theorem sensor_functionCommand (h : (bus.sensor rom).phase = .functionCommand [])
    (v : BitVec 8) : (bus.written S time (bits v)).sensor rom =
      (bus.sensor rom).functionCommand (bus.written S time (bits v)).clock (bits v) := by
  refine sensor_command .functionCommand (fun clock s received => s.functionCommand clock received)
    (fun clock s received v hs => ?_) (fun _ _ _ _ => rfl) h (by simp) (bits_ne_nil v)
  rw [Sensor.writeSlot, hs]

/-- Behind the last bit of a code only the sensor with this code goes on. -/
theorem sensor_matchRom {k n : Nat} (h : (bus.sensor rom).phase = .matchRom k)
    (hagree : Agree RomNo.bit k rom target) (hlen : k + n = 64) (hn : 0 < n) :
    (bus.written S time ((List.range' k n).map target.bit)).sensor rom =
      (bus.sensor rom).toPhase (if rom = target then .functionCommand [] else .silent) := by
  induction n generalizing k bus with
  | zero => exact absurd hn (Nat.lt_irrefl 0)
  | succ n ih =>
    have hstep := sensor_writeBit S time bus rom (target.bit k)
    rw [Sensor.writeSlot, h] at hstep
    simp only at hstep
    rw [List.range'_succ, List.map_cons, written_cons]
    by_cases hbit : rom.bit k = target.bit k
    · have hagree' := hagree.succ hbit
      rw [if_pos hbit] at hstep
      by_cases hlast : n = 0
      · subst hlast
        obtain rfl : k = 63 := by omega
        obtain rfl := RomNo.ext_bit hagree'
        simpa using hstep
      · rw [if_pos (by omega)] at hstep
        have hphase : (((sensorWire S time).writeBit bus (target.bit k)).sensor rom).phase =
            .matchRom (k + 1) := by rw [hstep, Sensor.phase_toPhase]
        rw [ih hphase hagree' (by omega) (by omega), hstep, Sensor.toPhase_toPhase]
    · have hne : rom ≠ target := fun he => hbit (by rw [he])
      rw [if_neg hbit] at hstep
      have hphase : (((sensorWire S time).writeBit bus (target.bit k)).sensor rom).phase =
          .silent := by rw [hstep, Sensor.phase_toPhase]
      rw [sensor_silent hphase, hstep, if_neg hne]

/-! ## Commands -/

theorem write_eq_written (S : Finset RomNo) (time : ResetTime) (v : BitVec 8) (bus : SensorBus) :
    OneWire.write (sensorWire S time) v bus = bus.written S time (bits v) :=
  write_eq_foldl _ v bus

/-- A selection is its command and the bits of the code. -/
theorem select_eq_written (S : Finset RomNo) (time : ResetTime) (target : RomNo)
    (bus : SensorBus) :
    OneWire.select (sensorWire S time) target bus =
      (bus.written S time (bits (0x55 : BitVec 8))).written S time
        ((List.range' 0 64).map target.bit) := by
  rw [select_eq_foldl, write_eq_written, List.range_eq_range']
  rfl

/-- A selection leaves one sensor waiting for a command, and the others silent. -/
theorem sensor_select (h : (bus.sensor rom).phase = .romCommand []) (target : RomNo) :
    (OneWire.select (sensorWire S time) target bus).sensor rom =
      (bus.sensor rom).toPhase (if rom = target then .functionCommand [] else .silent) := by
  have hcommand : (bus.written S time (bits (0x55 : BitVec 8))).sensor rom =
      (bus.sensor rom).toPhase (.matchRom 0) := sensor_romCommand h 0x55
  have hphase : ((bus.written S time (bits (0x55 : BitVec 8))).sensor rom).phase =
      .matchRom 0 := by rw [hcommand, Sensor.phase_toPhase]
  have hnone : Agree RomNo.bit 0 rom target := fun _ hj => absurd hj (Nat.not_lt_zero _)
  rw [select_eq_written, sensor_matchRom hphase hnone rfl (by decide), hcommand,
    Sensor.toPhase_toPhase]

/-- A command and a code have 72 bits. -/
theorem clock_select (S : Finset RomNo) (time : ResetTime) (target : RomNo) (bus : SensorBus) :
    bus.clock ≤ (OneWire.select (sensorWire S time) target bus).clock ∧
      (OneWire.select (sensorWire S time) target bus).clock ≤ bus.clock + 70 * 72 := by
  have hcommand := clock_written S time bus (bits (0x55 : BitVec 8))
  have hrom := clock_written S time (bus.written S time (bits (0x55 : BitVec 8)))
    ((List.range' 0 64).map target.bit)
  rw [length_bits] at hcommand
  rw [List.length_map, List.length_range'] at hrom
  rw [select_eq_written]
  omega

end SensorBus

/-! ## Bits read -/

/-- A byte is read bit by bit: what the slots say, when each of them leads to the next. -/
theorem read_of_slots {β : Type} {w : Wire β} {I : Nat → β → Prop} {b : BitVec 8}
    (h : ∀ i < 8, ∀ bus, I i bus → (w.readBit bus).1 = b.getLsbD i ∧ I (i + 1) (w.readBit bus).2)
    {bus : β} (hstart : I 0 bus) : (OneWire.read w bus).1 = b ∧ I 8 (OneWire.read w bus).2 := by
  -- the bits read so far are there, and the other ones are clear
  let J : Nat → BitVec 8 × β → Prop := fun n s =>
    (∀ j < 8, s.1.getLsbD j = if j < n then b.getLsbD j else false) ∧ I n s.2
  have hrun : J 8 (OneWire.read w bus) := by
    refine Lts.foldl_invariant (l := OneWire.bitMasks) (I := J) (fun n hn s hs => ?_)
      ⟨fun j _ => by simp, hstart⟩
    rcases hs with ⟨hbits, hbus⟩
    rcases h n hn s.2 hbus with ⟨hbit, hnext⟩
    refine ⟨?_, hnext⟩
    intro j hj
    have hmask : OneWire.bitMasks[n] = RomNo.maskOf n := by
      simp [show OneWire.bitMasks = (List.range 8).map RomNo.maskOf from rfl]
    have hclear : s.1.getLsbD n = false := by rw [hbits n hn, if_neg (Nat.lt_irrefl n)]
    simp only [hmask, hbit]
    rw [RomNo.getLsbD_set hj hn hclear, hbits j hj]
    rcases Nat.lt_trichotomy j n with hlt | rfl | hgt
    · rw [if_neg hlt.ne, if_pos hlt, if_pos (Nat.lt_succ_of_lt hlt)]
    · rw [if_pos rfl, if_pos (Nat.lt_succ_self j)]
    · rw [if_neg hgt.ne', if_neg hgt.asymm, if_neg (by omega)]
  rcases hrun with ⟨hbits, hbus⟩
  refine ⟨BitVec.eq_of_getLsbD_eq ?_, hbus⟩
  intro j hj
  rw [hbits j hj, if_pos hj]

/-- Bits are counted byte by byte, each from the lowest. -/
theorem Scratchpad.bit_eq (data : Scratchpad) (i : Fin 9) {j : Nat} (hj : j < 8) :
    data.bit (8 * i + j) = (data i).getLsbD j := by
  have hdiv : (8 * (i : Nat) + j) / 8 = i := by omega
  have hmod : (8 * (i : Nat) + j) % 8 = j := by omega
  rw [bit, hdiv, hmod, List.getD_eq_getElem _ _ (by simp), List.getElem_ofFn]

/-- Nine bytes read are the scratchpad that the slots say. -/
theorem readData_of_slots {β : Type} {w : Wire β} {I : Nat → β → Prop} {sent : Scratchpad}
    (h : ∀ k < 72, ∀ bus, I k bus → (w.readBit bus).1 = sent.bit k ∧ I (k + 1) (w.readBit bus).2)
    (data : Scratchpad) {bus : β} (hstart : I 0 bus) :
    (OneWire.readData w data bus).1 = sent := by
  -- the bytes read so far are there
  let J : Nat → Scratchpad × β → Prop := fun n s =>
    (∀ i : Fin 9, (i : Nat) < n → s.1 i = sent i) ∧ I (8 * n) s.2
  have hrun : J 9 (OneWire.readData w data bus) := by
    refine Lts.foldl_invariant (l := List.finRange 9) (I := J) (fun n hn s hs => ?_)
      ⟨fun i hi => absurd hi (Nat.not_lt_zero _), hstart⟩
    rcases hs with ⟨hbytes, hbus⟩
    rw [List.length_finRange] at hn
    have hread := read_of_slots (I := fun j => I (8 * n + j)) (b := sent ⟨n, hn⟩)
      (fun j hj bus hI => by
        rw [← Scratchpad.bit_eq _ _ hj]
        exact h (8 * n + j) (by omega) bus hI) hbus
    refine ⟨?_, hread.2⟩
    intro i hi
    simp only [List.getElem_finRange]
    by_cases hlast : i = ⟨n, hn⟩
    · rw [hlast, hread.1]
      exact Function.update_self _ _ _
    · have hne : (i : Nat) ≠ n := fun he => hlast (Fin.ext he)
      exact (Function.update_of_ne hlast _ _).trans (hbytes i (by omega))
  exact funext fun i => hrun.1 i i.isLt

/-! ## A measurement -/

namespace SensorBus

/-- One sensor sends its scratchpad from bit `k` on, and the others nothing. -/
def Transmitting (target : RomNo) (data : Scratchpad) (k : Nat) (bus : SensorBus) : Prop :=
  (bus.sensor target).phase = .transmit data k ∧
    ∀ rom, rom ≠ target → (bus.sensor rom).phase = .silent

/-- The others being silent, the bit read is that of the sensor that sends. -/
theorem Transmitting.readBit (htarget : target ∈ S) {data : Scratchpad} {k : Nat}
    (h : bus.Transmitting target data k) :
    ((sensorWire S time).readBit bus).1 = data.bit k ∧
      ((sensorWire S time).readBit bus).2.Transmitting target data (k + 1) := by
  rcases h with ⟨hsends, hsilent⟩
  have hbit : (bus.sensor target).sends = data.bit k := by rw [Sensor.sends, hsends]
  refine ⟨?_, ?_, ?_⟩
  · rw [← hbit, Bool.eq_iff_iff, ← not_iff_not, Bool.not_eq_true, Bool.not_eq_true]
    refine andOf_eq_false.trans ⟨fun ⟨rom, _, hzero⟩ => ?_, fun hzero => ⟨target, htarget, hzero⟩⟩
    -- who is silent sends no 0
    by_cases hrom : rom = target
    · rwa [← hrom]
    · rw [Sensor.sends, hsilent rom hrom] at hzero
      exact Bool.noConfusion hzero
  · show ((bus.sensor target).readSlot).phase = _
    rw [Sensor.readSlot, hsends]
    rfl
  · intro rom hrom
    show ((bus.sensor rom).readSlot).phase = _
    rw [Sensor.readSlot, hsilent rom hrom]
    rfl

/-- The bus when a command to one sensor is complete, behind a reset and a selection. -/
def commanded (S : Finset RomNo) (time : ResetTime) (regNum : RegisterNumber) (v : BitVec 8)
    (bus : SensorBus) : SensorBus :=
  OneWire.write (sensorWire S time) v
    (OneWire.select (sensorWire S time) regNum.romData ((sensorWire S time).reset bus).2)

/-- A command reaches the sensor that was selected, and silences the others. -/
theorem sensor_commanded (S : Finset RomNo) (time : ResetTime) (regNum : RegisterNumber)
    (v : BitVec 8) (bus : SensorBus) (rom : RomNo) :
    (bus.commanded S time regNum v).sensor rom =
      if rom = regNum.romData then
        (bus.sensor rom).functionCommand (bus.commanded S time regNum v).clock (bits v)
      else (bus.sensor rom).toPhase .silent := by
  have hreset : ((sensorWire S time).reset bus).2.sensor rom =
      (bus.sensor rom).toPhase (.romCommand []) := rfl
  have hselect : (OneWire.select (sensorWire S time) regNum.romData
      ((sensorWire S time).reset bus).2).sensor rom = _ :=
    sensor_select (by rw [hreset, Sensor.phase_toPhase]) regNum.romData
  rw [hreset, Sensor.toPhase_toPhase] at hselect
  unfold commanded
  rw [write_eq_written]
  split
  · next hrom =>
    rw [if_pos hrom] at hselect
    rw [sensor_functionCommand (by rw [hselect, Sensor.phase_toPhase]) v, hselect]
    rfl
  · next hrom =>
    rw [if_neg hrom] at hselect
    rw [sensor_silent (by rw [hselect, Sensor.phase_toPhase]), hselect]

/-- A command takes a reset and ten bytes at most. -/
theorem clock_commanded (S : Finset RomNo) (time : ResetTime) (regNum : RegisterNumber)
    (v : BitVec 8) (bus : SensorBus) :
    bus.clock ≤ (bus.commanded S time regNum v).clock ∧
      (bus.commanded S time regNum v).clock ≤ bus.clock + resetMaxUs + 70 * 80 := by
  have hreset : ((sensorWire S time).reset bus).2.clock = bus.clock + time.us bus.clock := rfl
  have hle := time.us_le bus.clock
  have hselect := clock_select S time regNum.romData ((sensorWire S time).reset bus).2
  have hwrite := clock_written S time (OneWire.select (sensorWire S time) regNum.romData
    ((sensorWire S time).reset bus).2) (bits v)
  rw [length_bits, ← write_eq_written] at hwrite
  unfold commanded
  omega

/-- Command 0xBE has the sensor send what is in its scratchpad by then. -/
theorem readData_commanded {regNum : RegisterNumber} (h : regNum.romData ∈ S)
    (data : Scratchpad) (bus : SensorBus) :
    (OneWire.readData (sensorWire S time) data (bus.commanded S time regNum 0xBE)).1 =
      (bus.sensor regNum.romData).scratchpadAt (bus.commanded S time regNum 0xBE).clock := by
  let sent := (bus.sensor regNum.romData).scratchpadAt (bus.commanded S time regNum 0xBE).clock
  have hstart : (bus.commanded S time regNum 0xBE).Transmitting regNum.romData sent 0 := by
    constructor
    · rw [sensor_commanded, if_pos rfl]
      rfl
    · intro rom hrom
      rw [sensor_commanded, if_neg hrom, Sensor.phase_toPhase]
  exact readData_of_slots (I := fun k b => Transmitting regNum.romData sent k b)
    (fun _ _ _ hbus => hbus.readBit h) data hstart

/-! ## The wait for the conversion -/

/-- When the conversion starts that `measureTemperature` asks for. -/
def conversionStart (S : Finset RomNo) (time : ResetTime) (regNum : RegisterNumber)
    (bus : SensorBus) : Nat :=
  (bus.commanded S time regNum 0x44).clock

/-- When it asks for the scratchpad. -/
def readStart (S : Finset RomNo) (time : ResetTime) (wait : Nat → SensorBus → SensorBus)
    (regNum : RegisterNumber) (bus : SensorBus) : Nat :=
  ((wait (msecToSysTick 10) (bus.commanded S time regNum 0x44)).commanded S time regNum 0xBE).clock

/-- The scratchpad before this conversion. -/
def previous (S : Finset RomNo) (time : ResetTime) (regNum : RegisterNumber) (bus : SensorBus) :
    Scratchpad :=
  (bus.sensor regNum.romData).scratchpadAt (bus.conversionStart S time regNum)

/-- The scratchpad that this conversion produces. -/
def fresh (S : Finset RomNo) (time : ResetTime) (regNum : RegisterNumber) (bus : SensorBus) :
    Scratchpad :=
  (bus.sensor regNum.romData).result (bus.conversionStart S time regNum)

variable {regNum : RegisterNumber}

/-- What `measureTemperature` reads, however it waits. -/
theorem measureTemperature_reads (time : ResetTime) (h : regNum.romData ∈ S)
    (wait : Nat → SensorBus → SensorBus)
    (hwait : ∀ ticks bus, (wait ticks bus).sensor = bus.sensor) (data : Scratchpad)
    (bus : SensorBus) :
    let sent := if bus.conversionStart S time regNum +
        (bus.sensor regNum.romData).resolution.conversionUs ≤ bus.readStart S time wait regNum then
      bus.fresh S time regNum else bus.previous S time regNum
    (OneWire.measureTemperature (sensorWire S time) wait regNum data bus).1 = sent.isCrcValid ∧
      (OneWire.measureTemperature (sensorWire S time) wait regNum data bus).2.1 = sent := by
  intro sent
  have hpresence : ∀ bus, ((sensorWire S time).reset bus).1 = true :=
    fun _ => decide_eq_true ⟨regNum.romData, h⟩
  let started := bus.commanded S time regNum 0x44
  let waited := wait (msecToSysTick 10) started
  have hstart : OneWire.startConversion (sensorWire S time) wait regNum
      ((sensorWire S time).reset bus).2 = waited := rfl
  have hsensor : waited.sensor regNum.romData =
      (bus.sensor regNum.romData).convert started.clock := by
    rw [show waited.sensor = started.sensor from hwait _ _, sensor_commanded, if_pos rfl]
    rfl
  have hread : (OneWire.readScratchpad (sensorWire S time) regNum data
      ((sensorWire S time).reset waited).2).1 = sent := by
    have hdata : (OneWire.readScratchpad (sensorWire S time) regNum data
        ((sensorWire S time).reset waited).2).1 = _ := readData_commanded h data waited
    rw [hdata, hsensor, Sensor.scratchpadAt_convert]
    rfl
  rw [OneWire.measureTemperature_eq]
  simp only [hpresence, hstart, Bool.true_eq_false, if_false, hread, and_self]

/-- A wait that is as long as the conversion makes it a measurement. -/
theorem measureTemperature_waited (time : ResetTime) (h : regNum.romData ∈ S)
    (wait : Nat → SensorBus → SensorBus)
    (hwait : ∀ ticks bus, (wait ticks bus).sensor = bus.sensor) (data : Scratchpad)
    (bus : SensorBus)
    (hlong : ∀ b : SensorBus, b.clock + (bus.sensor regNum.romData).resolution.conversionUs ≤
      (wait (msecToSysTick 10) b).clock) :
    (OneWire.measureTemperature (sensorWire S time) wait regNum data bus).1 =
        (bus.fresh S time regNum).isCrcValid ∧
      (OneWire.measureTemperature (sensorWire S time) wait regNum data bus).2.1 =
        bus.fresh S time regNum := by
  have hover : bus.conversionStart S time regNum +
      (bus.sensor regNum.romData).resolution.conversionUs ≤ bus.readStart S time wait regNum :=
    (hlong _).trans (clock_commanded S time regNum 0xBE _).1
  have hreads := measureTemperature_reads time h wait hwait data bus
  rwa [if_pos hover] at hreads

/-- The tick that it does wait for is over before any conversion is, and so are the reset and the
commands behind it: it reads the previous scratchpad again. -/
theorem measureTemperature_previous (time : ResetTime) (h : regNum.romData ∈ S)
    (data : Scratchpad) (bus : SensorBus) :
    (OneWire.measureTemperature (sensorWire S time) vTaskDelay regNum data bus).1 =
        (bus.previous S time regNum).isCrcValid ∧
      (OneWire.measureTemperature (sensorWire S time) vTaskDelay regNum data bus).2.1 =
        bus.previous S time regNum := by
  have hconversion := (bus.sensor regNum.romData).resolution.conversionUs_ge
  have hasked : bus.readStart S time vTaskDelay regNum ≤
      bus.conversionStart S time regNum + 10000 + resetMaxUs + 70 * 80 :=
    (clock_commanded S time regNum 0xBE _).2
  have hnot : ¬ bus.conversionStart S time regNum +
      (bus.sensor regNum.romData).resolution.conversionUs ≤
        bus.readStart S time vTaskDelay regNum := by
    rw [resetMaxUs] at hasked
    omega
  have hreads := measureTemperature_reads time h vTaskDelay (fun _ _ => rfl) data bus
  rwa [if_neg hnot] at hreads

/-- A successful measurement is a fresh one just when the conversion finds nothing new. -/
theorem measureTemperature_fresh_iff (h : regNum.romData ∈ S)
    (data : Scratchpad) (bus : SensorBus) :
    ((OneWire.measureTemperature (sensorWire S time) vTaskDelay regNum data bus).1 = true →
        (OneWire.measureTemperature (sensorWire S time) vTaskDelay regNum data bus).2.1 =
          bus.fresh S time regNum) ↔
      ((bus.previous S time regNum).isCrcValid = false ∨
        bus.previous S time regNum = bus.fresh S time regNum) := by
  rcases measureTemperature_previous time h data bus with ⟨hok, hdata⟩
  rw [hok, hdata]
  cases (bus.previous S time regNum).isCrcValid with
  | false => simp
  | true => simp

/-- A thermometer with its checksum. -/
def thermometer : RegisterNumber :=
  ⟨fun i => [0x28, 0x01, 0, 0, 0, 0, 0, 0x29].getD i.val 0⟩

/-- It says 85 C, as it does when it has just got its power, where a conversion finds 25 C. -/
def poweredOn : SensorBus where
  clock := 0
  sensor _ := {
    resolution := .bits12
    scratchpad := fun i => [0x50, 0x05, 0x4B, 0x46, 0x7F, 0xFF, 0x0C, 0x10, 0x1C].getD i.val 0
    converting := none
    result := fun _ i => [0x90, 0x01, 0x4B, 0x46, 0x7F, 0xFF, 0x0C, 0x10, 0x33].getD i.val 0
    phase := .silent }

/-- A reset that is answered at once. -/
def promptReset : ResetTime := ⟨fun _ => 1176, fun _ => by decide⟩

/-- A sensor that was just switched on, at its first reading. -/
theorem measureTemperature_fresh_iff_poweredOn :
    thermometer.romData ∈ ({thermometer.romData} : Finset RomNo) ∧
      (((OneWire.measureTemperature (sensorWire {thermometer.romData} promptReset) vTaskDelay
          thermometer (fun _ => 0) poweredOn).1 = true →
        (OneWire.measureTemperature (sensorWire {thermometer.romData} promptReset) vTaskDelay
            thermometer (fun _ => 0) poweredOn).2.1 =
          poweredOn.fresh {thermometer.romData} promptReset thermometer) ↔
      ((poweredOn.previous {thermometer.romData} promptReset thermometer).isCrcValid = false ∨
        poweredOn.previous {thermometer.romData} promptReset thermometer =
          poweredOn.fresh {thermometer.romData} promptReset thermometer)) :=
  ⟨Finset.mem_singleton_self _,
    measureTemperature_fresh_iff (Finset.mem_singleton_self _) (fun _ => 0) poweredOn⟩

/-- The first measurement succeeds with the 85 C. -/
theorem measureTemperature_stale :
    (OneWire.measureTemperature (sensorWire {thermometer.romData} promptReset) vTaskDelay
        thermometer (fun _ => 0) poweredOn).1 = true ∧
      (OneWire.measureTemperature (sensorWire {thermometer.romData} promptReset) vTaskDelay
          thermometer (fun _ => 0) poweredOn).2.1 ≠
        poweredOn.fresh {thermometer.romData} promptReset thermometer := by
  obtain ⟨hok, hdata⟩ := measureTemperature_previous promptReset
    (Finset.mem_singleton_self thermometer.romData) (fun _ => 0) poweredOn
  rw [hok, hdata]
  have hvalid : (poweredOn.sensor thermometer.romData).scratchpad.isCrcValid = true := by
    decide +kernel
  refine ⟨hvalid, ?_⟩
  intro heq
  have hfirst : (0x50 : BitVec 8) = 0x90 := congrFun heq 0
  exact absurd hfirst (by decide)

end SensorBus

end EspAcDimmer
