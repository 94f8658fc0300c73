import EspAcDimmer.OneWire.Devices

/-! # Measurements on the bus of devices

Between a reset and the next one, a bus that was not sent the command of a search behaves like the
bus of the sensors alone. So a measurement is what it is there: it starts a conversion of one
sensor, and leaves the others as they were.
-/

namespace EspAcDimmer

open Crc

variable {β γ : Type} {S : Finset RomNo} {time : ResetTime} {rom : RomNo}

/-! ## From the devices to the sensors -/

/-- The time slots of a bus, with no resets between them. -/
def Wire.slotsOnly (w : Wire β) : Wire β := { w with reset := fun bus => (true, bus) }

theorem OneWire.write_slotsOnly (w : Wire β) (b : BitVec 8) (bus : β) :
    write w.slotsOnly b bus = write w b bus := rfl

theorem OneWire.readData_slotsOnly (w : Wire β) (data : Scratchpad) (bus : β) :
    readData w.slotsOnly data bus = readData w data bus := rfl

/-- Bits written to two wires that simulate each other. -/
theorem WireSim.foldl {w : Wire β} {v : Wire γ} {R : β → γ → Prop} (h : WireSim w v R) {a : β}
    {b : γ} (hab : R a b) (bs : List Bool) : R (bs.foldl w.writeBit a) (bs.foldl v.writeBit b) := by
  induction bs generalizing a b with
  | nil => exact hab
  | cons x bs ih => exact ih (h.writeBit _ _ x hab)

/-- The bytes of a code. -/
theorem WireSim.writeAll {w : Wire β} {v : Wire γ} {R : β → γ → Prop} (h : WireSim w v R)
    (rom : RomNo) (is : List (Fin 8)) {a : β} {b : γ} (hab : R a b) :
    R (is.foldl (fun bus i => OneWire.write w (rom i) bus) a)
      (is.foldl (fun bus i => OneWire.write v (rom i) bus) b) := by
  induction is generalizing a b with
  | nil => exact hab
  | cons i is ih => exact ih (h.write hab (rom i))

/-- A sensor waits for the rest of a command only if it did so before. -/
theorem Sensor.romCommand_of_writeSlot {s : Sensor} {clock : Nat} {v : Bool}
    {received' : List Bool} (h : (s.writeSlot rom clock v).phase = .romCommand received') :
    ∃ received, s.phase = .romCommand received ∧ received' = received ++ [v] := by
  unfold writeSlot at h
  split at h
  case h_1 received hphase =>
    split at h
    · exact ⟨received, hphase, (Phase.romCommand.inj h).symm⟩
    · unfold romCommand at h
      split at h <;> cases h
  case h_2 =>
    split at h
    · split at h <;> cases h
    · cases h
  case h_3 =>
    split at h
    · cases h
    · unfold functionCommand at h
      split at h
      · cases h
      · split at h <;> cases h
  case h_4 => cases h
  case h_5 => cases h

/-- No device is in a search, and none is about to start one: the command that comes in begins with
a 1. -/
structure Device.Settled (d : Device) : Prop where
  search : d.search = none
  command : ∀ received, d.sensor.phase = .romCommand received → ∃ rest, received = true :: rest

/-- No search begins with a 1. -/
theorem searchCommand_ne (rest : List Bool) : true :: rest ≠ bits (0xF0 : BitVec 8) := by
  intro h
  exact absurd (List.cons.inj h).1 (by decide)

namespace Device

variable {d : Device} {clock : Nat} {v : Bool}

/-- Behind a reset, the first bit decides it. -/
theorem settled_reset (d : Device) (rom : RomNo) (clock : Nat) :
    (d.reset.writeSlot rom clock true).sensor = d.reset.sensor.writeSlot rom clock true ∧
      (d.reset.writeSlot rom clock true).Settled := by
  have hslot : d.reset.writeSlot rom clock true =
      ⟨d.reset.sensor.writeSlot rom clock true, none⟩ := by
    rw [Device.writeSlot]
    exact if_neg (searchCommand_ne [])
  rw [hslot]
  refine ⟨rfl, rfl, ?_⟩
  intro received' hreceived
  rcases Sensor.romCommand_of_writeSlot hreceived with ⟨received, hphase, rfl⟩
  obtain rfl : [] = received := Phase.romCommand.inj hphase
  exact ⟨[], rfl⟩

/-- A bit written to a settled device is written to its sensor. -/
theorem Settled.writeSlot (h : d.Settled) :
    (d.writeSlot rom clock v).sensor = d.sensor.writeSlot rom clock v ∧
      (d.writeSlot rom clock v).Settled := by
  have hslot : d.writeSlot rom clock v = ⟨d.sensor.writeSlot rom clock v, none⟩ := by
    rw [Device.writeSlot, h.search]
    cases hphase : d.sensor.phase with
    | romCommand received =>
      rcases h.command received hphase with ⟨rest, rfl⟩
      exact if_neg (searchCommand_ne _)
    | matchRom k => rfl
    | functionCommand received => rfl
    | transmit data k => rfl
    | silent => rfl
  rw [hslot]
  refine ⟨rfl, rfl, ?_⟩
  intro received' hreceived
  rcases Sensor.romCommand_of_writeSlot hreceived with ⟨received, hphase, rfl⟩
  rcases h.command received hphase with ⟨rest, rfl⟩
  exact ⟨rest ++ [v], rfl⟩

/-- A settled device sends what its sensor sends. -/
theorem Settled.sends (h : d.Settled) : d.sends rom = d.sensor.sends := by
  rw [Device.sends, h.search]

/-- A bit read from it is read from its sensor. -/
theorem Settled.readSlot (h : d.Settled) :
    d.readSlot.sensor = d.sensor.readSlot ∧ d.readSlot.Settled := by
  have hslot : d.readSlot = ⟨d.sensor.readSlot, none⟩ := by rw [Device.readSlot, h.search]
  rw [hslot]
  refine ⟨rfl, rfl, ?_⟩
  show ∀ received, d.sensor.readSlot.phase = .romCommand received → _
  intro received hreceived
  unfold Sensor.readSlot at hreceived
  split at hreceived <;> cases hreceived

end Device

namespace DeviceBus

variable {bus : DeviceBus} {regNum : RegisterNumber}

/-- The sensors of a bus of devices. -/
def sensors (bus : DeviceBus) : SensorBus := ⟨bus.clock, fun rom => (bus.device rom).sensor⟩

theorem sensors_reset_fst (S : Finset RomNo) (time : ResetTime) (bus : DeviceBus) :
    ((sensorWire S time).reset bus.sensors).1 = ((deviceWire S time).reset bus).1 := rfl

theorem sensors_vTaskDelay (ticks : Nat) (bus : DeviceBus) :
    (bus.vTaskDelay ticks).sensors = bus.sensors.vTaskDelay ticks := rfl

/-- No device of the bus has anything to do with a search, and these are its sensors. -/
structure Settled (bus : DeviceBus) (sensors : SensorBus) : Prop where
  settled : ∀ rom, (bus.device rom).Settled
  sensors : bus.sensors = sensors

/-- Between two resets the devices are their sensors. -/
theorem settled_sim (S : Finset RomNo) (time : ResetTime) :
    WireSim (deviceWire S time).slotsOnly (sensorWire S time).slotsOnly Settled := by
  constructor
  case reset => exact fun _ _ h => ⟨rfl, h⟩
  case writeBit =>
    rintro bus _ v ⟨hsettled, rfl⟩
    refine ⟨fun rom => (hsettled rom).writeSlot.2, ?_⟩
    show SensorBus.mk _ _ = SensorBus.mk _ _
    congr 1
    funext rom
    exact (hsettled rom).writeSlot.1
  case readBit =>
    rintro bus _ ⟨hsettled, rfl⟩
    refine ⟨?_, fun rom => (hsettled rom).readSlot.2, ?_⟩
    · show andOf S _ = andOf S _
      congr 1
      funext rom
      exact (hsettled rom).sends
    · show SensorBus.mk _ _ = SensorBus.mk _ _
      congr 1
      funext rom
      exact (hsettled rom).readSlot.1

/-- The command of a selection begins with a 1, so it settles a bus that was reset. -/
theorem matchCommand_settled (S : Finset RomNo) (time : ResetTime) (bus : DeviceBus) :
    (OneWire.write (deviceWire S time) 0x55 ((deviceWire S time).reset bus).2).Settled
      (OneWire.write (sensorWire S time) 0x55 ((sensorWire S time).reset bus.sensors).2) := by
  let rest : List Bool := [false, true, false, true, false, true, false]
  have hbits : byteBits 0x55 = true :: rest := by decide
  have hfirst : ((deviceWire S time).writeBit ((deviceWire S time).reset bus).2 true).Settled
      ((sensorWire S time).writeBit ((sensorWire S time).reset bus.sensors).2 true) := by
    refine ⟨fun rom => ((bus.device rom).settled_reset rom _).2, ?_⟩
    show SensorBus.mk _ _ = SensorBus.mk _ _
    congr 1
  rw [write_eq_foldl, write_eq_foldl, hbits, List.foldl_cons, List.foldl_cons]
  exact (settled_sim S time).foldl hfirst rest

/-- A selection settles the bus. -/
theorem select_settled (S : Finset RomNo) (time : ResetTime) (target : RomNo) (bus : DeviceBus) :
    (OneWire.select (deviceWire S time) target ((deviceWire S time).reset bus).2).Settled
      (OneWire.select (sensorWire S time) target ((sensorWire S time).reset bus.sensors).2) :=
  (settled_sim S time).writeAll target (List.finRange 8) (matchCommand_settled S time bus)

/-- What `measureTemperature` finds and does is what it finds and does on the bus of the sensors. -/
theorem measureTemperature_sensors (S : Finset RomNo) (time : ResetTime)
    (regNum : RegisterNumber) (data : Scratchpad) (bus : DeviceBus) :
    ∃ ok data' bus', OneWire.measureTemperature (deviceWire S time) vTaskDelay regNum data bus =
        (ok, data', bus') ∧
      OneWire.measureTemperature (sensorWire S time) SensorBus.vTaskDelay regNum data bus.sensors =
        (ok, data', bus'.sensors) := by
  have hstart : OneWire.startConversion (sensorWire S time) SensorBus.vTaskDelay regNum
      ((sensorWire S time).reset bus.sensors).2 =
        (OneWire.startConversion (deviceWire S time) vTaskDelay regNum
          ((deviceWire S time).reset bus).2).sensors := by
    have hwrite := (settled_sim S time).write (select_settled S time regNum.romData bus) 0x44
    rw [OneWire.write_slotsOnly, OneWire.write_slotsOnly] at hwrite
    unfold OneWire.startConversion
    rw [sensors_vTaskDelay, hwrite.sensors]
  rw [OneWire.measureTemperature_eq, OneWire.measureTemperature_eq]
  simp only [hstart]
  generalize OneWire.startConversion (deviceWire S time) vTaskDelay regNum _ = waited
  have hwrite := (settled_sim S time).write (select_settled S time regNum.romData waited) 0xBE
  have hread := (settled_sim S time).readData hwrite data
  simp only [OneWire.write_slotsOnly, OneWire.readData_slotsOnly] at hread
  rcases hread with ⟨hdata, -, hbus⟩
  have hpresence := sensors_reset_fst S time
  by_cases hfirst : ((deviceWire S time).reset bus).1 = false
  · rw [if_pos hfirst, if_pos ((hpresence bus).trans hfirst)]
    exact ⟨_, _, _, rfl, rfl⟩
  by_cases hsecond : ((deviceWire S time).reset waited).1 = false
  · rw [if_neg hfirst, if_neg ((hpresence bus).trans_ne hfirst), if_pos hsecond,
      if_pos ((hpresence waited).trans hsecond)]
    exact ⟨_, _, _, rfl, rfl⟩
  rw [if_neg hfirst, if_neg ((hpresence bus).trans_ne hfirst), if_neg hsecond,
    if_neg ((hpresence waited).trans_ne hsecond)]
  unfold OneWire.readScratchpad
  generalize OneWire.readData (sensorWire S time) data _ = read at hdata hbus ⊢
  generalize OneWire.readData (deviceWire S time) data _ = read' at hdata hbus ⊢
  refine ⟨_, read'.1, read'.2, rfl, ?_⟩
  rw [hdata, hbus]

end DeviceBus

/-! ## What a measurement leaves -/

/-- Rule of the reads: what a bit read keeps, a byte read keeps. -/
theorem read_keeps {w : Wire β} {I : β → Prop} (h : ∀ bus, I bus → I (w.readBit bus).2) {bus : β}
    (hstart : I bus) : I (OneWire.read w bus).2 := by
  unfold OneWire.read
  exact Lts.foldl_invariant (I := fun _ (s : BitVec 8 × β) => I s.2) (fun _ _ s hs => h s.2 hs)
    hstart

/-- What a bit read keeps, the read of a scratchpad keeps. -/
theorem readData_keeps {w : Wire β} {I : β → Prop} (h : ∀ bus, I bus → I (w.readBit bus).2)
    (data : Scratchpad) {bus : β} (hstart : I bus) : I (OneWire.readData w data bus).2 := by
  unfold OneWire.readData
  exact Lts.foldl_invariant (I := fun _ (s : Scratchpad × β) => I s.2)
    (fun _ _ _ hs => read_keeps h hs) hstart

namespace SensorBus

variable {bus : SensorBus} {regNum : RegisterNumber}

theorem sensor_vTaskDelay (ticks : Nat) (bus : SensorBus) :
    (bus.vTaskDelay ticks).sensor = bus.sensor := by rfl

theorem clock_vTaskDelay (ticks : Nat) (bus : SensorBus) :
    bus.clock ≤ (bus.vTaskDelay ticks).clock := by
  unfold vTaskDelay
  exact Nat.le_add_right _ _

theorem startConversion_eq (S : Finset RomNo) (time : ResetTime) (regNum : RegisterNumber)
    (bus : SensorBus) :
    OneWire.startConversion (sensorWire S time) vTaskDelay regNum
        ((sensorWire S time).reset bus).2 =
      (bus.commanded S time regNum 0x44).vTaskDelay (msecToSysTick 10) := rfl

theorem readScratchpad_eq (S : Finset RomNo) (time : ResetTime) (regNum : RegisterNumber)
    (data : Scratchpad) (bus : SensorBus) :
    OneWire.readScratchpad (sensorWire S time) regNum data ((sensorWire S time).reset bus).2 =
      OneWire.readData (sensorWire S time) data (bus.commanded S time regNum 0xBE) := rfl

/-- Bits read change no sensor, but for where it stands. -/
theorem readData_after (S : Finset RomNo) (time : ResetTime) (data : Scratchpad)
    (bus : SensorBus) :
    bus.clock ≤ (OneWire.readData (sensorWire S time) data bus).2.clock ∧
      ∀ rom, ((OneWire.readData (sensorWire S time) data bus).2.sensor rom).toPhase .silent =
        (bus.sensor rom).toPhase .silent := by
  refine readData_keeps (I := fun (b : SensorBus) => bus.clock ≤ b.clock ∧ ∀ rom,
    (b.sensor rom).toPhase .silent = (bus.sensor rom).toPhase .silent) ?_ data
    ⟨Nat.le_refl _, fun _ => rfl⟩
  rintro b ⟨hclock, hsensor⟩
  refine ⟨hclock.trans (Nat.le_add_right _ _), ?_⟩
  intro rom
  rw [← hsensor rom]
  show (b.sensor rom).readSlot.toPhase .silent = _
  unfold Sensor.readSlot
  split <;> rfl

/-- A measurement starts a conversion, and changes no other sensor. -/
theorem measureTemperature_after (time : ResetTime) (h : regNum.romData ∈ S) (data : Scratchpad)
    (bus : SensorBus) :
    let bus' := (OneWire.measureTemperature (sensorWire S time) vTaskDelay regNum data bus).2.2
    bus.conversionStart S time regNum ≤ bus'.clock ∧
      ∀ rom, (bus'.sensor rom).toPhase .silent = if rom = regNum.romData then
        (bus.sensor rom).convert (bus.conversionStart S time regNum)
      else (bus.sensor rom).toPhase .silent := by
  have hpresence : ∀ bus, ((sensorWire S time).reset bus).1 = true :=
    fun _ => decide_eq_true ⟨regNum.romData, h⟩
  rw [OneWire.measureTemperature_eq]
  simp only [hpresence, Bool.true_eq_false, if_false, startConversion_eq, readScratchpad_eq]
  have hwait := clock_vTaskDelay (msecToSysTick 10) (bus.commanded S time regNum 0x44)
  have hsame := sensor_vTaskDelay (msecToSysTick 10) (bus.commanded S time regNum 0x44)
  generalize (bus.commanded S time regNum 0x44).vTaskDelay (msecToSysTick 10) = waited
    at hwait hsame ⊢
  have hread := (clock_commanded S time regNum 0xBE waited).1
  rcases readData_after S time data (waited.commanded S time regNum 0xBE) with ⟨hclock, hsensor⟩
  refine ⟨hwait.trans (hread.trans hclock), ?_⟩
  intro rom
  rw [hsensor rom, sensor_commanded, hsame, sensor_commanded]
  split
  · rfl
  · rfl

end SensorBus

end EspAcDimmer
