import Mathlib.Order.Lattice.Nat
import EspAcDimmer.OneWire.Callbacks
import EspAcDimmer.OneWire.Devices

/-! # The wire itself

`main.cpp` sets its pin to open drain: the master and the devices pull the wire low, and nobody
drives it high. A device knows of a time slot by the wire going low; it then holds the wire low or
samples it, in its own time. When the wire goes up again after at least 480 us, it starts anew and
answers with a presence pulse.

* `reset_answered_iff`: `reset` finds the devices iff all presence pulses are over after 136 us;
* `Carries.writeBit`, `Carries.readBit`, `Carries.reset`: in its turn, the code at the pins is the
  wire of `deviceWire`.
-/

namespace EspAcDimmer

open BitTrie

/-! ## Devices at the wire -/

/-- How fast a device is, in microseconds. -/
structure DeviceTiming where
  /-- When it samples the wire, after the wire went low. -/
  sampleUs : Nat
  /-- How long it holds the wire low to send a 0. -/
  holdUs : Nat
  /-- When its presence pulse begins, after the end of the reset pulse. -/
  presenceWaitUs : Nat
  presenceUs : Nat
  sample_range : 15 ≤ sampleUs ∧ sampleUs ≤ 60
  hold_range : 15 ≤ holdUs ∧ holdUs ≤ 60
  presenceWait_range : 15 ≤ presenceWaitUs ∧ presenceWaitUs ≤ 60
  presence_range : 60 ≤ presenceUs ∧ presenceUs ≤ 240

/-- When a device is done with a reset, after the end of the pulse. -/
def DeviceTiming.presentUs (timing : DeviceTiming) : Nat :=
  timing.presenceWaitUs + timing.presenceUs

/-- The shortest pulse that resets a device. -/
def resetMinUs : Nat := 480

/-- What the device `rom` sends if it is its turn to. -/
def Device.turn (rom : RomNo) (d : Device) : Option Bool :=
  match d.search, d.sensor.phase with
  | some (.idBit k), _ => some (rom.bit k)
  | some (.cmpIdBit k), _ => some (!rom.bit k)
  | some (.direction _), _ => none
  | none, .transmit data k => some (data.bit k)
  | none, _ => none

namespace Device

variable {d : Device} {rom : RomNo} {clock : Nat} {v : Bool}

/-- A device that is off never has its turn to send. -/
theorem Off.turn (h : d.Off) : d.turn rom = none := by
  rw [Device.turn, h.search, h.phase]

/-- Silencing it changes nothing. -/
theorem Off.silent (h : d.Off) : d.silent = d := by
  rcases d with ⟨sensor, search⟩
  obtain rfl : search = none := h.search
  rw [Device.silent, Sensor.toPhase_of_phase h.phase]

/-- A bit read does not change it. -/
theorem Off.readSlot_eq (h : d.Off) : d.readSlot = d := by
  rw [Device.readSlot, h.search]
  simp only [Sensor.readSlot, h.phase]
  exact h.silent

/-- Nor does one that is written. -/
theorem Off.writeSlot_eq (h : d.Off) : d.writeSlot rom clock v = d := by
  rw [Device.writeSlot, h.search, h.phase]
  simp only [Sensor.writeSlot, h.phase]
  exact h.silent

end Device

/-- A device, from when to when it pulls the wire low, and when the slot began whose bit it has yet
to sample. -/
structure Tap where
  device : Device
  pullFrom : Nat
  pullTo : Nat
  slot : Option Nat

namespace Tap

def Pulls (t : Tap) (clock : Nat) : Prop := t.pullFrom ≤ clock ∧ clock < t.pullTo

instance (t : Tap) (clock : Nat) : Decidable (t.Pulls clock) := inferInstanceAs (Decidable (_ ∧ _))

/-- The wire goes low: a slot begins. -/
def fall (rom : RomNo) (timing : DeviceTiming) (clock : Nat) (t : Tap) : Tap :=
  match t.device.turn rom with
  | some bit =>
    ⟨t.device.readSlot, clock, if bit then clock else clock + timing.holdUs, none⟩
  | none => { t with slot := some clock }

/-- The wire goes up after a reset pulse. -/
def rise (timing : DeviceTiming) (clock : Nat) (t : Tap) : Tap :=
  ⟨t.device.reset, clock + timing.presenceWaitUs, clock + timing.presentUs, none⟩

/-- Time goes on until `clock`. A device acts on a bit when the slot is over. -/
def elapse (rom : RomNo) (timing : DeviceTiming) (level : Nat → Bool) (clock : Nat) (t : Tap) :
    Tap :=
  match t.slot with
  | none => t
  | some start =>
    if start + timing.sampleUs ≤ clock then
      let bit := level (start + timing.sampleUs)
      { t with
        device := t.device.writeSlot rom (start + writeBitUs bit) bit
        slot := none }
    else t

end Tap

/-! ## The wire -/

/-- The pin, the time, when the pin pulled the wire low for the last time, and the devices. -/
structure OpenDrain where
  mode : PinMode
  value : Bool
  clock : Nat
  fellAt : Nat
  tap : RomNo → Tap

namespace OpenDrain

/-- The pin pulls the wire low. -/
def Low (l : OpenDrain) : Prop := l.mode = .output ∧ l.value = false

instance (l : OpenDrain) : Decidable l.Low := inferInstanceAs (Decidable (_ ∧ _))

/-- The level of the wire at this time, with the devices `S` on it, while the pin stays as it is. -/
def level (S : Finset RomNo) (l : OpenDrain) (clock : Nat) : Bool :=
  !decide l.Low && andOf S fun rom => !decide ((l.tap rom).Pulls clock)

def setPin (l : OpenDrain) (mode : PinMode) (value : Bool) : OpenDrain :=
  { l with mode := mode, value := value }

/-- The pin changes, and the devices see what that does to the wire. -/
def drive (S : Finset RomNo) (timing : RomNo → DeviceTiming) (l : OpenDrain) (mode : PinMode)
    (value : Bool) : OpenDrain :=
  let l' := l.setPin mode value
  if l.level S l.clock = true ∧ l'.level S l.clock = false then
    { l' with
      fellAt := l.clock
      tap := fun rom => (l.tap rom).fall rom (timing rom) l.clock }
  else if l.Low ∧ ¬ l'.Low ∧ resetMinUs ≤ l.clock - l.fellAt then
    { l' with tap := fun rom => (l.tap rom).rise (timing rom) l.clock }
  else l'

def elapse (S : Finset RomNo) (timing : RomNo → DeviceTiming) (l : OpenDrain) (us : Nat) :
    OpenDrain :=
  { l with
    clock := l.clock + us
    tap := fun rom => (l.tap rom).elapse rom (timing rom) (l.level S) (l.clock + us) }

/-- The callbacks of `main.cpp`, where `setIntrModeClbk` does nothing. -/
def callbacks (S : Finset RomNo) (timing : RomNo → DeviceTiming) : Callbacks OpenDrain where
  setPinMode l mode := l.drive S timing mode l.value
  readPinValue l := (l.level S l.clock, l)
  setPinValue l value := l.drive S timing l.mode value
  delayMsec l time := l.elapse S timing time
  setIntrMode l _ := l

/-! ## The pin -/

theorem interrupts_callbacks (S : Finset RomNo) (timing : RomNo → DeviceTiming) (l : OpenDrain) :
    (callbacks S timing).interrupts l = l := rfl

theorem delayMsec_callbacks (S : Finset RomNo) (timing : RomNo → DeviceTiming) (l : OpenDrain)
    (us : Nat) : (callbacks S timing).delayMsec l us = l.elapse S timing us := rfl

variable {S : Finset RomNo} {timing : RomNo → DeviceTiming} {l : OpenDrain} {bus : DeviceBus}
  {mode : PinMode} {value : Bool}

/-- Nobody pulls the wire low, and no device is in a slot. -/
structure Idle (S : Finset RomNo) (l : OpenDrain) : Prop where
  released : ¬ l.Low
  pullTo : ∀ rom ∈ S, (l.tap rom).pullTo ≤ l.clock
  slot : ∀ rom, (l.tap rom).slot = none

/-- The wire is high when neither the pin nor a device pulls it low. -/
theorem level_eq_true {clock : Nat} : l.level S clock = true ↔
    ¬ l.Low ∧ ∀ rom ∈ S, ¬ (l.tap rom).Pulls clock := by
  have hand : (andOf S fun rom => !decide ((l.tap rom).Pulls clock)) = true ↔
      ∀ rom ∈ S, ¬ (l.tap rom).Pulls clock := by
    rw [← Bool.not_eq_false, andOf_eq_false]
    simp
  unfold level
  rw [Bool.and_eq_true, hand]
  simp

theorem level_of_low (h : l.Low) (clock : Nat) : l.level S clock = false := by
  rw [← Bool.not_eq_true, level_eq_true]
  exact fun hlevel => hlevel.1 h

/-- An idle wire is high, and stays so. -/
theorem Idle.level (h : l.Idle S) {clock : Nat} (hclock : l.clock ≤ clock) :
    l.level S clock = true := by
  refine level_eq_true.mpr ⟨h.released, ?_⟩
  intro rom hrom hpulls
  have hover := h.pullTo rom hrom
  have hbefore := hpulls.2
  omega

/-- The wire after the pin went low. -/
def begun (timing : RomNo → DeviceTiming) (l : OpenDrain) : OpenDrain where
  mode := .output
  value := false
  clock := l.clock
  fellAt := l.clock
  tap rom := (l.tap rom).fall rom (timing rom) l.clock

theorem low_begun : (l.begun timing).Low := ⟨rfl, rfl⟩

theorem not_low_of_input (h : l.mode = .input) : ¬ l.Low :=
  fun hlow => PinMode.noConfusion (h.symm.trans hlow.1)

/-- A pin that is an input, or drives high, does not pull the wire low. -/
theorem not_low_setPin (hhigh : mode = .input ∨ value = true) : ¬ (l.setPin mode value).Low := by
  rintro ⟨hmode, hvalue⟩
  rcases hhigh with hinput | hset
  · exact PinMode.noConfusion (hinput.symm.trans hmode)
  · exact Bool.noConfusion (hset.symm.trans hvalue)

/-- Such a pin keeps the wire idle. -/
theorem Idle.setPin (h : l.Idle S) (hhigh : mode = .input ∨ value = true) :
    (l.setPin mode value).Idle S :=
  ⟨not_low_setPin hhigh, h.pullTo, h.slot⟩

/-- A wire that is high falls when the pin drives low. -/
theorem drive_fall (h : l.level S l.clock = true) :
    l.drive S timing .output false = l.begun timing := by
  have hlow : (l.setPin .output false).Low := ⟨rfl, rfl⟩
  unfold drive
  rw [if_pos ⟨h, level_of_low hlow _⟩]
  rfl

/-- The pin goes from high to high. -/
theorem Idle.drive (h : l.Idle S) (hhigh : mode = .input ∨ value = true) :
    l.drive S timing mode value = l.setPin mode value := by
  have hlevel : (l.setPin mode value).level S l.clock = true :=
    (h.setPin hhigh).level (Nat.le_refl _)
  unfold OpenDrain.drive
  rw [if_neg (fun hfall => by simp [hlevel] at hfall), if_neg (fun hrise => h.released hrise.1)]

/-- The pin goes up after a slot, or after a reset pulse. -/
theorem drive_up (hlow : l.Low) (hhigh : mode = .input ∨ value = true) :
    l.drive S timing mode value =
      if resetMinUs ≤ l.clock - l.fellAt then
        { l.setPin mode value with tap := fun rom => (l.tap rom).rise (timing rom) l.clock }
      else l.setPin mode value := by
  have hnot := not_low_setPin (l := l) hhigh
  unfold drive
  rw [if_neg (fun hfall => by simp [level_of_low hlow] at hfall)]
  simp only [hlow, hnot, not_false_eq_true, true_and]

/-- A wire that the pin holds low does not fall again. -/
theorem drive_low (hlow : l.Low) : l.drive S timing .output false = l := by
  have hsame : l.setPin .output false = l := by
    rw [setPin, ← hlow.1, ← hlow.2]
  unfold drive
  rw [if_neg (fun hfall => by simp [level_of_low hlow] at hfall), hsame,
    if_neg (fun hrise => hrise.2.1 hlow)]

/-- The pin goes low, whichever of its two callbacks comes first. -/
theorem Idle.pullDown (h : l.Idle S) (timing : RomNo → DeviceTiming) :
    let c := callbacks S timing
    c.setPinMode (c.setPinValue (c.noInterrupts l) false) .output = l.begun timing ∧
      c.setPinValue (c.setPinMode (c.noInterrupts l) .output) false = l.begun timing := by
  have hstart := h.level (Nat.le_refl _)
  constructor
  · show (l.drive S timing l.mode false).drive S timing .output
      (l.drive S timing l.mode false).value = l.begun timing
    cases hm : l.mode with
    | input =>
      rw [h.drive (Or.inl rfl)]
      exact drive_fall ((h.setPin (Or.inl rfl)).level (Nat.le_refl _))
    | output =>
      rw [drive_fall hstart]
      exact drive_low low_begun
  · show (l.drive S timing .output l.value).drive S timing
      (l.drive S timing .output l.value).mode false = l.begun timing
    cases hv : l.value with
    | true =>
      rw [h.drive (Or.inr rfl)]
      exact drive_fall ((h.setPin (Or.inr rfl)).level (Nat.le_refl _))
    | false =>
      rw [drive_fall hstart]
      exact drive_low low_begun

end OpenDrain

/-! ## Time slots -/

namespace Tap

variable {rom : RomNo} {timing : DeviceTiming} {level : Nat → Bool} {start clock : Nat} {t : Tap}

/-- A device that listens is then in the slot. -/
theorem fall_of_listening (h : t.device.turn rom = none) :
    t.fall rom timing clock = { t with slot := some clock } := by
  rw [fall, h]

/-- A device that sends answers at once, and is in no slot. -/
theorem fall_of_turn {bit : Bool} (h : t.device.turn rom = some bit) :
    t.fall rom timing clock =
      ⟨t.device.readSlot, clock, if bit then clock else clock + timing.holdUs, none⟩ := by
  rw [fall, h]

/-- If a device is in a slot, it is the one that begins. -/
theorem slot_fall : (t.fall rom timing clock).slot = none ∨
    (t.fall rom timing clock).slot = some clock := by
  unfold fall
  split
  · exact Or.inl rfl
  · exact Or.inr rfl

/-- Time does nothing to a device outside a slot. -/
theorem elapse_of_none (h : t.slot = none) : t.elapse rom timing level clock = t := by
  rw [elapse, h]

/-- Within 15 us no device samples the wire. -/
theorem elapse_early (h : t.slot = none ∨ t.slot = some start) (hclock : clock < start + 15) :
    t.elapse rom timing level clock = t := by
  rcases h with h | h
  · exact elapse_of_none h
  · have hsample := timing.sample_range.1
    rw [elapse, h]
    exact if_neg (by omega)

/-- After 60 us every device has sampled it. -/
theorem elapse_late (h : t.slot = some start) (hclock : start + 60 ≤ clock) :
    t.elapse rom timing level clock =
      { t with
        device := t.device.writeSlot rom
          (start + writeBitUs (level (start + timing.sampleUs))) (level (start + timing.sampleUs))
        slot := none } := by
  have hsample := timing.sample_range.2
  rw [elapse, h]
  exact if_pos (by omega)

/-- After 60 us nobody is in the slot. -/
theorem slot_elapse (h : t.slot = none ∨ t.slot = some start) (hclock : start + 60 ≤ clock) :
    (t.elapse rom timing level clock).slot = none := by
  rcases h with h | h
  · rw [elapse_of_none h, h]
  · rw [elapse_late h hclock]

/-- A device does not change its pulse as time goes on. -/
theorem pullTo_elapse : (t.elapse rom timing level clock).pullTo = t.pullTo := by
  unfold elapse
  split
  · rfl
  · split <;> rfl

end Tap

namespace OpenDrain

variable {S : Finset RomNo} {timing : RomNo → DeviceTiming} {l : OpenDrain} {us : Nat}

def later (l : OpenDrain) (us : Nat) : OpenDrain := { l with clock := l.clock + us }

/-- With all devices outside slots only the clock goes on. -/
theorem elapse_of_none (h : ∀ rom, (l.tap rom).slot = none) :
    l.elapse S timing us = l.later us := by
  simp only [elapse, Tap.elapse_of_none (h _)]
  rfl

/-- So it does before any device samples the wire. -/
theorem elapse_early {start : Nat}
    (h : ∀ rom, (l.tap rom).slot = none ∨ (l.tap rom).slot = some start)
    (hus : l.clock + us < start + 15) : l.elapse S timing us = l.later us := by
  simp only [elapse, Tap.elapse_early (h _) hus]
  rfl

/-- The slot under way, if any, is the one that has just begun. -/
theorem slot_begun (l : OpenDrain) (rom : RomNo) :
    ((l.begun timing).tap rom).slot = none ∨ ((l.begun timing).tap rom).slot = some l.clock :=
  Tap.slot_fall

/-! ### A bit written -/

/-- A 1 is a slot that is low for 10 us. -/
theorem Idle.writeBit_one (h : l.Idle S) : (callbacks S timing).writeBit l 1 =
    (((l.begun timing).later 10).setPin .output true).elapse S timing 55 := by
  have hearly : (l.begun timing).elapse S timing 10 = (l.begun timing).later 10 :=
    elapse_early (slot_begun l) (Nat.add_lt_add_left (by decide) _)
  have hup : ((l.begun timing).later 10).drive S timing .output true =
      ((l.begun timing).later 10).setPin .output true := by
    rw [drive_up ⟨rfl, rfl⟩ (Or.inr rfl), if_neg]
    simp [later, begun, resetMinUs]
  rw [Callbacks.writeBit, (h.pullDown timing).1]
  show (((l.begun timing).elapse S timing 10).drive S timing .output true).elapse S timing 55 = _
  rw [hearly, hup]

/-- A 0 is one that is low for 65 us. -/
theorem Idle.writeBit_zero (h : l.Idle S) : (callbacks S timing).writeBit l 0 =
    (((l.begun timing).elapse S timing 65).setPin .output true).later 5 := by
  have hup : ((l.begun timing).elapse S timing 65).drive S timing .output true =
      ((l.begun timing).elapse S timing 65).setPin .output true := by
    rw [drive_up ⟨rfl, rfl⟩ (Or.inr rfl), if_neg]
    simp [elapse, begun, resetMinUs]
  have hover : ∀ rom, (((l.begun timing).elapse S timing 65).tap rom).slot = none :=
    fun rom => Tap.slot_elapse (slot_begun l rom) (Nat.add_le_add_left (by decide) _)
  rw [Callbacks.writeBit, (h.pullDown timing).1]
  show (((l.begun timing).elapse S timing 65).drive S timing .output true).elapse S timing 5 = _
  rw [hup]
  exact elapse_of_none hover

/-- The wire with the devices of `bus` on it, between two time slots. -/
structure Carries (S : Finset RomNo) (l : OpenDrain) (bus : DeviceBus) : Prop where
  idle : l.Idle S
  clock : l.clock = bus.clock
  device : ∀ rom ∈ S, (l.tap rom).device = bus.device rom

variable {bus : DeviceBus} {time : ResetTime}

/-- Letting go of the wire changes nothing on it. -/
theorem Carries.release (h : l.Carries S bus) : ((callbacks S timing).release l).Carries S bus := by
  have hinput : (l.setPin .input l.value).Idle S := h.idle.setPin (Or.inl rfl)
  have hrelease : (callbacks S timing).release l =
      (l.setPin .input l.value).setPin .input false := by
    show (l.drive S timing .input l.value).drive S timing (l.drive S timing .input l.value).mode
      false = _
    rw [h.idle.drive (Or.inl rfl)]
    exact hinput.drive (Or.inl rfl)
  rw [hrelease]
  exact ⟨hinput.setPin (Or.inl rfl), h.clock, h.device⟩

/-- All devices on the wire listen. -/
def Listening (S : Finset RomNo) (bus : DeviceBus) : Prop :=
  ∀ rom ∈ S, (bus.device rom).turn rom = none

/-- Where all devices listen, the slot takes them all in. -/
theorem Carries.tap_begun (h : l.Carries S bus) (hlisten : Listening S bus) {rom : RomNo}
    (hrom : rom ∈ S) : (l.begun timing).tap rom = { l.tap rom with slot := some l.clock } := by
  have hturn : (l.tap rom).device.turn rom = none := by
    rw [h.device rom hrom]
    exact hlisten rom hrom
  exact Tap.fall_of_listening hturn

/-- In a slot that all devices listen to, none of them pulls the wire low. -/
theorem Carries.level_begun (h : l.Carries S bus) (hlisten : Listening S bus) {l' : OpenDrain}
    (hup : ¬ l'.Low) (htap : l'.tap = (l.begun timing).tap) {clock : Nat}
    (hclock : l.clock ≤ clock) : l'.level S clock = true := by
  refine level_eq_true.mpr ⟨hup, ?_⟩
  intro rom hrom hpulls
  have hover := h.idle.pullTo rom hrom
  rw [htap, h.tap_begun hlisten hrom] at hpulls
  have hbefore : clock < (l.tap rom).pullTo := hpulls.2
  omega

/-- A slot is over in which the wire was at the level `v` while the devices sampled it. -/
theorem Carries.sampled (h : l.Carries S bus) (hlisten : Listening S bus) {v : Bool}
    {level : Nat → Bool} {done : OpenDrain} {clock : Nat}
    (hlevel : ∀ clock, l.clock ≤ clock → level clock = v) (hclock : l.clock + 60 ≤ clock)
    (htap : ∀ rom, done.tap rom =
      ((l.begun timing).tap rom).elapse rom (timing rom) level clock)
    (hdone : done.clock = l.clock + writeBitUs v) (hup : ¬ done.Low) :
    done.Carries S ((deviceWire S time).writeBit bus v) := by
  have htaps : ∀ rom ∈ S, done.tap rom =
      ⟨(bus.device rom).writeSlot rom (bus.clock + writeBitUs v) v, (l.tap rom).pullFrom,
        (l.tap rom).pullTo, none⟩ := by
    intro rom hrom
    have hslot : ((l.begun timing).tap rom).slot = some l.clock := by
      rw [h.tap_begun hlisten hrom]
    rw [htap, Tap.elapse_late hslot hclock, hlevel _ (Nat.le_add_right _ _),
      h.tap_begun hlisten hrom, ← h.clock, ← h.device rom hrom]
  constructor
  case idle =>
    refine ⟨hup, ?_, ?_⟩
    · intro rom hrom
      rw [htaps rom hrom, hdone]
      exact (h.idle.pullTo rom hrom).trans (Nat.le_add_right _ _)
    · intro rom
      rw [htap]
      exact Tap.slot_elapse (slot_begun l rom) hclock
  case clock =>
    rw [hdone, h.clock]
    rfl
  case device =>
    intro rom hrom
    rw [htaps rom hrom]
    rfl

/-- What the devices take for a bit is the bit written. -/
theorem Carries.writeBit (h : l.Carries S bus) (hlisten : Listening S bus) (v : Bool) :
    ((callbacks S timing).slots.writeBit l v).Carries S ((deviceWire S time).writeBit bus v) := by
  cases v with
  | true =>
    have hup : ¬ (((l.begun timing).later 10).setPin .output true).Low :=
      not_low_setPin (Or.inr rfl)
    have hend : l.clock + 60 ≤ l.clock + 10 + 55 := by omega
    show ((callbacks S timing).writeBit l 1).Carries S _
    rw [h.idle.writeBit_one]
    exact h.sampled hlisten (fun _ => h.level_begun hlisten hup rfl) hend (fun _ => rfl) rfl hup
  | false =>
    have hup : ¬ (((l.begun timing).elapse S timing 65).setPin .output true).Low :=
      not_low_setPin (Or.inr rfl)
    have hend : l.clock + 60 ≤ l.clock + 65 := by omega
    show ((callbacks S timing).writeBit l 0).Carries S _
    rw [h.idle.writeBit_zero]
    exact h.sampled hlisten (fun clock _ => level_of_low low_begun clock) hend (fun _ => rfl) rfl
      hup

/-! ### A bit read -/

/-- Every device on the wire sends, or is off. -/
def Speaking (S : Finset RomNo) (bus : DeviceBus) : Prop :=
  ∀ rom ∈ S, (bus.device rom).turn rom = some ((bus.device rom).sends rom) ∨ (bus.device rom).Off

/-- The wire when the master samples it. -/
def awaited (timing : RomNo → DeviceTiming) (l : OpenDrain) : OpenDrain :=
  (((l.begun timing).later 3).setPin .input false).later 10

/-- The master samples the wire 13 us after it went low. -/
theorem Idle.readBit (h : l.Idle S) : (callbacks S timing).readBit l =
    ((l.awaited timing).level S (l.clock + 13), (l.awaited timing).elapse S timing 53) := by
  have hearly : (l.begun timing).elapse S timing 3 = (l.begun timing).later 3 :=
    elapse_early (slot_begun l) (Nat.add_lt_add_left (by decide) _)
  have hup : ((l.begun timing).later 3).drive S timing .input false =
      ((l.begun timing).later 3).setPin .input false := by
    rw [drive_up ⟨rfl, rfl⟩ (Or.inl rfl), if_neg]
    simp [later, begun, resetMinUs]
  have hwait : (((l.begun timing).later 3).setPin .input false).elapse S timing 10 =
      l.awaited timing := by
    have hlt : l.clock + 3 + 10 < l.clock + 15 := by omega
    exact elapse_early (slot_begun l) hlt
  have hsampled : (callbacks S timing).delayMsec ((callbacks S timing).setPinMode
      ((callbacks S timing).delayMsec (l.begun timing) 3) .input) 10 = l.awaited timing := by
    show (((l.begun timing).elapse S timing 3).drive S timing .input false).elapse S timing 10 = _
    rw [hearly, hup, hwait]
  have hread : (callbacks S timing).readPinValue (l.awaited timing) =
      ((l.awaited timing).level S (l.clock + 13), l.awaited timing) := rfl
  rw [Callbacks.readBit, (h.pullDown timing).2]
  simp only [hsampled, hread]
  rfl

/-- A device that sends holds the wire for its bit; the other ones leave it alone. -/
theorem Carries.pulls_awaited (h : l.Carries S bus) (hspeak : Speaking S bus) {rom : RomNo}
    (hrom : rom ∈ S) : ((l.awaited timing).tap rom).Pulls (l.clock + 13) ↔
      (bus.device rom).sends rom = false := by
  have hdevice := h.device rom hrom
  have hhold := (timing rom).hold_range.1
  have hover := h.idle.pullTo rom hrom
  show ((l.tap rom).fall rom (timing rom) l.clock).Pulls (l.clock + 13) ↔ _
  rcases hspeak rom hrom with hturn | hoff
  · rw [Tap.fall_of_turn (by rw [hdevice]; exact hturn), Tap.Pulls]
    cases (bus.device rom).sends rom with
    | true => simp
    | false =>
      simp
      omega
  · have hlisten : (l.tap rom).device.turn rom = none := by rw [hdevice, hoff.turn]
    rw [Tap.fall_of_listening hlisten, Tap.Pulls, hoff.sends]
    simp
    omega

/-- A bit read is the AND of what the devices send. -/
theorem Carries.readBit (h : l.Carries S bus) (hspeak : Speaking S bus) :
    ((callbacks S timing).readBit l).1 = ((deviceWire S time).readBit bus).1 ∧
      ((callbacks S timing).readBit l).2.Carries S ((deviceWire S time).readBit bus).2 := by
  have hlate : l.clock + 60 ≤ l.clock + 13 + 53 := by omega
  rw [h.idle.readBit]
  have hsent : ((deviceWire S time).readBit bus).1 =
      andOf S fun rom => (bus.device rom).sends rom := rfl
  have hup : ¬ (l.awaited timing).Low := not_low_of_input rfl
  refine ⟨?_, ?_, ?_, ?_⟩
  · simp only [hsent]
    rw [Bool.eq_iff_iff, ← not_iff_not, level_eq_true, Bool.not_eq_true, andOf_eq_false]
    simp only [hup, not_false_eq_true, true_and, not_forall, not_not, exists_prop]
    exact exists_congr fun rom => and_congr_right fun hrom => h.pulls_awaited hspeak hrom
  · refine ⟨not_low_of_input rfl, ?_, ?_⟩
    · intro rom hrom
      show (Tap.elapse _ _ _ _ _).pullTo ≤ _
      rw [Tap.pullTo_elapse]
      have hhold := (timing rom).hold_range.2
      have hover := h.idle.pullTo rom hrom
      show ((l.tap rom).fall rom (timing rom) l.clock).pullTo ≤ l.clock + 13 + 53
      unfold Tap.fall
      split
      · simp only
        split <;> omega
      · simp only
        omega
    · exact fun rom => Tap.slot_elapse (slot_begun l rom) hlate
  · show l.clock + 13 + 53 = bus.clock + readBitUs
    rw [h.clock]
    rfl
  · intro rom hrom
    have hdevice := h.device rom hrom
    show (Tap.elapse rom (timing rom) _ (l.clock + 13 + 53)
      ((l.tap rom).fall rom (timing rom) l.clock)).device = (bus.device rom).readSlot
    rcases hspeak rom hrom with hturn | hoff
    · rw [Tap.fall_of_turn (by rw [hdevice]; exact hturn), Tap.elapse_of_none rfl, hdevice]
    · have hlisten : (l.tap rom).device.turn rom = none := by rw [hdevice, hoff.turn]
      rw [Tap.fall_of_listening hlisten, Tap.elapse_late rfl hlate, hdevice]
      exact hoff.writeSlot_eq.trans hoff.readSlot_eq.symm

end OpenDrain

/-! ## The reset -/

/-- A reset pulse begins like a 0 that is written; it does not complete a command of the device. -/
def Device.Calm (rom : RomNo) (d : Device) : Prop :=
  ∀ clock, (d.writeSlot rom clock false).reset = d.reset

/-- A reset does not depend on where the device stood. -/
theorem Device.reset_of_core {d e : Device} (h : d.core = e.core) : d.reset = e.reset := by
  have hreset : ∀ e : Device, e.reset = ⟨e.core.toPhase (.romCommand []), none⟩ := fun _ => rfl
  rw [hreset, hreset, h]

namespace OpenDrain

variable {S : Finset RomNo} {timing : RomNo → DeviceTiming} {l : OpenDrain} {bus : DeviceBus}
  {time : ResetTime}

/-! ### Waiting -/

section Wait

variable {level : Bool} {us : Nat}

/-- One turn of a wait. -/
theorem waitFor_succ (hslot : ∀ rom, (l.tap rom).slot = none) (retries : Nat) :
    (callbacks S timing).waitFor level us (retries + 1) l =
      if retries = 0 then (0, l)
      else if l.level S (l.clock + us) = level then (retries, l.later us)
      else (callbacks S timing).waitFor level us retries (l.later us) := by
  have hdelay : (callbacks S timing).delayMsec l us = l.later us := elapse_of_none hslot
  have hread : (callbacks S timing).readPinValue (l.later us) =
      (l.level S (l.clock + us), l.later us) := rfl
  rw [Callbacks.waitFor, hdelay, hread]

/-- A step of a wait, and the steps behind it. -/
theorem clock_later_mul (l : OpenDrain) (us m : Nat) :
    (l.later us).clock + us * m = l.clock + us * (m + 1) := by
  show l.clock + us + us * m = _
  rw [Nat.mul_succ]
  omega

/-- A wait that ends with its `n`-th sample. -/
theorem waitFor_found (hslot : ∀ rom, (l.tap rom).slot = none) {n retries : Nat} (hpos : 0 < n)
    (hbefore : ∀ m, 0 < m → m < n → l.level S (l.clock + us * m) ≠ level)
    (hat : l.level S (l.clock + us * n) = level) (hretries : n < retries) :
    (callbacks S timing).waitFor level us retries l = (retries - n, l.later (us * n)) := by
  induction n generalizing l retries with
  | zero => exact absurd hpos (Nat.lt_irrefl 0)
  | succ n ih =>
    obtain ⟨retries, rfl⟩ : ∃ r, retries = r + 1 := ⟨retries - 1, by omega⟩
    rw [waitFor_succ hslot, if_neg (by omega)]
    by_cases hlast : n = 0
    · subst hlast
      rw [Nat.zero_add, Nat.mul_one] at hat
      rw [if_pos hat]
      simp
    · have hfirst := hbefore 1 (by decide) (by omega)
      rw [Nat.mul_one] at hfirst
      rw [if_neg hfirst, ih (l := l.later us) hslot (Nat.pos_of_ne_zero hlast) ?_ ?_ (by omega)]
      · simp only [later, Nat.add_sub_add_right, Prod.mk.injEq, true_and]
        rw [Nat.add_assoc, Nat.mul_succ, Nat.add_comm us]
      · intro m hm hmn
        rw [clock_later_mul]
        exact hbefore (m + 1) (Nat.succ_pos m) (by omega)
      · rw [clock_later_mul]
        exact hat

/-- A wait for a level that does not come. -/
theorem waitFor_none (hslot : ∀ rom, (l.tap rom).slot = none) {retries : Nat}
    (hnever : ∀ m, 0 < m → m < retries → l.level S (l.clock + us * m) ≠ level) :
    (callbacks S timing).waitFor level us retries l = (0, l.later (us * (retries - 1))) := by
  induction retries generalizing l with
  | zero => rfl
  | succ retries ih =>
    rw [waitFor_succ hslot]
    by_cases hlast : retries = 0
    · subst hlast
      rfl
    · have hfirst := hnever 1 (by decide) (by omega)
      rw [Nat.mul_one] at hfirst
      have hshift : us + us * (retries - 1) = us * retries := by
        rw [Nat.add_comm, ← Nat.mul_succ]
        congr 1
        omega
      rw [if_neg hlast, if_neg hfirst, ih (l := l.later us) hslot ?_]
      · simp only [later, Nat.add_assoc, hshift, Nat.add_sub_cancel]
      · intro m hm hmr
        rw [clock_later_mul]
        exact hnever (m + 1) (Nat.succ_pos m) (by omega)

end Wait

/-! ### The pulse -/

/-- The wire when the reset pulse is over. -/
def pulsed (S : Finset RomNo) (timing : RomNo → DeviceTiming) (l : OpenDrain) : OpenDrain :=
  let held := (l.begun timing).elapse S timing Pins.resetPulseUs
  { held.setPin .input false with tap := fun rom => (held.tap rom).rise (timing rom) held.clock }

/-- The wire at the end of the first wait of `reset`. -/
def released (l : OpenDrain) : OpenDrain := (l.setPin .input l.value).later Pins.resetStepUs

/-- The first wait of `reset` leaves the wire idle. -/
theorem Idle.released_idle (h : l.Idle S) : l.released.Idle S := by
  have hinput : (l.setPin .input l.value).Idle S := h.setPin (Or.inl rfl)
  refine ⟨hinput.released, ?_, hinput.slot⟩
  intro rom hrom
  exact (hinput.pullTo rom hrom).trans (Nat.le_add_right _ _)

/-- After the pulse `reset` waits for the wire to be high, low and high. -/
theorem Idle.reset (h : l.Idle S) : (callbacks S timing).reset l =
    let c := callbacks S timing
    let up := c.waitFor true 2 69 (l.released.pulsed S timing)
    let down := c.waitFor false 2 up.1 up.2
    let up' := c.waitFor true 2 down.1 down.2
    if up.1 = 0 then (false, up.2)
    else if down.1 = 0 then (false, down.2)
    else if up'.1 = 0 then (false, up'.2)
    else (true, up'.2.elapse S timing (Pins.resetStepUs * up'.1)) := by
  have hinput : (callbacks S timing).interrupts ((callbacks S timing).setPinMode
      ((callbacks S timing).noInterrupts l) .input) = l.setPin .input l.value :=
    h.drive (Or.inl rfl)
  have hidle : (l.setPin .input l.value).Idle S := h.setPin (Or.inl rfl)
  have hwait : (callbacks S timing).waitFor true Pins.resetStepUs
      (Pins.resetTimeUs / Pins.resetStepUs) (l.setPin .input l.value) = (69, l.released) :=
    waitFor_found hidle.slot Nat.one_pos (fun m hm hlt => absurd hlt (by omega))
      (hidle.level (Nat.le_add_right _ _)) (by decide)
  have hdown : (callbacks S timing).interrupts ((callbacks S timing).setPinMode
      ((callbacks S timing).setPinValue ((callbacks S timing).noInterrupts l.released) false)
        .output) = l.released.begun timing := by
    rw [interrupts_callbacks]
    exact (h.released_idle.pullDown timing).1
  have hup : (callbacks S timing).setPinMode ((callbacks S timing).noInterrupts
      ((callbacks S timing).delayMsec (l.released.begun timing) Pins.resetPulseUs)) .input =
        l.released.pulsed S timing := by
    show ((l.released.begun timing).elapse S timing Pins.resetPulseUs).drive S timing .input
      false = _
    rw [drive_up ⟨rfl, rfl⟩ (Or.inl rfl), if_pos]
    · rfl
    · show resetMinUs ≤ l.released.clock + Pins.resetPulseUs - l.released.clock
      simp [resetMinUs, Pins.resetPulseUs]
  unfold Callbacks.reset
  simp only [hinput, hwait, hdown, hup]
  rw [if_neg (by decide)]
  simp only [interrupts_callbacks, delayMsec_callbacks]

/-! ### Presence -/

theorem slot_pulsed (l : OpenDrain) (rom : RomNo) : ((l.pulsed S timing).tap rom).slot = none := rfl

/-- After the pulse the wire is high when no presence pulse is under way. -/
theorem level_pulsed (l : OpenDrain) (us : Nat) :
    (l.pulsed S timing).level S ((l.pulsed S timing).clock + us) = true ↔
      ∀ rom ∈ S, ¬ ((timing rom).presenceWaitUs ≤ us ∧ us < (timing rom).presentUs) := by
  have hup : ¬ (l.pulsed S timing).Low := not_low_of_input rfl
  rw [level_eq_true]
  simp only [hup, not_false_eq_true, true_and]
  refine forall_congr' fun rom => imp_congr_right fun _ => not_congr ?_
  exact and_congr (Nat.add_le_add_iff_left) (Nat.add_lt_add_iff_left)

/-- When the last presence pulse is over. -/
def presentUs (S : Finset RomNo) (timing : RomNo → DeviceTiming) : Nat :=
  S.sup fun rom => (timing rom).presentUs

theorem le_presentUs (timing : RomNo → DeviceTiming) {rom : RomNo} (hrom : rom ∈ S) :
    (timing rom).presentUs ≤ presentUs S timing :=
  Finset.le_sup (f := fun rom => (timing rom).presentUs) hrom

/-- The presence pulses overlap: once the wire is low it stays low until the last one is over. -/
theorem low_until_present (l : OpenDrain) {start us : Nat} (hstart : start ≤ us)
    (hlow : (l.pulsed S timing).level S ((l.pulsed S timing).clock + start) = false)
    (hus : us < presentUs S timing) :
    (l.pulsed S timing).level S ((l.pulsed S timing).clock + us) = false := by
  rw [← Bool.not_eq_true, level_pulsed] at hlow ⊢
  simp only [not_forall, not_not, exists_prop] at hlow ⊢
  rcases hlow with ⟨first, hfirst, hwait, hlt⟩
  obtain ⟨last, hlast, hend⟩ := Finset.exists_mem_eq_sup S ⟨first, hfirst⟩
    fun rom => (timing rom).presentUs
  by_cases hnow : us < (timing first).presentUs
  · exact ⟨first, hfirst, by omega, hnow⟩
  · have hlong := (timing first).presence_range.1
    have hsoon := (timing last).presenceWait_range.2
    have hearly := (timing first).presenceWait_range.1
    refine ⟨last, hlast, ?_, ?_⟩
    · unfold DeviceTiming.presentUs at hnow
      omega
    · rw [← hend]
      exact hus

/-- Behind the last presence pulse the wire is high. -/
theorem high_of_present (l : OpenDrain) {us : Nat} (hus : presentUs S timing ≤ us) :
    (l.pulsed S timing).level S ((l.pulsed S timing).clock + us) = true := by
  rw [level_pulsed]
  intro rom hrom hpulls
  have hle := le_presentUs timing hrom
  omega

/-- So it is for 15 us before the first one. -/
theorem high_at_first (l : OpenDrain) {us : Nat} (hus : us < 15) :
    (l.pulsed S timing).level S ((l.pulsed S timing).clock + us) = true := by
  rw [level_pulsed]
  intro rom _ hpulls
  have hwait := (timing rom).presenceWait_range.1
  omega

/-- The first wait after the pulse is over at once. -/
theorem waitFor_released (S : Finset RomNo) (timing : RomNo → DeviceTiming) (l : OpenDrain) :
    (callbacks S timing).waitFor true 2 69 (l.pulsed S timing) =
      (68, (l.pulsed S timing).later 2) :=
  waitFor_found (slot_pulsed l) Nat.one_pos (fun m hm hlt => absurd hlt (by omega))
    (high_at_first l (by decide)) (by decide)

/-- The first sample at which the wire is low, when there are devices. -/
theorem exists_answer (timing : RomNo → DeviceTiming) (hS : S.Nonempty) (l : OpenDrain) :
    ∃ n, 0 < n ∧ n ≤ 29 ∧
      (∀ m, 0 < m → m < n →
        (l.pulsed S timing).level S ((l.pulsed S timing).clock + (2 + 2 * m)) ≠ false) ∧
      (l.pulsed S timing).level S ((l.pulsed S timing).clock + (2 + 2 * n)) = false := by
  have hlast : (l.pulsed S timing).level S ((l.pulsed S timing).clock + (2 + 2 * 29)) = false := by
    rcases hS with ⟨rom, hrom⟩
    rw [← Bool.not_eq_true, level_pulsed]
    intro hnone
    have hwait := (timing rom).presenceWait_range
    have hlong := (timing rom).presence_range.1
    exact hnone rom hrom ⟨hwait.2, by unfold DeviceTiming.presentUs; omega⟩
  have hex : ∃ n, 0 < n ∧
      (l.pulsed S timing).level S ((l.pulsed S timing).clock + (2 + 2 * n)) = false :=
    ⟨29, by decide, hlast⟩
  rcases Nat.find_spec hex with ⟨hpos, hlow⟩
  refine ⟨Nat.find hex, hpos, Nat.find_min' hex ⟨by decide, hlast⟩, ?_, hlow⟩
  exact fun m hm hlt hlow => Nat.find_min hex hlt ⟨hm, hlow⟩

/-- The clock at a sample of the waits behind the first one. -/
theorem clock_after_first (p : OpenDrain) (m : Nat) :
    (p.later 2).clock + 2 * m = p.clock + (2 + 2 * m) := Nat.add_assoc _ _ _

/-- The second wait finds a device that answers, and the last answer is not over by then. -/
theorem waitFor_answered (timing : RomNo → DeviceTiming) (hS : S.Nonempty) (l : OpenDrain) :
    ∃ n ≤ 29, 2 + 2 * n < presentUs S timing ∧
      (callbacks S timing).waitFor false 2 68 ((l.pulsed S timing).later 2) =
        (68 - n, (l.pulsed S timing).later (2 + 2 * n)) ∧
      (l.pulsed S timing).level S ((l.pulsed S timing).clock + (2 + 2 * n)) = false := by
  obtain ⟨n, hpos, hn, hhigh, hlow⟩ := exists_answer timing hS l
  have hlong : 2 + 2 * n < presentUs S timing := by
    by_contra hover
    have hend := high_of_present l (Nat.not_lt.mp hover)
    exact Bool.noConfusion (hlow.symm.trans hend)
  have hwait : (callbacks S timing).waitFor false 2 68 ((l.pulsed S timing).later 2) =
      (68 - n, ((l.pulsed S timing).later 2).later (2 * n)) := by
    refine waitFor_found (l := (l.pulsed S timing).later 2) (slot_pulsed l) hpos ?_ ?_ (by omega)
    · intro m hm hlt
      rw [clock_after_first]
      exact hhigh m hm hlt
    · rw [clock_after_first]
      exact hlow
  refine ⟨n, hn, hlong, ?_, hlow⟩
  rw [hwait]
  simp only [later, Nat.add_assoc]

/-- The last wait is over with the last presence pulse, if the retries suffice for that. -/
theorem Idle.reset_of_nonempty (h : l.Idle S) (timing : RomNo → DeviceTiming) (hS : S.Nonempty)
    {k : Nat} (hk : k = (presentUs S timing + 1) / 2) :
    (k ≤ 68 → (callbacks S timing).reset l =
      (true, (l.released.pulsed S timing).later (2 * k + 10 * (69 - k)))) ∧
    (68 < k → (callbacks S timing).reset l = (false, (l.released.pulsed S timing).later 136)) := by
  obtain ⟨n, hn, hlong, hdown, hlow⟩ := waitFor_answered timing hS l.released
  have hup := waitFor_released S timing l.released
  rw [h.reset]
  simp only [hup, hdown]
  rw [if_neg (by decide), if_neg (by omega)]
  have hclock : ∀ m, ((l.released.pulsed S timing).later (2 + 2 * n)).clock + 2 * m =
      (l.released.pulsed S timing).clock + (2 + 2 * n + 2 * m) := fun m => Nat.add_assoc _ _ _
  have hstay : ∀ m, 2 + 2 * n + 2 * m < presentUs S timing →
      ((l.released.pulsed S timing).later (2 + 2 * n)).level S
        (((l.released.pulsed S timing).later (2 + 2 * n)).clock + 2 * m) ≠ true := by
    intro m hm
    rw [hclock]
    exact ne_true_of_eq_false (low_until_present _ (Nat.le_add_right _ _) hlow hm)
  constructor
  · intro hquick
    have hover : ((l.released.pulsed S timing).later (2 + 2 * n)).level S
        (((l.released.pulsed S timing).later (2 + 2 * n)).clock + 2 * (k - 1 - n)) = true := by
      rw [hclock]
      exact high_of_present _ (by omega)
    rw [waitFor_found (l := (l.released.pulsed S timing).later (2 + 2 * n)) (slot_pulsed l.released)
      (by omega) (fun m hm hlt => hstay m (by omega)) hover (by omega), if_neg (by omega)]
    simp only
    rw [elapse_of_none (l := ((l.released.pulsed S timing).later (2 + 2 * n)).later
      (2 * (k - 1 - n))) (slot_pulsed l.released)]
    simp only [later, Pins.resetStepUs, Prod.mk.injEq, true_and]
    congr 1
    omega
  · intro hslow
    rw [waitFor_none (l := (l.released.pulsed S timing).later (2 + 2 * n)) (slot_pulsed l.released)
      (fun m hm hlt => hstay m (by omega)), if_pos rfl]
    simp only [later, Prod.mk.injEq, true_and]
    congr 1
    omega

/-- Without devices the wire does not go low. -/
theorem Idle.reset_of_empty (h : l.Idle S) (hS : ¬ S.Nonempty) : (callbacks S timing).reset l =
    (false, (l.released.pulsed S timing).later 136) := by
  obtain rfl := Finset.not_nonempty_iff_eq_empty.mp hS
  have hup := waitFor_released ∅ timing l.released
  have hdown : (callbacks ∅ timing).waitFor false 2 68 ((l.released.pulsed ∅ timing).later 2) =
      (0, ((l.released.pulsed ∅ timing).later 2).later 134) := by
    refine waitFor_none (l := (l.released.pulsed ∅ timing).later 2) (slot_pulsed _) ?_
    intro m _ _
    rw [clock_after_first]
    exact ne_false_of_eq_true (high_of_present _ (Nat.zero_le _))
  rw [h.reset]
  simp only [hup, hdown]
  rfl

/-- What a reset takes, in microseconds. -/
def resetUs (S : Finset RomNo) (timing : RomNo → DeviceTiming) : Nat :=
  if S.Nonempty then 1200 - 8 * ((presentUs S timing + 1) / 2) else 646

def resetTime (S : Finset RomNo) (timing : RomNo → DeviceTiming) : ResetTime where
  us _ := resetUs S timing
  us_le _ := by
    unfold resetUs resetMaxUs
    split <;> omega

/-- One device that takes longer hides them all. -/
theorem reset_answered_iff (h : l.Idle S) : ((callbacks S timing).reset l).1 = true ↔
    S.Nonempty ∧ ∀ rom ∈ S, (timing rom).presentUs ≤ 136 := by
  have hall : (∀ rom ∈ S, (timing rom).presentUs ≤ 136) ↔ presentUs S timing ≤ 136 :=
    Finset.sup_le_iff.symm
  rw [hall]
  by_cases hS : S.Nonempty
  · rcases h.reset_of_nonempty timing hS rfl with ⟨hquick, hslow⟩
    by_cases hlast : presentUs S timing ≤ 136
    · rw [hquick (by omega)]
      simp [hS, hlast]
    · rw [hslow (by omega)]
      simp [hlast]
  · rw [h.reset_of_empty hS]
    simp [hS]

/-- The pulse resets every device. -/
theorem Carries.device_pulsed (h : l.Carries S bus) {rom : RomNo} (hrom : rom ∈ S)
    (hcalm : (bus.device rom).Calm rom) :
    ((l.released.pulsed S timing).tap rom).device = (bus.device rom).reset := by
  have hdevice := h.device rom hrom
  have hlate : l.released.clock + 60 ≤ l.released.clock + Pins.resetPulseUs := by
    simp [Pins.resetPulseUs]
  show (Tap.elapse rom (timing rom) ((l.released.begun timing).level S)
    (l.released.clock + Pins.resetPulseUs)
      ((l.tap rom).fall rom (timing rom) l.released.clock)).device.reset = _
  cases hturn : (l.tap rom).device.turn rom with
  | some bit =>
    rw [Tap.fall_of_turn hturn, Tap.elapse_of_none rfl, hdevice]
    exact Device.reset_of_core (Device.core_readSlot _)
  | none =>
    rw [Tap.fall_of_listening hturn, Tap.elapse_late rfl hlate, level_of_low low_begun, hdevice]
    exact hcalm _

/-- When all presence pulses are over in time, a reset is what it is on the bus. -/
theorem Carries.reset (h : l.Carries S bus) (hcalm : ∀ rom ∈ S, (bus.device rom).Calm rom)
    (hprompt : ∀ rom ∈ S, (timing rom).presentUs ≤ 136) :
    ((callbacks S timing).reset l).1 = ((deviceWire S (resetTime S timing)).reset bus).1 ∧
      ((callbacks S timing).reset l).2.Carries S
        ((deviceWire S (resetTime S timing)).reset bus).2 := by
  have hlast : presentUs S timing ≤ 136 := Finset.sup_le hprompt
  -- in both cases the wire is the one after the pulse, and all presence pulses are over
  have hcarries : ∀ us, presentUs S timing ≤ us → 510 + us = resetUs S timing →
      ((l.released.pulsed S timing).later us).Carries S
        ((deviceWire S (resetTime S timing)).reset bus).2 := by
    intro us hus hreset
    refine ⟨⟨not_low_of_input rfl, ?_, fun _ => rfl⟩, ?_, ?_⟩
    · intro rom hrom
      have hle := le_presentUs timing hrom
      exact Nat.add_le_add_left (hle.trans hus) _
    · show l.clock + 10 + 500 + us = bus.clock + resetUs S timing
      rw [h.clock, ← hreset]
      omega
    · exact fun rom hrom => h.device_pulsed hrom (hcalm rom hrom)
  by_cases hS : S.Nonempty
  · rcases h.idle.reset_of_nonempty timing hS rfl with ⟨hquick, -⟩
    rw [hquick (by omega)]
    refine ⟨(decide_eq_true hS).symm, hcarries _ (by omega) ?_⟩
    rw [resetUs, if_pos hS]
    omega
  · rw [h.idle.reset_of_empty hS]
    refine ⟨(decide_eq_false hS).symm, hcarries 136 hlast ?_⟩
    rw [resetUs, if_neg hS]

end OpenDrain

end EspAcDimmer
