import EspAcDimmer.Main.AppMain
import EspAcDimmer.OneWire.InStep

/-! # The loop of `app_main` at its pin

With its callbacks on the wire, the loop does what it does on the bus of time slots, and hands on
the same messages: if no presence pulse takes longer than a reset waits for. If one does, every
search says that there is nobody, and the loop never hands on anything.
-/

namespace EspAcDimmer

/-! ## The loop over its callbacks -/

namespace Callbacks

variable {σ : Type} (c : Callbacks σ)

def measure (vTaskDelay : Nat → σ → σ) (mData : Scratchpad) (regNum : RegisterNumber)
    (tempSens : TemperatureSensor) (s : Poller σ) : Poller σ :=
  let (ok, mData, bus) := c.measureTemperature vTaskDelay regNum mData s.bus
  if !ok then { s with bus := bus }  -- "Bad sensor"
  else
    let msg := ⟨regNum.val64, tempSens.getCelsius mData⟩
    { s with bus := bus, sent := s.sent ++ [msg] }

def handle (vTaskDelay : Nat → σ → σ) (mData : Scratchpad) (found : Option RomNo)
    (s : Poller σ) : Poller σ :=
  match found with
  | none => { s with ow := s.ow.resetSearch }  -- "No more addresses."
  | some romData =>
    let regNum := RegisterNumber.mk romData
    if !regNum.isCrcValid then s  -- "CRC is not valid!"
    else
      match TemperatureSensor.create regNum with
      | none => s  -- "Bad sensor"
      | some tempSens => c.measure vTaskDelay mData regNum tempSens s

/-- One iteration. -/
def poll (vTaskDelay : Nat → σ → σ) (mData : Scratchpad) (s : Poller σ) : Option (Poller σ) :=
  let bus := vTaskDelay (msecToSysTick 500) s.bus
  (c.search s.ow true bus).map fun (found, ow, bus) =>
    c.handle vTaskDelay mData found { s with ow := ow, bus := bus }

/-- The state after `n` iterations. -/
def polled (vTaskDelay : Nat → σ → σ) (mData : Nat → Scratchpad) (s : Poller σ) :
    Nat → Option (Poller σ)
  | 0 => some s
  | n + 1 => (polled vTaskDelay mData s n).bind (c.poll vTaskDelay (mData n))

end Callbacks

namespace OpenDrain

/-- The devices on the wire. -/
def bus (l : OpenDrain) : DeviceBus := ⟨l.clock, fun rom => (l.tap rom).device⟩

theorem Idle.carries {S : Finset RomNo} {l : OpenDrain} (h : l.Idle S) : l.Carries S l.bus :=
  ⟨h, rfl, fun _ _ => rfl⟩

end OpenDrain

namespace Poller

open OpenDrain

variable {S : Finset RomNo} {timing : RomNo → DeviceTiming} {s : Poller OpenDrain}
  {t : Poller DeviceBus} {mData : Scratchpad} {l : OpenDrain}

/-! ## Devices that answer in time -/

/-- The loop at its pin, and the loop on the bus of time slots. -/
structure Carried (S : Finset RomNo) (s : Poller OpenDrain) (t : Poller DeviceBus) : Prop where
  ow : s.ow = t.ow
  sent : s.sent = t.sent
  bus : s.bus.Carries S t.bus
  calm : Calm S t.bus

/-- Both loops measure alike, and hand on the same message or none. -/
theorem Carried.measure (h : Carried S s t) (hprompt : ∀ rom ∈ S, (timing rom).presentUs ≤ 136)
    (regNum : RegisterNumber) (tempSens : TemperatureSensor) :
    Carried S
      ((callbacks S timing).measure (OpenDrain.vTaskDelay S timing) mData regNum tempSens s)
      (t.measure (deviceWire S (resetTime S timing)) DeviceBus.vTaskDelay mData regNum
        tempSens) := by
  obtain ⟨ok, data, l', bus', hleft, hright, hbus, hcalm⟩ :=
    h.bus.measureTemperature h.calm hprompt regNum mData
  unfold Callbacks.measure Poller.measure
  simp only [hleft, hright]
  split
  · exact ⟨h.ow, h.sent, hbus, hcalm⟩
  · exact ⟨h.ow, congrArg (· ++ [_]) h.sent, hbus, hcalm⟩

/-- They handle the result of a search alike. -/
theorem Carried.handle (h : Carried S s t) (hprompt : ∀ rom ∈ S, (timing rom).presentUs ≤ 136)
    (found : Option RomNo) :
    Carried S ((callbacks S timing).handle (OpenDrain.vTaskDelay S timing) mData found s)
      (t.handle (deviceWire S (resetTime S timing)) DeviceBus.vTaskDelay mData found) := by
  cases found with
  | none => exact ⟨congrArg OneWire.resetSearch h.ow, h.sent, h.bus, h.calm⟩
  | some romData =>
    unfold Callbacks.handle Poller.handle
    simp only
    split
    · exact h
    · cases TemperatureSensor.create ⟨romData⟩ with
      | none => exact h
      | some tempSens => exact h.measure hprompt _ _

/-- Step lemma: an iteration at the pin is an iteration on the bus of time slots. -/
theorem Carried.poll (h : Carried S s t) (hprompt : ∀ rom ∈ S, (timing rom).presentUs ≤ 136)
    (mData : Scratchpad) :
    ∃ s' t',
      (callbacks S timing).poll (OpenDrain.vTaskDelay S timing) mData s = some s' ∧
      t.poll (deviceWire S (resetTime S timing)) DeviceBus.vTaskDelay mData = some t' ∧
      Carried S s' t' := by
  have hpause : (OpenDrain.vTaskDelay S timing (msecToSysTick 500) s.bus).Carries S
      (t.bus.vTaskDelay (msecToSysTick 500)) := h.bus.vTaskDelay _
  obtain ⟨found, ow', l', bus', hleft, hright, hbus, hcalm⟩ :=
    hpause.search (h.calm.vTaskDelay _) hprompt t.ow
  unfold Callbacks.poll Poller.poll
  simp only [h.ow, hleft, hright, Option.map_some]
  have hfound : Carried S { s with ow := ow', bus := l' } { t with ow := ow', bus := bus' } :=
    ⟨rfl, h.sent, hbus, hcalm⟩
  exact ⟨_, _, rfl, rfl, hfound.handle hprompt found⟩

/-- However many iterations: with its callbacks on the wire, and devices none of which takes longer
than 136 us to answer a reset, the loop has the search state and has handed on the messages that it
has on the bus of time slots. -/
theorem polled_openDrain (hidle : l.Idle S) (hcalm : Calm S l.bus)
    (hprompt : ∀ rom ∈ S, (timing rom).presentUs ≤ 136) (ow : OneWire)
    (mData : Nat → Scratchpad) (n : Nat) :
    ∃ s t,
      (callbacks S timing).polled (OpenDrain.vTaskDelay S timing) mData ⟨ow, l, []⟩ n = some s ∧
      polled (deviceWire S (resetTime S timing)) DeviceBus.vTaskDelay mData ⟨ow, l.bus, []⟩ n =
        some t ∧
      Carried S s t := by
  induction n with
  | zero => exact ⟨_, _, rfl, rfl, rfl, rfl, hidle.carries, hcalm⟩
  | succ n ih =>
    obtain ⟨s, t, hleft, hright, h⟩ := ih
    obtain ⟨s', t', hleft', hright', h'⟩ := h.poll hprompt (mData n)
    refine ⟨s', t', ?_, ?_, h'⟩
    · rw [Callbacks.polled, hleft, Option.bind_some, hleft']
    · rw [polled, hright, Option.bind_some, hright']

/-- A device that answers a reset 30 us after it, with a pulse of this length. -/
def answersFor (us : Nat) (hus : 60 ≤ us ∧ us ≤ 240) : DeviceTiming where
  sampleUs := 30
  holdUs := 30
  presenceWaitUs := 30
  presenceUs := us
  sample_range := by decide
  hold_range := by decide
  presenceWait_range := by decide
  presence_range := hus

/-- A thermometer on the wire that has just got its power. -/
def thermometerLine : OpenDrain where
  mode := .input
  value := false
  clock := 0
  fellAt := 0
  tap rom := ⟨⟨SensorBus.poweredOn.sensor rom, none⟩, 0, 0, none⟩

theorem thermometerLine_idle : thermometerLine.Idle {SensorBus.thermometer.romData} :=
  ⟨not_low_of_input rfl, fun _ _ => Nat.le_refl 0, fun _ => rfl⟩

/-- A thermometer whose presence pulse ends after 130 us. -/
theorem polled_openDrain_prompt :
    let S : Finset RomNo := {SensorBus.thermometer.romData}
    let timing : RomNo → DeviceTiming := fun _ => answersFor 100 (by decide)
    let ow : OneWire := ⟨fun _ => 0, 0, 0, false⟩
    ∃ s t,
      (callbacks S timing).polled (OpenDrain.vTaskDelay S timing) (fun _ _ => 0)
        ⟨ow, thermometerLine, []⟩ 4 = some s ∧
      polled (deviceWire S (resetTime S timing)) DeviceBus.vTaskDelay (fun _ _ => 0)
        ⟨ow, thermometerLine.bus, []⟩ 4 = some t ∧
      Carried S s t :=
  polled_openDrain thermometerLine_idle (fun _ _ => Device.Off.calm ⟨rfl, rfl⟩)
    (fun _ _ => by decide) _ _ 4

/-! ## A device that does not -/

/-- Nobody pulls the wire low any more by the time of the next iteration. -/
structure Settling (S : Finset RomNo) (l : OpenDrain) : Prop where
  released : ¬ l.Low
  pullTo : ∀ rom ∈ S, (l.tap rom).pullTo ≤ l.clock + 300
  slot : ∀ rom, (l.tap rom).slot = none

theorem settling_of_idle (h : l.Idle S) : Settling S l :=
  ⟨h.released, fun rom hrom => (h.pullTo rom hrom).trans (Nat.le_add_right _ _), h.slot⟩

/-- After the pause of an iteration the wire is idle. -/
theorem Settling.pause (h : Settling S l) :
    (OpenDrain.vTaskDelay S timing (msecToSysTick 500) l).Idle S := by
  have hlater : OpenDrain.vTaskDelay S timing (msecToSysTick 500) l = l.later 500000 :=
    elapse_of_none h.slot
  rw [hlater]
  refine ⟨h.released, ?_, h.slot⟩
  intro rom hrom
  have hto := h.pullTo rom hrom
  show (l.tap rom).pullTo ≤ l.clock + 500000
  omega

/-- A presence pulse that takes longer makes `reset` give up before it is over. -/
theorem reset_late (h : l.Idle S) (hlate : ∃ rom ∈ S, 136 < (timing rom).presentUs) :
    ∃ l', (callbacks S timing).reset l = (false, l') ∧ Settling S l' := by
  rcases hlate with ⟨rom, hrom, hlong⟩
  have hle := le_presentUs timing hrom
  rcases h.reset_of_nonempty timing ⟨rom, hrom⟩ rfl with ⟨-, hslow⟩
  refine ⟨_, hslow (by omega), not_low_of_input rfl, ?_, fun _ => rfl⟩
  intro other _
  have hwait := (timing other).presenceWait_range.2
  have hpresence := (timing other).presence_range.2
  show (l.released.pulsed S timing).clock + (timing other).presentUs ≤
    (l.released.pulsed S timing).clock + 136 + 300
  unfold DeviceTiming.presentUs
  omega

/-- Step lemma: an iteration finds nobody. -/
theorem poll_late (h : Settling S s.bus) (hlate : ∃ rom ∈ S, 136 < (timing rom).presentUs)
    (mData : Scratchpad) :
    ∃ s', (callbacks S timing).poll (OpenDrain.vTaskDelay S timing) mData s = some s' ∧
      Settling S s'.bus ∧ s'.sent = s.sent := by
  have hidle : (OpenDrain.vTaskDelay S timing (msecToSysTick 500) s.bus).Idle S := h.pause
  obtain ⟨l', hreset, hsettling⟩ := reset_late hidle hlate
  unfold Callbacks.poll Callbacks.search
  simp only [hreset]
  split
  · exact ⟨_, rfl, settling_of_idle hidle, rfl⟩
  · exact ⟨_, rfl, hsettling, rfl⟩

/-- `reset` finds the devices on an idle wire iff the last of their presence pulses is over 136 us
after its own pulse. A single device that takes longer hides them all: the loop goes on, and never
hands on anything. -/
theorem late_presence_hides (h : l.Idle S) :
    (((callbacks S timing).reset l).1 = true ↔
      S.Nonempty ∧ ∀ rom ∈ S, (timing rom).presentUs ≤ 136) ∧
    ((∃ rom ∈ S, 136 < (timing rom).presentUs) → ∀ (ow : OneWire) (mData : Nat → Scratchpad) n,
      ∃ s, (callbacks S timing).polled (OpenDrain.vTaskDelay S timing) mData ⟨ow, l, []⟩ n =
        some s ∧ s.sent = []) := by
  refine ⟨reset_answered_iff h, ?_⟩
  intro hlate ow mData n
  have hrun : ∃ s, (callbacks S timing).polled (OpenDrain.vTaskDelay S timing) mData
      ⟨ow, l, []⟩ n = some s ∧ Settling S s.bus ∧ s.sent = [] := by
    induction n with
    | zero => exact ⟨_, rfl, settling_of_idle h, rfl⟩
    | succ n ih =>
      obtain ⟨s, hs, hsettling, hsent⟩ := ih
      obtain ⟨s', hs', hsettling', hsent'⟩ := poll_late hsettling hlate (mData n)
      refine ⟨s', ?_, hsettling', hsent'.trans hsent⟩
      rw [Callbacks.polled, hs, Option.bind_some, hs']
  obtain ⟨s, hs, -, hsent⟩ := hrun
  exact ⟨s, hs, hsent⟩

/-- A thermometer whose presence pulse ends after 150 us. -/
theorem late_presence_hides_thermometer :
    let S : Finset RomNo := {SensorBus.thermometer.romData}
    let timing : RomNo → DeviceTiming := fun _ => answersFor 120 (by decide)
    (((callbacks S timing).reset thermometerLine).1 = true ↔
      S.Nonempty ∧ ∀ rom ∈ S, (timing rom).presentUs ≤ 136) ∧
    ∃ s, (callbacks S timing).polled (OpenDrain.vTaskDelay S timing) (fun _ _ => 0)
      ⟨⟨fun _ => 0, 0, 0, false⟩, thermometerLine, []⟩ 4 = some s ∧ s.sent = [] := by
  intro S timing
  have hslow : 136 < (timing SensorBus.thermometer.romData).presentUs := by decide
  have hhides := @late_presence_hides S timing _ thermometerLine_idle
  exact ⟨hhides.1, hhides.2 ⟨_, Finset.mem_singleton_self _, hslow⟩ _ _ 4⟩

end Poller

end EspAcDimmer
