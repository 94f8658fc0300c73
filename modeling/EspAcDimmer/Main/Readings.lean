import EspAcDimmer.Main.AppMain

/-! # What the readings say

On a bus without noise the loop comes to every device once in a round, and a round has one
iteration more than there are devices. The scratchpad that it reads then is the one of the previous
round: that conversion has had at least a second.
-/

namespace EspAcDimmer

open BitTrie

namespace Poller

variable {β : Type} {w : Wire β} {vTaskDelay : Nat → β → β} {mData : Scratchpad}
  {L : List RomNo} {S : Finset RomNo} {time : ResetTime} {i : Nat} {t : RomNo}

/-! ## The order of the visits -/

/-- The search state is reset behind the last device, and is left alone otherwise. -/
theorem ow_handle (found : Option RomNo) (s : Poller β) :
    (s.handle w vTaskDelay mData found).ow = if found = none then s.ow.resetSearch else s.ow := by
  cases found with
  | none => rfl
  | some romData =>
    unfold handle
    simp only
    split
    · rfl
    · split
      · rfl
      · unfold measure
        simp only
        split <;> rfl

/-- Step lemma: an iteration handles the next entry of the enumeration. -/
theorem poll_visits (mData : Scratchpad) (hsorted : L.Pairwise (BitsLt RomNo.bit 64))
    (bus : WiredAnd w L.toFinset) (hfamily : ∀ rom ∈ L, rom 0 ≠ 0) {s : Poller β}
    (h : Returns w L i s.ow) :
    ∃ ow' bus', OneWire.search w true s.ow (vTaskDelay (msecToSysTick 500) s.bus) =
        some (L[i]?, ow', bus') ∧
      poll w vTaskDelay mData s =
        some (handle w vTaskDelay mData L[i]? { s with ow := ow', bus := bus' }) ∧
      Returns w L (if i = L.length then 0 else i + 1)
        (handle w vTaskDelay mData L[i]? { s with ow := ow', bus := bus' }).ow := by
  rcases h (vTaskDelay (msecToSysTick 500) s.bus) with ⟨ow', bus', hsearch, hstage⟩
  refine ⟨ow', bus', hsearch, ?_, ?_⟩
  · simp only [poll, hsearch, Option.map_some]
  · rw [ow_handle]
    by_cases hend : i = L.length
    · -- `reset_search` starts a round that starts anyway
      rw [if_pos hend, if_pos (List.getElem?_eq_none_iff.mpr hend.ge)]
      exact Stage.search hsorted bus hfamily (.fresh rfl rfl)
    · rw [if_neg hend] at hstage ⊢
      have hfound : L[i]? ≠ none := by
        cases hstage with
        | after hi _ _ _ => exact (List.getElem?_eq_getElem hi).trans_ne (Option.some_ne_none _)
      rw [if_neg hfound]
      exact hstage.search hsorted bus hfamily

/-! ## One iteration on the bus of devices -/

/-- What a visit adds to the messages. -/
def report (regNum : RegisterNumber) (tempSens : TemperatureSensor) (data : Scratchpad) :
    List TempMsg :=
  if data.isCrcValid then [⟨regNum.val64, tempSens.getCelsius data⟩] else []

/-- What the loop makes of the device `t`. -/
def thermometerOf (t : RomNo) : Option TemperatureSensor :=
  if (RegisterNumber.mk t).isCrcValid then TemperatureSensor.create ⟨t⟩ else none

/-- The sensor `t`, but for where it stands in a command. -/
def core (s : Poller DeviceBus) (t : RomNo) : Sensor := (s.bus.device t).core

def clock (s : Poller DeviceBus) : Nat := s.bus.clock

/-- The delay at the start of an iteration, in microseconds. -/
def pauseUs : Nat := 500000

theorem clock_pause (bus : DeviceBus) :
    (bus.vTaskDelay (msecToSysTick 500)).clock = bus.clock + pauseUs := rfl

/-- All that an iteration does with a device is to measure it, if it is a thermometer. -/
theorem handle_eq (found : Option RomNo) (s : Poller β) :
    s.handle w vTaskDelay mData found =
      match found with
      | none => { s with ow := s.ow.resetSearch }
      | some t =>
        match thermometerOf t with
        | none => s
        | some tempSens => s.measure w vTaskDelay mData ⟨t⟩ tempSens := by
  cases found with
  | none => rfl
  | some t =>
    unfold handle thermometerOf
    simp only
    cases (RegisterNumber.mk t).isCrcValid with
    | false => rfl
    | true => rfl

/-- A measurement starts a conversion of its sensor and of no other; what it reports is in the
scratchpad before. -/
theorem measure_after (time : ResetTime) (ht : t ∈ S) (tempSens : TemperatureSensor)
    (mData : Scratchpad) (s : Poller DeviceBus) :
    ∃ start, s.clock ≤ start ∧
      start ≤ (s.measure (deviceWire S time) DeviceBus.vTaskDelay mData ⟨t⟩ tempSens).clock ∧
      (∀ u, (s.measure (deviceWire S time) DeviceBus.vTaskDelay mData ⟨t⟩ tempSens).core u =
        if u = t then (s.core t).convert start else s.core u) ∧
      (s.measure (deviceWire S time) DeviceBus.vTaskDelay mData ⟨t⟩ tempSens).sent =
        s.sent ++ report ⟨t⟩ tempSens ((s.core t).scratchpadAt start) := by
  obtain ⟨ok, data, bus', hdevices, hsensors⟩ :=
    DeviceBus.measureTemperature_sensors S time ⟨t⟩ mData s.bus
  have ht' : (RegisterNumber.mk t).romData ∈ S := ht
  have hafter := SensorBus.measureTemperature_after time ht' mData s.bus.sensors
  obtain ⟨hok, hdata⟩ := SensorBus.measureTemperature_previous time ht' mData s.bus.sensors
  rw [hsensors] at hafter hok hdata
  rcases hafter with ⟨hclock, hcore⟩
  let start := s.bus.sensors.conversionStart S time ⟨t⟩
  have hstart : s.clock ≤ start := (SensorBus.clock_commanded S time ⟨t⟩ 0x44 s.bus.sensors).1
  have hprevious : data = (s.core t).scratchpadAt start := hdata
  have hvalid : ok = data.isCrcValid := by
    rw [hprevious]
    exact hok
  unfold measure
  simp only [hdevices]
  refine ⟨start, hstart, ?_, ?_, ?_⟩
  · split
    · exact hclock
    · exact hclock
  · intro u
    have hu : (bus'.device u).core = if u = t then (s.core t).convert start else s.core u := by
      refine (hcore u).trans ?_
      split
      · next he =>
        rw [he]
        rfl
      · rfl
    split
    · exact hu
    · exact hu
  · unfold report
    rw [← hprevious, hvalid]
    cases data.isCrcValid with
    | false => exact (List.append_nil _).symm
    | true => rfl

/-- An iteration takes its pause at least, and its search leaves the sensors alone. -/
theorem keeps_search {ow ow' : OneWire} {bus bus' : DeviceBus} {found : Option RomNo}
    (h : OneWire.search (deviceWire S time) true ow (bus.vTaskDelay (msecToSysTick 500)) =
      some (found, ow', bus')) :
    bus.clock + pauseUs ≤ bus'.clock ∧
      ∀ rom, (bus'.device rom).core = (bus.device rom).core := by
  obtain ⟨found₁, ow₁, bus₁, hsearch, hkeeps⟩ :=
    DeviceBus.search_keeps S time ow (bus.vTaskDelay (msecToSysTick 500))
  obtain ⟨-, -, rfl⟩ : found₁ = found ∧ ow₁ = ow' ∧ bus₁ = bus' := by
    simpa using hsearch.symm.trans h
  exact ⟨(clock_pause bus).symm.le.trans hkeeps.clock, hkeeps.core⟩

/-- Step lemma: where `t` is not visited, its sensor stays as it is. -/
theorem handle_other (time : ResetTime) (mData : Scratchpad) {found : Option RomNo}
    (hfound : ∀ u, found = some u → u ∈ S) (ht : found ≠ some t) (s : Poller DeviceBus) :
    s.clock ≤ (s.handle (deviceWire S time) DeviceBus.vTaskDelay mData found).clock ∧
      (s.handle (deviceWire S time) DeviceBus.vTaskDelay mData found).core t = s.core t := by
  rw [handle_eq]
  cases found with
  | none => exact ⟨Nat.le_refl _, rfl⟩
  | some u =>
    have hne : t ≠ u := fun he => ht (by rw [he])
    simp only
    split
    · exact ⟨Nat.le_refl _, rfl⟩
    · next tempSens _ =>
      obtain ⟨start, hstart, hend, hcore, -⟩ :=
        measure_after time (hfound u rfl) tempSens mData s
      exact ⟨hstart.trans hend, (hcore t).trans (if_neg hne)⟩

/-! ## Rounds -/

/-- A run of the loop, iteration by iteration, that goes through the devices `L`. -/
structure Rounds (time : ResetTime) (L : List RomNo) (mData : Nat → Scratchpad)
    (states : Nat → Poller DeviceBus) : Prop where
  sorted : L.Pairwise (BitsLt RomNo.bit 64)
  family : ∀ rom ∈ L, rom 0 ≠ 0
  poll : ∀ n, poll (deviceWire L.toFinset time) DeviceBus.vTaskDelay (mData n) (states n) =
    some (states (n + 1))
  returns : Returns (deviceWire L.toFinset time) L 0 (states 0).ow

namespace Rounds

variable {mData : Nat → Scratchpad} {states : Nat → Poller DeviceBus} {n k : Nat}
  {tempSens : TemperatureSensor}

/-- Every iteration finds its own entry of the enumeration. -/
theorem returns_mod (h : Rounds time L mData states) (n : Nat) :
    Returns (deviceWire L.toFinset time) L (n % (L.length + 1)) (states n).ow := by
  induction n with
  | zero => exact h.returns
  | succ n ih =>
    obtain ⟨ow', bus', -, hpoll, hnext⟩ := poll_visits (mData n) h.sorted
      (deviceWire_wiredAnd L.toFinset time) h.family ih
    rw [stage_succ] at hnext
    rwa [Option.some.inj (hpoll.symm.trans (h.poll n))] at hnext

/-- An iteration is its pause, a search that changes no sensor, and what it makes of the entry. -/
theorem step (h : Rounds time L mData states) (n : Nat) :
    ∃ s : Poller DeviceBus, states (n + 1) = s.handle (deviceWire L.toFinset time)
        DeviceBus.vTaskDelay (mData n) L[n % (L.length + 1)]? ∧
      (states n).clock + pauseUs ≤ s.clock ∧ (∀ t, s.core t = (states n).core t) ∧
        s.sent = (states n).sent := by
  obtain ⟨ow', bus', hsearch, hpoll, -⟩ := poll_visits (mData n) h.sorted
    (deviceWire_wiredAnd L.toFinset time) h.family (h.returns_mod n)
  rcases keeps_search hsearch with ⟨hclock, hcore⟩
  exact ⟨_, Option.some.inj ((h.poll n).symm.trans hpoll), hclock, hcore, rfl⟩

/-- Step lemma: an iteration that does not come to `t` leaves its sensor alone. -/
theorem step_other (h : Rounds time L mData states) (ht : L[n % (L.length + 1)]? ≠ some t) :
    (states n).clock + pauseUs ≤ (states (n + 1)).clock ∧
      (states (n + 1)).core t = (states n).core t := by
  obtain ⟨s, hstep, hclock, hcore, -⟩ := h.step n
  have hmem : ∀ u, L[n % (L.length + 1)]? = some u → u ∈ L.toFinset :=
    fun u hu => List.mem_toFinset.mpr (List.mem_of_getElem? hu)
  rcases handle_other time (mData n) hmem ht s with ⟨hclock', hcore'⟩
  rw [hstep]
  exact ⟨hclock.trans hclock', hcore'.trans (hcore t)⟩

/-- Step lemma: an iteration that comes to the thermometer `t` reports its scratchpad, and starts
its next conversion. -/
theorem step_visit (h : Rounds time L mData states) (ht : L[n % (L.length + 1)]? = some t)
    (htherm : thermometerOf t = some tempSens) :
    ∃ start, (states n).clock + pauseUs ≤ start ∧ start ≤ (states (n + 1)).clock ∧
      (states (n + 1)).core t = ((states n).core t).convert start ∧
      (states (n + 1)).sent = (states n).sent ++
        report ⟨t⟩ tempSens (((states n).core t).scratchpadAt start) := by
  obtain ⟨s, hstep, hclock, hcore, hsent⟩ := h.step n
  rw [handle_eq, ht] at hstep
  simp only [htherm] at hstep
  obtain ⟨start, hstart, hend, hmeasured, hreport⟩ := measure_after time
    (List.mem_toFinset.mpr (List.mem_of_getElem? ht)) tempSens (mData n) s
  rw [← hstep] at hend hmeasured hreport
  have hself := hmeasured t
  rw [if_pos rfl, hcore t] at hself
  rw [hcore t, hsent] at hreport
  exact ⟨start, hclock.trans hstart, hend, hself, hreport⟩

/-- Step lemma: other entries are not reported. -/
theorem step_silent (h : Rounds time L mData states)
    (hnone : ∀ t, L[n % (L.length + 1)]? = some t → thermometerOf t = none) :
    (states (n + 1)).sent = (states n).sent := by
  obtain ⟨s, hstep, -, -, hsent⟩ := h.step n
  rw [hstep, handle_eq]
  cases hfound : L[n % (L.length + 1)]? with
  | none => exact hsent
  | some t =>
    simp only [hnone t hfound]
    exact hsent

/-- Run lemma: until `t` is visited, its sensor stays as it is, and the pauses add up. -/
theorem run_other (h : Rounds time L mData states)
    (ht : ∀ j < k, L[(n + j) % (L.length + 1)]? ≠ some t) :
    (states n).clock + k * pauseUs ≤ (states (n + k)).clock ∧
      (states (n + k)).core t = (states n).core t := by
  induction k with
  | zero => exact ⟨by simp, rfl⟩
  | succ k ih =>
    rcases ih fun j hj => ht j (Nat.lt_succ_of_lt hj) with ⟨hclock, hcore⟩
    rcases h.step_other (ht k (Nat.lt_succ_self k)) with ⟨hclock', hcore'⟩
    refine ⟨?_, hcore'.trans hcore⟩
    rw [Nat.succ_mul, ← Nat.add_assoc]
    exact (Nat.add_le_add_right hclock pauseUs).trans hclock'

/-- Run lemma: no iteration changes what a conversion finds, or how long it takes. -/
theorem run_result (h : Rounds time L mData states) (htherm : thermometerOf t = some tempSens)
    (n : Nat) : ((states n).core t).result = ((states 0).core t).result := by
  induction n with
  | zero => rfl
  | succ n ih =>
    by_cases ht : L[n % (L.length + 1)]? = some t
    · obtain ⟨start, -, -, hcore, -⟩ := h.step_visit ht htherm
      rw [hcore, ← ih]
      rfl
    · rw [(h.step_other ht).2, ih]

/-- An entry comes once in a round. -/
theorem next_visit (h : Rounds time L mData states) (ht : L[n % (L.length + 1)]? = some t) {j : Nat}
    (hpos : 0 < j) (hj : j ≤ L.length) : L[(n + j) % (L.length + 1)]? ≠ some t := by
  intro hagain
  have hnodup : L.Nodup := h.sorted.imp fun hlt he => by
    subst he
    exact hlt.asymm hlt
  have hlt : n % (L.length + 1) < L.length := (List.getElem?_eq_some_iff.mp ht).1
  have hsame : n % (L.length + 1) = (n + j) % (L.length + 1) :=
    (List.getElem?_inj hlt hnodup).mp (ht.trans hagain.symm)
  have hround : (n + j - n) % (L.length + 1) = 0 := Nat.sub_mod_eq_zero_of_mod_eq hsame.symm
  rw [Nat.add_sub_cancel_left, Nat.mod_eq_of_lt (by omega)] at hround
  omega

/-- What is reported a round later is what the conversion of this visit has found. -/
theorem report_next (h : Rounds time L mData states) (ht : L[n % (L.length + 1)]? = some t)
    (htherm : thermometerOf t = some tempSens) :
    ∃ start, (states n).clock ≤ start ∧ start ≤ (states (n + 1)).clock ∧
      (states (n + (L.length + 1) + 1)).sent = (states (n + (L.length + 1))).sent ++
        report ⟨t⟩ tempSens (((states 0).core t).result start) := by
  obtain ⟨start, hstart, hend, hcore, -⟩ := h.step_visit ht htherm
  have hlen : 0 < L.length := (Nat.zero_le _).trans_lt (List.getElem?_eq_some_iff.mp ht).1
  have hpast : n + 1 + L.length = n + (L.length + 1) := by omega
  obtain ⟨hclock, hkept⟩ := h.run_other (n := n + 1) (k := L.length) (t := t) fun j hj => by
    rw [Nat.add_assoc, Nat.add_comm 1 j]
    exact h.next_visit ht (Nat.succ_pos j) hj
  rw [hpast] at hclock hkept
  have hagain : L[(n + (L.length + 1)) % (L.length + 1)]? = some t := by
    rwa [Nat.add_mod_right]
  obtain ⟨start', hstart', -, -, hsent⟩ := h.step_visit hagain htherm
  refine ⟨start, (Nat.le_add_right _ _).trans hstart, hend, ?_⟩
  rw [hsent, hkept, hcore, Sensor.scratchpadAt_convert, h.run_result htherm]
  -- two pauses at least lie between the two commands
  have hpauses : 1 * pauseUs ≤ L.length * pauseUs := Nat.mul_le_mul_right _ hlen
  have hconversion : ((states n).core t).resolution.conversionUs ≤ 750000 := by
    cases ((states n).core t).resolution <;> decide
  rw [if_pos]
  unfold pauseUs at hclock hpauses hstart'
  omega

/-- In the first round, what is reported is what was in the scratchpad. -/
theorem report_first (h : Rounds time L mData states) (ht : L[n % (L.length + 1)]? = some t)
    (htherm : thermometerOf t = some tempSens) (hn : n < L.length + 1) :
    ∃ start, (states n).clock ≤ start ∧ start ≤ (states (n + 1)).clock ∧
      (states (n + 1)).sent = (states n).sent ++
        report ⟨t⟩ tempSens (((states 0).core t).scratchpadAt start) := by
  obtain ⟨start, hstart, hend, -, hsent⟩ := h.step_visit ht htherm
  obtain ⟨-, hkept⟩ := h.run_other (n := 0) (k := n) (t := t) fun j hj hearlier => by
    rw [Nat.zero_add] at hearlier
    have hlater := h.next_visit hearlier (j := n - j) (by omega) (by omega)
    rw [Nat.add_sub_of_le hj.le] at hlater
    exact hlater ht
  rw [Nat.zero_add] at hkept
  rw [hkept] at hsent
  exact ⟨start, (Nat.le_add_right _ _).trans hstart, hend, hsent⟩

end Rounds

/-- On a bus of devices without noise, none of which has the family code 0 (`search` takes such a
code for the end of the bus), whatever state they are in when the loop starts: it comes to the
devices in the order of their codes, once in a round of `L.length + 1` iterations; only thermometers
are reported; and a report is of the conversion that the visit one round before has started, or in
the first round, of what was in the scratchpad. -/
theorem readings_fresh (time : ResetTime) (hfamily : ∀ rom ∈ S, rom 0 ≠ 0) :
    ∃ L : List RomNo, L.toFinset = S ∧ L.Pairwise (BitsLt RomNo.bit 64) ∧
      ∀ (ow : OneWire) (bus : DeviceBus) (mData : Nat → Scratchpad),
        ∃ states : Nat → Poller DeviceBus,
          (∀ n, polled (deviceWire S time) DeviceBus.vTaskDelay mData ⟨ow.resetSearch, bus, []⟩ n =
            some (states n)) ∧
          (∀ n, (∀ t, L[n % (L.length + 1)]? = some t → thermometerOf t = none) →
            (states (n + 1)).sent = (states n).sent) ∧
          ∀ n t tempSens, L[n % (L.length + 1)]? = some t → thermometerOf t = some tempSens →
            (n < L.length + 1 → ∃ start, (states n).clock ≤ start ∧
              start ≤ (states (n + 1)).clock ∧ (states (n + 1)).sent = (states n).sent ++
                report ⟨t⟩ tempSens ((bus.device t).sensor.scratchpadAt start)) ∧
            ∃ start, (states n).clock ≤ start ∧ start ≤ (states (n + 1)).clock ∧
              (states (n + (L.length + 1) + 1)).sent = (states (n + (L.length + 1))).sent ++
                report ⟨t⟩ tempSens ((bus.device t).sensor.result start) := by
  rcases exists_sorted (fun _ _ => RomNo.ext_bit) S with ⟨L, rfl, hsorted⟩
  refine ⟨L, rfl, hsorted, ?_⟩
  intro ow bus mData
  obtain ⟨states, hpolled, hzero, hpoll⟩ := exists_states (deviceWire L.toFinset time)
    DeviceBus.vTaskDelay mData ⟨ow.resetSearch, bus, []⟩
  have hfamily' : ∀ rom ∈ L, rom 0 ≠ 0 := by simpa using hfamily
  have hrounds : Rounds time L mData states := by
    refine ⟨hsorted, hfamily', hpoll, ?_⟩
    rw [hzero]
    exact Stage.search hsorted (deviceWire_wiredAnd L.toFinset time) hfamily' (.fresh rfl rfl)
  refine ⟨states, hpolled, fun n hnone => hrounds.step_silent hnone, ?_⟩
  intro n t tempSens ht htherm
  have hfirst := fun hn => hrounds.report_first ht htherm hn
  have hnext := hrounds.report_next ht htherm
  rw [hzero] at hfirst hnext
  exact ⟨hfirst, hnext⟩

/-- A bus with one thermometer. -/
theorem readings_fresh_thermometer :
    ∃ L : List RomNo, L.toFinset = {SensorBus.thermometer.romData} ∧
      L.Pairwise (BitsLt RomNo.bit 64) ∧
      ∀ (ow : OneWire) (bus : DeviceBus) (mData : Nat → Scratchpad),
        ∃ states : Nat → Poller DeviceBus,
          (∀ n, polled (deviceWire {SensorBus.thermometer.romData} SensorBus.promptReset)
            DeviceBus.vTaskDelay mData ⟨ow.resetSearch, bus, []⟩ n = some (states n)) ∧
          (∀ n, (∀ t, L[n % (L.length + 1)]? = some t → thermometerOf t = none) →
            (states (n + 1)).sent = (states n).sent) ∧
          ∀ n t tempSens, L[n % (L.length + 1)]? = some t → thermometerOf t = some tempSens →
            (n < L.length + 1 → ∃ start, (states n).clock ≤ start ∧
              start ≤ (states (n + 1)).clock ∧ (states (n + 1)).sent = (states n).sent ++
                report ⟨t⟩ tempSens ((bus.device t).sensor.scratchpadAt start)) ∧
            ∃ start, (states n).clock ≤ start ∧ start ≤ (states (n + 1)).clock ∧
              (states (n + (L.length + 1) + 1)).sent = (states (n + (L.length + 1))).sent ++
                report ⟨t⟩ tempSens ((bus.device t).sensor.result start) :=
  readings_fresh SensorBus.promptReset (by simp [SensorBus.thermometer])

end Poller

end EspAcDimmer
