import EspAcDimmer.Lib.LittleEndian
import EspAcDimmer.OneWire.Celsius
import EspAcDimmer.OneWire.Measurement

/-! # The loop of `app_main`

Twice a second the loop searches for the next device, measures its temperature if it is a
thermometer, and hands the reading to `udp_srv::sendData`. The sensor object is new every time, so
its `m_data` is whatever was in that memory.
-/

namespace EspAcDimmer

open BitTrie LittleEndian

/-- `RegisterNumber::val64`, which shares the bytes of the ROM code. -/
def RegisterNumber.val64 (n : RegisterNumber) : BitVec 64 :=
  BitVec.ofNat 64 (ofBytes (List.ofFn n.romData))

/-- `TempMsg`. -/
structure TempMsg where
  id : BitVec 64
  tempCels : BitVec 32
deriving DecidableEq

/-- What the loop holds on to, with the bus behind `ow_inst` and the messages handed on so far. -/
structure Poller (β : Type) where
  ow : OneWire
  bus : β
  sent : List TempMsg

namespace Poller

variable {β : Type}

/-- The end of an iteration: `measureTemperature` and what follows it. -/
def measure (w : Wire β) (vTaskDelay : Nat → β → β) (mData : Scratchpad) (regNum : RegisterNumber)
    (tempSens : TemperatureSensor) (s : Poller β) : Poller β :=
  let (ok, mData, bus) := OneWire.measureTemperature w vTaskDelay regNum mData s.bus
  if !ok then { s with bus := bus }  -- "Bad sensor"
  else
    let msg := ⟨regNum.val64, tempSens.getCelsius mData⟩
    { s with bus := bus, sent := s.sent ++ [msg] }

/-- What an iteration does with the result of its search. -/
def handle (w : Wire β) (vTaskDelay : Nat → β → β) (mData : Scratchpad) (found : Option RomNo)
    (s : Poller β) : Poller β :=
  match found with
  | none => { s with ow := s.ow.resetSearch }  -- "No more addresses."
  | some romData =>
    let regNum := RegisterNumber.mk romData
    if !regNum.isCrcValid then s  -- "CRC is not valid!"
    else
      match TemperatureSensor.create regNum with
      | none => s  -- "Bad sensor"
      | some tempSens => s.measure w vTaskDelay mData regNum tempSens

/-- One iteration. -/
def poll (w : Wire β) (vTaskDelay : Nat → β → β) (mData : Scratchpad) (s : Poller β) :
    Option (Poller β) :=
  let bus := vTaskDelay (msecToSysTick 500) s.bus
  (s.ow.search w true bus).map fun (found, ow, bus) =>
    handle w vTaskDelay mData found { s with ow := ow, bus := bus }

/-- The state after `n` iterations. -/
def polled (w : Wire β) (vTaskDelay : Nat → β → β) (mData : Nat → Scratchpad) (s : Poller β) :
    Nat → Option (Poller β)
  | 0 => some s
  | n + 1 => (polled w vTaskDelay mData s n).bind (poll w vTaskDelay (mData n))

variable {w : Wire β} {vTaskDelay : Nat → β → β} {mData : Scratchpad} {s : Poller β}

/-! ## On any wire -/

/-- The loop goes on whatever is on the wire. -/
theorem polled_isSome (w : Wire β) (vTaskDelay : Nat → β → β) (mData : Nat → Scratchpad)
    (s : Poller β) (n : Nat) : (polled w vTaskDelay mData s n).isSome = true := by
  induction n with
  | zero => rfl
  | succ n ih =>
    rcases Option.isSome_iff_exists.mp ih with ⟨t, ht⟩
    simp only [polled, ht, Option.bind_some, poll, Option.isSome_map]
    exact search_isSome _ _ _

/-- The run as a sequence of states. -/
theorem exists_states (w : Wire β) (vTaskDelay : Nat → β → β) (mData : Nat → Scratchpad)
    (s : Poller β) : ∃ states : Nat → Poller β,
      (∀ n, polled w vTaskDelay mData s n = some (states n)) ∧ states 0 = s ∧
        ∀ n, poll w vTaskDelay (mData n) (states n) = some (states (n + 1)) := by
  choose states hstates using fun n =>
    Option.isSome_iff_exists.mp (polled_isSome w vTaskDelay mData s n)
  refine ⟨states, hstates, (Option.some.inj (hstates 0)).symm, ?_⟩
  intro n
  have hnext := hstates (n + 1)
  rwa [polled, hstates n, Option.bind_some] at hnext

/-- A reading of a thermometer whose checksums are right. -/
def Checked (msg : TempMsg) : Prop :=
  ∃ regNum tempSens, ∃ data : Scratchpad, regNum.isCrcValid = true ∧
    TemperatureSensor.create regNum = some tempSens ∧ data.isCrcValid = true ∧
      msg = ⟨regNum.val64, tempSens.getCelsius data⟩

/-- Step lemma: an iteration adds at most one message, a checked one. -/
theorem poll_sent {s' : Poller β} (hpoll : poll w vTaskDelay mData s = some s') :
    s'.sent = s.sent ∨ ∃ msg, Checked msg ∧ s'.sent = s.sent ++ [msg] := by
  rcases Option.map_eq_some_iff.mp hpoll with ⟨⟨found, ow, bus⟩, -, rfl⟩
  cases found with
  | none => exact Or.inl rfl
  | some romData =>
    unfold handle
    simp only
    split
    · exact Or.inl rfl
    · next hcrc =>
      split
      · exact Or.inl rfl
      · next tempSens hcreate =>
        unfold measure
        simp only
        split
        · exact Or.inl rfl
        · next hok =>
          exact Or.inr ⟨_, ⟨⟨romData⟩, tempSens, _, by simpa using hcrc, hcreate,
            OneWire.measureTemperature_valid (by simpa using hok), rfl⟩, rfl⟩

/-- An iteration keeps the messages checked. -/
theorem poll_checked {s' : Poller β} (hpoll : poll w vTaskDelay mData s = some s')
    (h : ∀ msg ∈ s.sent, Checked msg) : ∀ msg ∈ s'.sent, Checked msg := by
  intro msg hmsg
  rcases poll_sent hpoll with heq | ⟨new, hnew, heq⟩
  · exact h msg (heq ▸ hmsg)
  · rw [heq] at hmsg
    rcases List.mem_append.mp hmsg with hold | hmsg
    · exact h msg hold
    · obtain rfl := List.mem_singleton.mp hmsg
      exact hnew

/-- However noisy the wire, the loop never ends, and every message that it hands on is a reading
with the right checksums of a device that is a thermometer by its code. -/
theorem sent_checked (w : Wire β) (vTaskDelay : Nat → β → β) (mData : Nat → Scratchpad)
    (ow : OneWire) (bus : β) (n : Nat) :
    ∃ s, polled w vTaskDelay mData ⟨ow, bus, []⟩ n = some s ∧ ∀ msg ∈ s.sent, Checked msg := by
  obtain ⟨states, hpolled, hzero, hpoll⟩ := exists_states w vTaskDelay mData ⟨ow, bus, []⟩
  refine ⟨states n, hpolled n, ?_⟩
  induction n with
  | zero =>
    rw [hzero]
    exact fun msg hmsg => absurd hmsg List.not_mem_nil
  | succ n ih => exact poll_checked (hpoll n) ih

end Poller

end EspAcDimmer
