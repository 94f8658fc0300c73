import EspAcDimmer.OneWire.Measurement
import EspAcDimmer.OneWire.OpenDrain

/-! # Master and devices in step

On the wire, a master that writes while a device sends, or reads while a device listens, gets
something else than the bus of time slots says. `search` and `measureTemperature` never do that:
they read when it is a device's turn to send, and write when the devices listen.
-/

namespace EspAcDimmer

open BitTrie Crc

/-! ## How long a device listens -/

/-- The device listens to `n` bits at least, whatever they are. -/
def Device.Takes (n : Nat) (d : Device) : Prop :=
  match d.search, d.sensor.phase with
  | none, .romCommand received => received.length + n ≤ 8
  | none, .matchRom k => k + n ≤ 72
  | none, .functionCommand received => received.length + n ≤ 8
  | none, .silent => True
  | none, .transmit _ _ => n = 0
  | some (.direction _), _ => n ≤ 1
  | some _, _ => n = 0

namespace Device

variable {d : Device} {rom : RomNo} {clock n : Nat} {v : Bool}

theorem takes_reset (d : Device) : d.reset.Takes 8 := Nat.le_refl 8

/-- A device that listens does not send. -/
theorem Takes.turn (h : d.Takes (n + 1)) : d.turn rom = none := by
  rcases d with ⟨sensor, search⟩
  cases search with
  | some p =>
    cases p with
    | idBit k => exact absurd h (Nat.succ_ne_zero n)
    | cmpIdBit k => exact absurd h (Nat.succ_ne_zero n)
    | direction k => rfl
  | none =>
    unfold Takes at h
    unfold Device.turn
    cases hphase : sensor.phase with
    | transmit data k =>
      simp only [hphase] at h
      exact absurd h (Nat.succ_ne_zero n)
    | romCommand received => rfl
    | matchRom k => rfl
    | functionCommand received => rfl
    | silent => rfl

/-- A device that was told a bit has one bit less to listen to. -/
theorem Takes.writeSlot (h : d.Takes (n + 1)) : (d.writeSlot rom clock v).Takes n := by
  rcases d with ⟨sensor, search⟩
  cases search with
  | some p =>
    cases p with
    | idBit k => exact absurd h (Nat.succ_ne_zero n)
    | cmpIdBit k => exact absurd h (Nat.succ_ne_zero n)
    | direction k =>
      obtain rfl : n = 0 := Nat.le_zero.mp (Nat.le_of_succ_le_succ h)
      unfold Device.writeSlot
      simp only
      split
      · split
        · rfl
        · exact Nat.zero_le 8
      · trivial
  | none =>
    unfold Takes at h
    unfold Device.writeSlot
    cases hphase : sensor.phase with
    | romCommand received =>
      simp only [hphase] at h ⊢
      split
      · next hcommand =>
        have hlen := congrArg List.length hcommand
        rw [List.length_append, List.length_singleton, length_bits] at hlen
        show n = 0
        omega
      · unfold Sensor.writeSlot
        simp only [hphase]
        split
        · simp only [Takes, Sensor.phase_toPhase, List.length_append, List.length_singleton]
          omega
        · obtain rfl : n = 0 := by omega
          unfold Sensor.romCommand
          split
          · exact Nat.zero_le 72
          · trivial
    | matchRom k =>
      simp only [hphase, Sensor.writeSlot] at h ⊢
      split
      · split
        · simp only [Takes, Sensor.phase_toPhase]
          omega
        · simp only [Takes, Sensor.phase_toPhase, List.length_nil]
          omega
      · trivial
    | functionCommand received =>
      simp only [hphase, Sensor.writeSlot] at h ⊢
      split
      · simp only [Takes, Sensor.phase_toPhase, List.length_append, List.length_singleton]
        omega
      · obtain rfl : n = 0 := by omega
        unfold Sensor.functionCommand
        split
        · trivial
        · split
          · rfl
          · trivial
    | transmit data k =>
      simp only [hphase] at h
      exact absurd h (Nat.succ_ne_zero n)
    | silent =>
      simp only [hphase, Sensor.writeSlot]
      trivial

theorem Takes.mono (h : d.Takes n) {m : Nat} (hm : m ≤ n) : d.Takes m := by
  unfold Takes at h ⊢
  split at h
  all_goals omega

end Device

namespace OpenDrain

variable {S : Finset RomNo} {timing : RomNo → DeviceTiming} {time : ResetTime} {l : OpenDrain}
  {bus : DeviceBus} {n : Nat}

/-- All devices listen to `n` bits at least. -/
def Taking (S : Finset RomNo) (n : Nat) (bus : DeviceBus) : Prop :=
  ∀ rom ∈ S, (bus.device rom).Takes n

/-- Bits that were written are bits less to listen to. -/
theorem taking_writeBits {bs : List Bool} (h : Taking S (bs.length + n) bus) :
    Taking S n (bs.foldl (deviceWire S time).writeBit bus) := by
  induction bs generalizing bus with
  | nil =>
    rw [List.length_nil, Nat.zero_add] at h
    exact h
  | cons b bs ih =>
    rw [List.length_cons, Nat.add_right_comm] at h
    exact ih fun rom hrom => (h rom hrom).writeSlot

/-- The master writes while the devices listen. -/
theorem Carries.writeBits (h : l.Carries S bus) {bs : List Bool}
    (htaking : Taking S bs.length bus) :
    (bs.foldl (callbacks S timing).slots.writeBit l).Carries S
      (bs.foldl (deviceWire S time).writeBit bus) := by
  induction bs generalizing l bus with
  | nil => exact h
  | cons b bs ih =>
    refine ih (h.writeBit (fun rom hrom => (htaking rom hrom).turn) b) ?_
    exact fun rom hrom => (htaking rom hrom).writeSlot

/-- A byte is written in step, if the devices listen to all of it. -/
theorem Carries.write (h : l.Carries S bus) (htaking : Taking S 8 bus) (b : BitVec 8)
    (power : BitVec 8) : ((callbacks S timing).write l b power).Carries S
      (OneWire.write (deviceWire S time) b bus) := by
  have hbits : (OneWire.write (callbacks S timing).slots b l).Carries S
      (OneWire.write (deviceWire S time) b bus) := by
    rw [write_eq_foldl, write_eq_foldl]
    exact h.writeBits htaking
  unfold Callbacks.write
  simp only
  split
  · exact hbits.release
  · exact hbits

/-! ## A selection -/

/-- Behind the command of a selection the devices listen to a code and a command. -/
theorem taking_matchCommand (S : Finset RomNo) (time : ResetTime) (bus : DeviceBus) :
    Taking S 72 (OneWire.write (deviceWire S time) 0x55 ((deviceWire S time).reset bus).2) := by
  intro rom _
  have hsettled := DeviceBus.matchCommand_settled S time bus
  have hphase : (((sensorWire S time).reset bus.sensors).2.sensor rom).phase = .romCommand [] := rfl
  have hsensor : (OneWire.write (sensorWire S time) 0x55
      ((sensorWire S time).reset bus.sensors).2).sensor rom =
        (bus.sensors.sensor rom).toPhase (.matchRom 0) := by
    rw [SensorBus.write_eq_written]
    exact SensorBus.sensor_romCommand hphase 0x55
  rw [← hsettled.sensors] at hsensor
  generalize OneWire.write (deviceWire S time) 0x55 ((deviceWire S time).reset bus).2 = bus'
    at hsettled hsensor
  have hmatch : (bus'.device rom).sensor.phase = .matchRom 0 := by
    rw [show (bus'.device rom).sensor = bus'.sensors.sensor rom from rfl, hsensor,
      Sensor.phase_toPhase]
  rw [Device.Takes, (hsettled.settled rom).search, hmatch]

/-- Behind a selection the devices listen to a command. -/
theorem taking_select (S : Finset RomNo) (time : ResetTime) (target : RomNo) (bus : DeviceBus) :
    Taking S 8 (OneWire.select (deviceWire S time) target ((deviceWire S time).reset bus).2) := by
  rw [select_eq_foldl]
  refine taking_writeBits ?_
  rw [List.length_map, List.length_range]
  exact taking_matchCommand S time bus

/-- A byte is eight bits less to listen to. -/
theorem taking_write (b : BitVec 8) (h : Taking S (8 + n) bus) :
    Taking S n (OneWire.write (deviceWire S time) b bus) := by
  rw [write_eq_foldl]
  exact taking_writeBits h

/-- The bytes of a code, as long as the devices listen. -/
theorem Carries.writeCode (h : l.Carries S bus) {is : List (Fin 8)} (rom : RomNo)
    (htaking : Taking S (8 * is.length) bus) :
    (is.foldl (fun l i => (callbacks S timing).write l (rom i)) l).Carries S
      (is.foldl (fun bus i => OneWire.write (deviceWire S time) (rom i) bus) bus) := by
  induction is generalizing l bus with
  | nil => exact h
  | cons i is ih =>
    rw [List.length_cons, Nat.mul_succ, Nat.add_comm] at htaking
    have hbyte : Taking S 8 bus :=
      fun rom hrom => (htaking rom hrom).mono (Nat.le_add_right _ _)
    exact ih (h.write hbyte (rom i) 0) (taking_write (rom i) htaking)

/-- The code of a selection is written in step. -/
theorem Carries.select (h : l.Carries S ((deviceWire S time).reset bus).2) (target : RomNo) :
    ((callbacks S timing).select l target).Carries S
      (OneWire.select (deviceWire S time) target ((deviceWire S time).reset bus).2) := by
  have hreset : Taking S 8 ((deviceWire S time).reset bus).2 :=
    fun rom _ => (bus.device rom).takes_reset
  have hcode : Taking S (8 * (List.finRange 8).length)
      (OneWire.write (deviceWire S time) 0x55 ((deviceWire S time).reset bus).2) := by
    rw [List.length_finRange]
    exact fun rom hrom => (taking_matchCommand S time bus rom hrom).mono (by decide)
  unfold Callbacks.select OneWire.select
  exact (h.write hreset 0x55 0).writeCode target hcode

end OpenDrain

/-! ## Commands and answers -/

/-- A device that sends its scratchpad, or takes no part in anything. -/
structure Device.Answers (d : Device) : Prop where
  search : d.search = none
  phase : (∃ data k, d.sensor.phase = .transmit data k) ∨ d.sensor.phase = .silent

/-- A command makes a sensor send, or silences it. -/
theorem Sensor.phase_functionCommand (s : Sensor) (clock : Nat) (received : List Bool) :
    (∃ data k, (s.functionCommand clock received).phase = .transmit data k) ∨
      (s.functionCommand clock received).phase = .silent := by
  unfold functionCommand
  split
  · exact Or.inr rfl
  · split
    · exact Or.inl ⟨_, _, rfl⟩
    · exact Or.inr rfl

namespace Device

variable {d : Device} {rom : RomNo}

/-- A device in a search, or in nothing, is calm. -/
theorem Quiet.calm {k : Nat} (h : d.Quiet k) : d.Calm rom :=
  fun _ => reset_of_core h.writeSlot.1

/-- So is one that takes no part. -/
theorem Off.calm (h : d.Off) : d.Calm rom := by
  intro clock
  rw [h.writeSlot_eq]

/-- Behind the last bit of a search a device waits for a command, or is silent. -/
theorem calm_last {clock : Nat} {v : Bool} (h : d.search = some (.direction 63)) :
    (d.writeSlot rom clock v).Calm rom := by
  rw [Device.writeSlot, h]
  by_cases hbit : rom.bit 63 = v
  · simp only [if_pos hbit]
    exact fun _ => rfl
  · simp only [if_neg hbit]
    exact (off_silent d).calm

/-- So is one that was reset. -/
theorem calm_reset (d : Device) : d.reset.Calm rom := by
  intro clock
  have hslot : d.reset.writeSlot rom clock false =
      ⟨d.sensor.toPhase (.romCommand [false]), none⟩ := by
    rw [Device.writeSlot]
    exact if_neg (by decide)
  rw [hslot]
  rfl

namespace Answers

/-- It sends, or it takes no part. -/
theorem turn (h : d.Answers) : d.turn rom = some (d.sends rom) ∨ d.Off := by
  rcases h.phase with ⟨data, k, hphase⟩ | hphase
  · left
    rw [Device.turn, Device.sends, h.search]
    simp only [hphase, Sensor.sends]
  · exact Or.inr ⟨h.search, hphase⟩

/-- A bit read leaves it sending, or silent. -/
theorem readSlot (h : d.Answers) : d.readSlot.Answers := by
  rcases h.phase with ⟨data, k, hphase⟩ | hphase
  · rw [Device.readSlot, h.search]
    refine ⟨rfl, Or.inl ⟨data, k + 1, ?_⟩⟩
    simp only [Sensor.readSlot, hphase, Sensor.phase_toPhase]
  · have hoff : d.Off := ⟨h.search, hphase⟩
    rw [hoff.readSlot_eq]
    exact h

/-- A reset completes nothing of it. -/
theorem calm (h : d.Answers) : d.Calm rom := by
  intro clock
  have hslot : d.writeSlot rom clock false = ⟨d.sensor.toPhase .silent, none⟩ := by
    rw [Device.writeSlot, h.search]
    rcases h.phase with ⟨data, k, hphase⟩ | hphase
    · simp only [hphase, Sensor.writeSlot]
    · simp only [hphase, Sensor.writeSlot]
  rw [hslot]
  rfl

end Answers

end Device

namespace OpenDrain

variable {S : Finset RomNo} {timing : RomNo → DeviceTiming} {time : ResetTime} {l : OpenDrain}
  {bus : DeviceBus}

def Answering (S : Finset RomNo) (bus : DeviceBus) : Prop :=
  ∀ rom ∈ S, (bus.device rom).Answers

/-- Nothing is under way that a reset would complete. -/
def Calm (S : Finset RomNo) (bus : DeviceBus) : Prop := ∀ rom ∈ S, (bus.device rom).Calm rom

theorem Answering.calm (h : Answering S bus) : Calm S bus := fun rom hrom => (h rom hrom).calm

/-- Behind a command a selected device sends or is silent. -/
theorem answering_command (S : Finset RomNo) (time : ResetTime) (regNum : RegisterNumber)
    (b : BitVec 8) (bus : DeviceBus) :
    Answering S (OneWire.write (deviceWire S time) b
      (OneWire.select (deviceWire S time) regNum.romData ((deviceWire S time).reset bus).2)) := by
  intro rom _
  have hsettled := (DeviceBus.settled_sim S time).write
    (DeviceBus.select_settled S time regNum.romData bus) b
  rw [OneWire.write_slotsOnly, OneWire.write_slotsOnly] at hsettled
  have hsensor := SensorBus.sensor_commanded S time regNum b bus.sensors rom
  rw [SensorBus.commanded, ← hsettled.sensors] at hsensor
  generalize OneWire.write (deviceWire S time) b _ = bus' at hsettled hsensor
  refine ⟨(hsettled.settled rom).search, ?_⟩
  rw [show (bus'.device rom).sensor = bus'.sensors.sensor rom from rfl, hsensor]
  split
  · exact Sensor.phase_functionCommand _ _ _
  · exact Or.inr rfl

/-- A command, from the reset before it on. -/
theorem Carries.command (h : l.Carries S ((deviceWire S time).reset bus).2)
    (regNum : RegisterNumber) (b power : BitVec 8) :
    ((callbacks S timing).write ((callbacks S timing).select l regNum.romData) b power).Carries S
      (OneWire.write (deviceWire S time) b
        (OneWire.select (deviceWire S time) regNum.romData ((deviceWire S time).reset bus).2)) :=
  (h.select regNum.romData).write (taking_select S time regNum.romData bus) b power

/-- Devices that send their scratchpads are read like on the bus of time slots. -/
theorem Carries.readData (h : l.Carries S bus) (hanswer : Answering S bus) (data : Scratchpad) :
    (OneWire.readData (callbacks S timing).slots data l).1 =
        (OneWire.readData (deviceWire S time) data bus).1 ∧
      (OneWire.readData (callbacks S timing).slots data l).2.Carries S
        (OneWire.readData (deviceWire S time) data bus).2 ∧
      Answering S (OneWire.readData (deviceWire S time) data bus).2 := by
  let reads {β : Type} (w : Wire β) : Wire β := ⟨fun b => (true, b), fun b _ => b, w.readBit⟩
  have hsim : WireSim (reads (callbacks S timing).slots) (reads (deviceWire S time))
      fun l bus => l.Carries S bus ∧ Answering S bus := by
    constructor
    case reset => exact fun _ _ h => ⟨rfl, h⟩
    case writeBit => exact fun _ _ _ h => h
    case readBit =>
      rintro l bus ⟨hcarries, hanswers⟩
      have hspeak : Speaking S bus := fun rom hrom => (hanswers rom hrom).turn
      have hread : ((callbacks S timing).readBit l).1 = ((deviceWire S time).readBit bus).1 ∧
          ((callbacks S timing).readBit l).2.Carries S ((deviceWire S time).readBit bus).2 :=
        hcarries.readBit hspeak
      exact ⟨hread.1, hread.2, fun rom hrom => (hanswers rom hrom).readSlot⟩
  exact hsim.readData ⟨h, hanswer⟩ data

/-! ## The search -/

/-- In the first two slots of a round everybody in the search sends. -/
theorem speaking_of_searching {sel : Finset RomNo} {p : SearchPhase}
    (h : bus.Searching S sel p) (hp : ∀ k, p ≠ .direction k) : Speaking S bus := by
  intro rom hrom
  by_cases hsel : rom ∈ sel
  · left
    have hsearch := h.search rom hsel
    rw [Device.turn, Device.sends, hsearch]
    cases p with
    | idBit k => rfl
    | cmpIdBit k => rfl
    | direction k => exact absurd rfl (hp k)
  · exact Or.inr (h.off rom hrom hsel)

/-- In the third one nobody does. -/
theorem listening_of_searching {sel : Finset RomNo} {k : Nat}
    (h : bus.Searching S sel (.direction k)) : Listening S bus := by
  intro rom hrom
  by_cases hsel : rom ∈ sel
  · rw [Device.turn, h.search rom hsel]
  · exact (h.off rom hrom hsel).turn

/-- A search may be given up at any bit. -/
theorem calm_of_searching {sel : Finset RomNo} {p : SearchPhase} (h : bus.Searching S sel p) :
    Calm S bus := by
  intro rom hrom
  by_cases hsel : rom ∈ sel
  · have hquiet : (bus.device rom).Quiet p.bitNumber :=
      Or.inr ⟨p, h.search rom hsel, Nat.le_refl _⟩
    exact hquiet.calm
  · exact (h.off rom hrom hsel).calm

/-- Behind the last bit of a search the bus is calm as well. -/
theorem calm_of_last {sel : Finset RomNo} (h : bus.Searching S sel (.direction 63)) (v : Bool) :
    Calm S ((deviceWire S time).writeBit bus v) := by
  intro rom hrom
  show ((bus.device rom).writeSlot rom _ v).Calm rom
  by_cases hsel : rom ∈ sel
  · exact Device.calm_last (h.search rom hsel)
  · rw [(h.off rom hrom hsel).writeSlot_eq]
    exact (h.off rom hrom hsel).calm

end OpenDrain

section SearchLoop

variable {β γ : Type} {w : Wire β} {v : Wire γ} {R : β → γ → Prop} {I : Nat → γ → Prop}
  {E : γ → Prop} {d : Nat}

/-- Two wires that answer alike to a search: before bit `k` the second one is in a state `I k`, and
at the end of the search in a state `E`. -/
structure SearchSim (w : Wire β) (v : Wire γ) (R : β → γ → Prop) (I : Nat → γ → Prop)
    (E : γ → Prop) : Prop where
  idBit : ∀ k a b, I k b → R a b → (w.readBit a).1 = (v.readBit b).1
  cmpIdBit : ∀ k a b, I k b → R a b →
    (w.readBit (w.readBit a).2).1 = (v.readBit (v.readBit b).2).1
  breaks : ∀ k a b, I k b → R a b →
    R (w.readBit (w.readBit a).2).2 (v.readBit (v.readBit b).2).2 ∧
      E (v.readBit (v.readBit b).2).2
  direction : ∀ k a b x, I k b → R a b →
    R (w.writeBit (w.readBit (w.readBit a).2).2 x) (v.writeBit (v.readBit (v.readBit b).2).2 x) ∧
      (k + 1 < 64 → I (k + 1) (v.writeBit (v.readBit (v.readBit b).2).2 x)) ∧
      (k + 1 = 64 → E (v.writeBit (v.readBit (v.readBit b).2).2 x))

/-- The loop with another wire behind it. -/
def SearchLoop.on (s : SearchLoop γ) (bus : β) : SearchLoop β := { s with bus := bus }

/-- The last part of a round, for which the wire does not matter. -/
theorem searchBit_on (w : Wire β) (v : Wire γ) (idBit cmpIdBit : Bool) (s : SearchLoop γ)
    (a a' : β) (b : γ) : OneWire.searchBit w d idBit cmpIdBit { s.on a with bus := a' } =
      (OneWire.searchBit v d idBit cmpIdBit { s with bus := b }).on
        (w.writeBit a' (OneWire.searchDirection d idBit cmpIdBit { s with bus := b })) := rfl

theorem romByteNumber_on (s : SearchLoop γ) (a : β) :
    (s.on a).romByteNumber = s.romByteNumber := rfl

/-- Run lemma: the loop ends alike on both wires. -/
theorem searchLoop_sim (h : SearchSim w v R I E) {fuel k : Nat} {a : β} {t : SearchLoop γ}
    (hcounted : Counted k t) (hstage : I k t.bus) (hbus : R a t.bus) (hk : k < 64)
    (hfuel : 64 ≤ fuel + k) :
    ∃ t' a', OneWire.searchLoop v d fuel t = some t' ∧
      OneWire.searchLoop w d fuel (t.on a) = some (t'.on a') ∧ R a' t'.bus ∧ E t'.bus := by
  induction fuel generalizing k a t with
  | zero => omega
  | succ fuel ih =>
    have hid := h.idBit k a t.bus hstage hbus
    have hcmp := h.cmpIdBit k a t.bus hstage hbus
    have hbreak := h.breaks k a t.bus hstage hbus
    have hdirection := fun x => h.direction k a t.bus x hstage hbus
    simp only [OneWire.searchLoop, show (t.on a).bus = a from rfl, hid, hcmp]
    generalize (v.readBit t.bus).1 = idBit
    generalize (v.readBit (v.readBit t.bus).2).1 = cmpIdBit
    generalize (v.readBit (v.readBit t.bus).2).2 = b at hbreak hdirection ⊢
    generalize (w.readBit (w.readBit a).2).2 = a at hbreak hdirection ⊢
    split
    · exact ⟨{ t with bus := b }, a, rfl, rfl, hbreak⟩
    · have hnext : Counted (k + 1) (OneWire.searchBit v d idBit cmpIdBit { t with bus := b }) :=
        (hcounted.setBus b).next
      obtain ⟨hwritten, hinside, hend⟩ :=
        hdirection (OneWire.searchDirection d idBit cmpIdBit { t with bus := b })
      rw [searchBit_on w v idBit cmpIdBit t _ a b, romByteNumber_on, hnext.romByteNumber]
      by_cases hlast : k + 1 < 64
      · rw [if_pos (by omega), if_pos (by omega)]
        exact ih hnext (hinside hlast) hwritten hlast (by omega)
      · rw [if_neg (by omega), if_neg (by omega)]
        exact ⟨_, _, rfl, rfl, hwritten, hend (by omega)⟩

/-- A search ends alike on both wires. -/
theorem searchWalk_sim (h : SearchSim w v R I E) (ow : OneWire) {a : β} {b : γ} (hstage : I 0 b)
    (hbus : R a b) :
    ∃ found ow' a' b', OneWire.searchWalk w ow a = some (found, ow', a') ∧
      OneWire.searchWalk v ow b = some (found, ow', b') ∧ R a' b' ∧ E b' := by
  obtain ⟨t, a', hleft, hright, hend⟩ : ∃ t a',
      OneWire.searchLoop v ow.lastDiscrepancy 64
        ⟨1, 0, 0, 1, ow.romNo, ow.lastFamilyDiscrepancy, b⟩ = some t ∧
      OneWire.searchLoop w ow.lastDiscrepancy 64
        ⟨1, 0, 0, 1, ow.romNo, ow.lastFamilyDiscrepancy, a⟩ = some (t.on a') ∧
      R a' t.bus ∧ E t.bus :=
    searchLoop_sim h (counted_start _ _ b) hstage hbus (by decide) (Nat.le_refl 64)
  unfold OneWire.searchWalk
  rw [hleft, hright, Option.map_some, Option.map_some]
  by_cases hbreak : t.idBitNumber < 65
  · have hbreak' : (t.on a').idBitNumber < 65 := hbreak
    simp only [if_pos hbreak, if_pos hbreak']
    exact ⟨_, _, _, _, rfl, rfl, hend⟩
  · have hbreak' : ¬ (t.on a').idBitNumber < 65 := hbreak
    simp only [if_neg hbreak, if_neg hbreak']
    by_cases hfamily : t.romNo.familyCode = 0
    · have hfamily' : (t.on a').romNo.familyCode = 0 := hfamily
      simp only [if_pos hfamily, if_pos hfamily']
      exact ⟨_, _, _, _, rfl, rfl, hend⟩
    · have hfamily' : ¬ (t.on a').romNo.familyCode = 0 := hfamily
      simp only [if_neg hfamily, if_neg hfamily']
      exact ⟨_, _, _, _, rfl, rfl, hend⟩

end SearchLoop

namespace OpenDrain

variable {S : Finset RomNo} {timing : RomNo → DeviceTiming} {time : ResetTime} {l : OpenDrain}
  {bus : DeviceBus}

/-- A search reads when the devices in it send, and writes when they listen. -/
theorem carries_searchSim (S : Finset RomNo) (timing : RomNo → DeviceTiming) (time : ResetTime) :
    SearchSim (callbacks S timing).slots (deviceWire S time) (Carries S)
      (fun k bus => ∃ sel, bus.Searching S sel (.idBit k)) (Calm S) := by
  have hfirst : ∀ k l bus, (∃ sel, bus.Searching S sel (.idBit k)) → Carries S l bus →
      ((callbacks S timing).readBit l).1 = ((deviceWire S time).readBit bus).1 ∧
        ((callbacks S timing).readBit l).2.Carries S ((deviceWire S time).readBit bus).2 := by
    rintro k l bus ⟨sel, hsel⟩ hbus
    exact hbus.readBit (speaking_of_searching hsel nofun)
  have hsecond : ∀ k l bus, (∃ sel, bus.Searching S sel (.idBit k)) → Carries S l bus →
      ((callbacks S timing).readBit ((callbacks S timing).readBit l).2).1 =
          ((deviceWire S time).readBit ((deviceWire S time).readBit bus).2).1 ∧
        ((callbacks S timing).readBit ((callbacks S timing).readBit l).2).2.Carries S
          ((deviceWire S time).readBit ((deviceWire S time).readBit bus).2).2 := by
    rintro k l bus ⟨sel, hsel⟩ hbus
    exact (hfirst k l bus ⟨sel, hsel⟩ hbus).2.readBit (speaking_of_searching hsel.idBit.2 nofun)
  constructor
  case idBit => exact fun k l bus hsel hbus => (hfirst k l bus hsel hbus).1
  case cmpIdBit => exact fun k l bus hsel hbus => (hsecond k l bus hsel hbus).1
  case breaks =>
    rintro k l bus ⟨sel, hsel⟩ hbus
    exact ⟨(hsecond k l bus ⟨sel, hsel⟩ hbus).2, calm_of_searching hsel.idBit.2.cmpIdBit.2⟩
  case direction =>
    rintro k l bus x ⟨sel, hsel⟩ hbus
    have hturn : ((deviceWire S time).readBit ((deviceWire S time).readBit bus).2).2.Searching S
        sel (.direction k) := hsel.idBit.2.cmpIdBit.2
    refine ⟨(hsecond k l bus ⟨sel, hsel⟩ hbus).2.writeBit (listening_of_searching hturn) x, ?_, ?_⟩
    · exact fun hk => ⟨_, hturn.direction hk x⟩
    · intro hk
      obtain rfl : k = 63 := by omega
      exact calm_of_last hturn x

/-- A search at the pins is a search on the bus of time slots. -/
theorem Carries.search (h : l.Carries S bus) (hcalm : Calm S bus)
    (hprompt : ∀ rom ∈ S, (timing rom).presentUs ≤ 136) (ow : OneWire) :
    ∃ found ow' l' bus',
      (callbacks S timing).search ow true l = some (found, ow', l') ∧
      OneWire.search (deviceWire S (resetTime S timing)) true ow bus = some (found, ow', bus') ∧
      l'.Carries S bus' ∧ Calm S bus' := by
  unfold Callbacks.search
  rw [OneWire.search_eq]
  simp only
  split
  · exact ⟨_, _, _, _, rfl, rfl, h, hcalm⟩
  obtain ⟨hpresence, hreset⟩ := h.reset hcalm hprompt
  rw [hpresence]
  split
  · have htaking : Taking S 8 ((deviceWire S (resetTime S timing)).reset bus).2 :=
      fun rom _ => (bus.device rom).takes_reset
    have hstage := (deviceWire_wiredAnd S (resetTime S timing)).start bus (by decide)
    exact searchWalk_sim (carries_searchSim S timing _) ow ⟨S, hstage⟩ (hreset.write htaking 0xF0 0)
  · exact ⟨_, _, _, _, rfl, rfl, hreset, fun rom _ => (bus.device rom).calm_reset⟩

/-! ## The measurement -/

/-- `vTaskDelay`, with the ticks of `portTICK_PERIOD_MS`. -/
def vTaskDelay (S : Finset RomNo) (timing : RomNo → DeviceTiming) (ticks : Nat) (l : OpenDrain) :
    OpenDrain :=
  l.elapse S timing (ticks * (portTickPeriodMs * 1000))

theorem Carries.vTaskDelay (h : l.Carries S bus) (ticks : Nat) :
    (l.vTaskDelay S timing ticks).Carries S (bus.vTaskDelay ticks) := by
  unfold OpenDrain.vTaskDelay
  rw [elapse_of_none h.idle.slot]
  refine ⟨⟨h.idle.released, ?_, h.idle.slot⟩, ?_, h.device⟩
  · exact fun rom hrom => (h.idle.pullTo rom hrom).trans (Nat.le_add_right _ _)
  · exact congrArg (· + ticks * (portTickPeriodMs * 1000)) h.clock

theorem Calm.vTaskDelay (h : Calm S bus) (ticks : Nat) : Calm S (bus.vTaskDelay ticks) := h

/-- A measurement at the pins is a measurement on the bus of time slots. -/
theorem Carries.measureTemperature (h : l.Carries S bus) (hcalm : Calm S bus)
    (hprompt : ∀ rom ∈ S, (timing rom).presentUs ≤ 136) (regNum : RegisterNumber)
    (data : Scratchpad) :
    ∃ ok data' l' bus',
      (callbacks S timing).measureTemperature (OpenDrain.vTaskDelay S timing) regNum data l =
        (ok, data', l') ∧
      OneWire.measureTemperature (deviceWire S (resetTime S timing)) DeviceBus.vTaskDelay regNum
        data bus = (ok, data', bus') ∧
      l'.Carries S bus' ∧ Calm S bus' := by
  rw [Callbacks.measureTemperature_eq, OneWire.measureTemperature_eq]
  simp only
  obtain ⟨hpresence, hreset⟩ := h.reset hcalm hprompt
  rw [hpresence]
  by_cases hfirst : ((deviceWire S (resetTime S timing)).reset bus).1 = false
  · rw [if_pos hfirst, if_pos hfirst]
    exact ⟨_, _, _, _, rfl, rfl, hreset, fun rom _ => (bus.device rom).calm_reset⟩
  rw [if_neg hfirst, if_neg hfirst]
  have hstarted : ((callbacks S timing).startConversion (OpenDrain.vTaskDelay S timing) regNum
        ((callbacks S timing).reset l).2).Carries S
      (OneWire.startConversion (deviceWire S (resetTime S timing)) DeviceBus.vTaskDelay regNum
        ((deviceWire S (resetTime S timing)).reset bus).2) :=
    (hreset.command regNum 0x44 1).vTaskDelay _
  -- behind its command no sensor waits for more, so the second reset completes nothing
  have hwaiting : Calm S (OneWire.startConversion (deviceWire S (resetTime S timing))
      DeviceBus.vTaskDelay regNum ((deviceWire S (resetTime S timing)).reset bus).2) :=
    (answering_command S (resetTime S timing) regNum 0x44 bus).calm.vTaskDelay _
  generalize (callbacks S timing).startConversion _ _ _ = l₁ at hstarted ⊢
  generalize OneWire.startConversion (deviceWire S (resetTime S timing)) _ _ _ = bus₁
    at hstarted hwaiting ⊢
  obtain ⟨hpresence₁, hreset₁⟩ := hstarted.reset hwaiting hprompt
  rw [hpresence₁]
  by_cases hsecond : ((deviceWire S (resetTime S timing)).reset bus₁).1 = false
  · rw [if_pos hsecond, if_pos hsecond]
    exact ⟨_, _, _, _, rfl, rfl, hreset₁, fun rom _ => (bus₁.device rom).calm_reset⟩
  rw [if_neg hsecond, if_neg hsecond]
  obtain ⟨hdata, hread, hanswering⟩ := (hreset₁.command regNum 0xBE 0).readData
    (answering_command S (resetTime S timing) regNum 0xBE bus₁) data
  unfold Callbacks.readScratchpad OneWire.readScratchpad
  generalize OneWire.readData (callbacks S timing).slots data _ = read at hdata hread ⊢
  generalize OneWire.readData (deviceWire S (resetTime S timing)) data _ = read' at *
  exact ⟨_, read.1, read.2, read'.2, rfl, by rw [hdata], hread, hanswering.calm⟩

end OpenDrain

end EspAcDimmer
