import EspAcDimmer.OneWire.Sensors

/-! # A bus of devices

Each device for itself, with its part in a search and the sensor behind it. Together they are a
wired AND, so the searches enumerate them, and a search leaves every sensor as it was.
-/

namespace EspAcDimmer

open BitTrie Crc

/-! ## Devices -/

/-- What a device does in the next time slots of a search: it sends bit `k` of its code, then the
complement, and then reads which devices are to go on. -/
inductive SearchPhase where
  | idBit (k : Nat)
  | cmpIdBit (k : Nat)
  | direction (k : Nat)

structure Device where
  sensor : Sensor
  search : Option SearchPhase

namespace Device

def reset (d : Device) : Device := ⟨d.sensor.toPhase (.romCommand []), none⟩

def silent (d : Device) : Device := ⟨d.sensor.toPhase .silent, none⟩

/-- The device `rom` when a bit was written: command 0xF0 starts a search, and a device that is
still there at its end waits for a command like one that was selected. -/
def writeSlot (rom : RomNo) (clock : Nat) (d : Device) (v : Bool) : Device :=
  match d.search, d.sensor.phase with
  | some (.direction k), _ =>
    if rom.bit k = v then
      if k + 1 < 64 then ⟨d.sensor, some (.idBit (k + 1))⟩
      else ⟨d.sensor.toPhase (.functionCommand []), none⟩
    else d.silent
  | some _, _ => d.silent
  | none, .romCommand received =>
    if received ++ [v] = bits (0xF0 : BitVec 8) then
      ⟨d.sensor.toPhase .silent, some (.idBit 0)⟩
    else ⟨d.sensor.writeSlot rom clock v, none⟩
  | none, _ => ⟨d.sensor.writeSlot rom clock v, none⟩

/-- What the device `rom` sends when a bit is read. -/
def sends (rom : RomNo) (d : Device) : Bool :=
  match d.search with
  | some (.idBit k) => rom.bit k
  | some (.cmpIdBit k) => !rom.bit k
  | some (.direction _) => true
  | none => d.sensor.sends

def readSlot (d : Device) : Device :=
  match d.search with
  | some (.idBit k) => ⟨d.sensor, some (.cmpIdBit k)⟩
  | some (.cmpIdBit k) => ⟨d.sensor, some (.direction k)⟩
  | some (.direction _) => d.silent
  | none => ⟨d.sensor.readSlot, none⟩

/-- Until the next reset the device takes no part in anything. -/
structure Off (d : Device) : Prop where
  search : d.search = none
  phase : d.sensor.phase = .silent

variable {d : Device} {rom : RomNo} {clock : Nat} {v : Bool}

theorem off_silent (d : Device) : d.silent.Off := ⟨rfl, rfl⟩

/-- A device that is off leaves the wire alone. -/
theorem Off.sends (h : d.Off) : d.sends rom = true := by
  rw [Device.sends, h.search]
  simp only [Sensor.sends, h.phase]

/-- It stays off when a bit is read. -/
theorem Off.readSlot (h : d.Off) : d.readSlot.Off := by
  rw [Device.readSlot, h.search]
  simp only [Sensor.readSlot, h.phase]
  exact ⟨rfl, rfl⟩

/-- It stays off when one is written. -/
theorem Off.writeSlot (h : d.Off) : (d.writeSlot rom clock v).Off := by
  rw [Device.writeSlot, h.search, h.phase]
  simp only [Sensor.writeSlot, h.phase]
  exact ⟨rfl, rfl⟩

end Device

/-! ## The bus -/

structure DeviceBus where
  /-- In microseconds. -/
  clock : Nat
  device : RomNo → Device

/-- The wire to the devices `S`. -/
def deviceWire (S : Finset RomNo) (time : ResetTime) : Wire DeviceBus where
  reset bus := (decide S.Nonempty,
    ⟨bus.clock + time.us bus.clock, fun rom => (bus.device rom).reset⟩)
  writeBit bus v :=
    let clock := bus.clock + writeBitUs v
    ⟨clock, fun rom => (bus.device rom).writeSlot rom clock v⟩
  readBit bus := (andOf S fun rom => (bus.device rom).sends rom,
    ⟨bus.clock + readBitUs, fun rom => (bus.device rom).readSlot⟩)

/-- `vTaskDelay`, with the ticks of `portTICK_PERIOD_MS`. -/
def DeviceBus.vTaskDelay (ticks : Nat) (bus : DeviceBus) : DeviceBus :=
  { bus with clock := bus.clock + ticks * (portTickPeriodMs * 1000) }

variable {S sel : Finset RomNo} {time : ResetTime} {rom : RomNo} {bus : DeviceBus}

/-! ## A wired AND -/

/-- Who sends nothing makes no difference. -/
theorem andOf_subset {sent sent' : RomNo → Bool} (hsel : sel ⊆ S)
    (hsent : ∀ rom ∈ sel, sent rom = sent' rom) (hrest : ∀ rom ∈ S, rom ∉ sel → sent rom = true) :
    andOf S sent = andOf sel sent' := by
  rw [Bool.eq_iff_iff, ← not_iff_not, Bool.not_eq_true, Bool.not_eq_true, andOf_eq_false,
    andOf_eq_false]
  constructor
  · rintro ⟨rom, hrom, hzero⟩
    by_cases hin : rom ∈ sel
    · exact ⟨rom, hin, (hsent rom hin).symm.trans hzero⟩
    · rw [hrest rom hrom hin] at hzero
      exact Bool.noConfusion hzero
  · rintro ⟨rom, hrom, hzero⟩
    exact ⟨rom, hsel hrom, (hsent rom hrom).trans hzero⟩

namespace DeviceBus

/-- The devices `sel` are in this phase of a search, and the other ones have dropped out. -/
structure Searching (S sel : Finset RomNo) (p : SearchPhase) (bus : DeviceBus) : Prop where
  subset : sel ⊆ S
  search : ∀ rom ∈ sel, (bus.device rom).search = some p
  off : ∀ rom ∈ S, rom ∉ sel → (bus.device rom).Off

/-- A bit read is the AND of what the devices in the search send. -/
theorem Searching.readBit {p p' : SearchPhase} {sent : RomNo → Bool} (h : bus.Searching S sel p)
    (hsend : ∀ rom d, Device.search d = some p → d.sends rom = sent rom ∧
      d.readSlot.search = some p') :
    ((deviceWire S time).readBit bus).1 = andOf sel sent ∧
      ((deviceWire S time).readBit bus).2.Searching S sel p' := by
  rcases h with ⟨hsubset, hsearch, hoff⟩
  refine ⟨andOf_subset hsubset ?_ ?_, hsubset, ?_, ?_⟩
  · exact fun rom hrom => (hsend rom _ (hsearch rom hrom)).1
  · exact fun rom hrom hout => (hoff rom hrom hout).sends
  · exact fun rom hrom => (hsend rom _ (hsearch rom hrom)).2
  · exact fun rom hrom hout => (hoff rom hrom hout).readSlot

/-- The first bit read is the AND of the codes, and the second is to come. -/
theorem Searching.idBit {k : Nat} (h : bus.Searching S sel (.idBit k)) :
    ((deviceWire S time).readBit bus).1 = andOf sel (fun rom => rom.bit k) ∧
      ((deviceWire S time).readBit bus).2.Searching S sel (.cmpIdBit k) :=
  h.readBit fun rom d hd => by simp [Device.sends, Device.readSlot, hd]

/-- The second bit read is the AND of their complements. -/
theorem Searching.cmpIdBit {k : Nat} (h : bus.Searching S sel (.cmpIdBit k)) :
    ((deviceWire S time).readBit bus).1 = andOf sel (fun rom => !rom.bit k) ∧
      ((deviceWire S time).readBit bus).2.Searching S sel (.direction k) :=
  h.readBit fun rom d hd => by simp [Device.sends, Device.readSlot, hd]

/-- A direction written goes on with the devices that have this bit. -/
theorem Searching.direction {k : Nat} (h : bus.Searching S sel (.direction k)) (hk : k + 1 < 64)
    (v : Bool) : ((deviceWire S time).writeBit bus v).Searching S
      (sel.filter fun rom => rom.bit k = v) (.idBit (k + 1)) := by
  rcases h with ⟨hsubset, hsearch, hoff⟩
  constructor
  case subset => exact (Finset.filter_subset _ _).trans hsubset
  case search =>
    intro rom hrom
    rcases Finset.mem_filter.mp hrom with ⟨hin, hbit⟩
    show ((bus.device rom).writeSlot rom _ v).search = _
    rw [Device.writeSlot, hsearch rom hin]
    simp only [if_pos hbit, if_pos hk]
  case off =>
    intro rom hrom hout
    show ((bus.device rom).writeSlot rom _ v).Off
    by_cases hin : rom ∈ sel
    · have hbit : rom.bit k ≠ v := fun he => hout (Finset.mem_filter.mpr ⟨hin, he⟩)
      rw [Device.writeSlot, hsearch rom hin]
      simp only [if_neg hbit]
      exact Device.off_silent _
    · exact (hoff rom hrom hin).writeSlot

/-! ### The search command -/

/-- The state after these bits were written. -/
def written (S : Finset RomNo) (time : ResetTime) (bus : DeviceBus) (bs : List Bool) : DeviceBus :=
  bs.foldl (deviceWire S time).writeBit bus

@[simp] theorem written_nil : bus.written S time [] = bus := rfl

@[simp] theorem written_cons (b : Bool) (bs : List Bool) : bus.written S time (b :: bs) =
    ((deviceWire S time).writeBit bus b).written S time bs := rfl

theorem write_eq_written (S : Finset RomNo) (time : ResetTime) (v : BitVec 8) (bus : DeviceBus) :
    OneWire.write (deviceWire S time) v bus = bus.written S time (bits v) :=
  write_eq_foldl _ v bus

theorem device_writeBit (S : Finset RomNo) (time : ResetTime) (bus : DeviceBus) (rom : RomNo)
    (b : Bool) : ((deviceWire S time).writeBit bus b).device rom =
      (bus.device rom).writeSlot rom ((deviceWire S time).writeBit bus b).clock b := rfl

theorem clock_written (S : Finset RomNo) (time : ResetTime) (bus : DeviceBus) (bs : List Bool) :
    bus.clock ≤ (bus.written S time bs).clock := by
  induction bs generalizing bus with
  | nil => exact Nat.le_refl _
  | cons b bs ih =>
    exact (Nat.le_add_right _ _).trans (ih ((deviceWire S time).writeBit bus b))

/-- The last bit of the command takes a device into the search. -/
theorem device_searchCommand (received : List Bool) {bs : List Bool}
    (hphase : (bus.device rom).sensor.phase = .romCommand received)
    (hsearch : (bus.device rom).search = none) (hbs : bs ≠ [])
    (hcommand : received ++ bs = bits (0xF0 : BitVec 8)) :
    (bus.written S time bs).device rom =
      ⟨(bus.device rom).sensor.toPhase .silent, some (.idBit 0)⟩ := by
  induction bs generalizing bus received with
  | nil => exact absurd rfl hbs
  | cons b bs ih =>
    have hstep := device_writeBit S time bus rom b
    rw [Device.writeSlot, hsearch, hphase] at hstep
    simp only at hstep
    rw [written_cons]
    by_cases hlast : bs = []
    · subst hlast
      rw [if_pos hcommand] at hstep
      exact hstep
    · have hlen : received.length + (bs.length + 1) = 8 := by
        rw [← List.length_cons, ← List.length_append, hcommand, length_bits]
      have hpos := List.length_pos_iff.mpr hlast
      have hcommand' : (received ++ [b]) ++ bs = bits (0xF0 : BitVec 8) := by
        rw [List.append_assoc, List.singleton_append, hcommand]
      have hnot : received ++ [b] ≠ bits (0xF0 : BitVec 8) := by
        intro he
        rw [he] at hcommand'
        exact hlast (List.append_right_eq_self.mp hcommand')
      have hsensor : (bus.device rom).sensor.writeSlot rom
          ((deviceWire S time).writeBit bus b).clock b =
            (bus.device rom).sensor.toPhase (.romCommand (received ++ [b])) := by
        rw [Sensor.writeSlot, hphase]
        exact if_pos (by omega)
      rw [if_neg hnot, hsensor] at hstep
      rw [ih (received ++ [b]) (by rw [hstep, Sensor.phase_toPhase]) (by rw [hstep])
        hlast hcommand', hstep, Sensor.toPhase_toPhase]

/-- Behind a reset and the command every device is in the search. -/
theorem searching_start (S : Finset RomNo) (time : ResetTime) (bus : DeviceBus) (rom : RomNo) :
    (OneWire.write (deviceWire S time) 0xF0 ((deviceWire S time).reset bus).2).device rom =
      ⟨(bus.device rom).sensor.toPhase .silent, some (.idBit 0)⟩ := by
  rw [write_eq_written]
  exact device_searchCommand [] rfl rfl (bits_ne_nil _) rfl

end DeviceBus

/-- Devices for themselves make a wired AND. -/
def deviceWire_wiredAnd (S : Finset RomNo) (time : ResetTime) :
    WiredAnd (deviceWire S time) S where
  selected sel k bus := k < 64 → bus.Searching S sel (.idBit k)
  presence _ := rfl
  start bus _ := ⟨Finset.Subset.refl S,
    fun rom _ => by rw [DeviceBus.searching_start S time bus rom],
    fun _ hrom hout => absurd hrom hout⟩
  idBit _ _ _ hk h := (h hk).idBit.1
  cmpIdBit _ _ _ hk h := (h hk).idBit.2.cmpIdBit.1
  dropOut _ _ _ hk v h hnext := (h hk).idBit.2.cmpIdBit.2.direction hnext v

/-! ## Sensors behind a search -/

def SearchPhase.bitNumber : SearchPhase → Nat
  | idBit k | cmpIdBit k | direction k => k

namespace Device

variable {d : Device} {rom : RomNo} {clock : Nat} {v : Bool} {k : Nat}

/-- What time slots do not change: all of a sensor but where it stands in a command. -/
def core (d : Device) : Sensor := d.sensor.toPhase .silent

/-- Where a device stands is not in its core. -/
theorem core_eq {sensor : Sensor} {phase : Phase} {search : Option SearchPhase}
    (h : sensor = d.sensor.toPhase phase) : (Device.mk sensor search).core = d.core := by
  rw [core, h]
  rfl

@[simp] theorem core_silent (d : Device) : d.silent.core = d.core := rfl

@[simp] theorem core_readSlot (d : Device) : d.readSlot.core = d.core := by
  unfold readSlot
  split
  · rfl
  · rfl
  · rfl
  · unfold Sensor.readSlot
    split
    · exact core_eq rfl
    · exact core_eq rfl

/-- In a search that has not come to its last bit, or out of everything. -/
def Quiet (k : Nat) (d : Device) : Prop :=
  d.Off ∨ ∃ p, d.search = some p ∧ p.bitNumber ≤ k

/-- A bit read keeps it quiet. -/
theorem Quiet.readSlot (h : d.Quiet k) : d.readSlot.Quiet k := by
  rcases h with hoff | ⟨p, hp, hk⟩
  · exact Or.inl hoff.readSlot
  · rw [Device.readSlot, hp]
    cases p with
    | idBit j => exact Or.inr ⟨_, rfl, hk⟩
    | cmpIdBit j => exact Or.inr ⟨_, rfl, hk⟩
    | direction j => exact Or.inl (off_silent d)

/-- A direction leaves its core alone, and keeps it quiet up to the last bit. -/
theorem Quiet.writeSlot (h : d.Quiet k) :
    (d.writeSlot rom clock v).core = d.core ∧
      (k + 1 < 64 → (d.writeSlot rom clock v).Quiet (k + 1)) := by
  rcases h with hoff | ⟨p, hp, hk⟩
  · refine ⟨?_, fun _ => Or.inl hoff.writeSlot⟩
    rw [Device.writeSlot, hoff.search, hoff.phase]
    simp only [Sensor.writeSlot, hoff.phase]
    exact core_eq rfl
  · rw [Device.writeSlot, hp]
    cases p with
    | idBit j => exact ⟨core_silent d, fun _ => Or.inl (off_silent d)⟩
    | cmpIdBit j => exact ⟨core_silent d, fun _ => Or.inl (off_silent d)⟩
    | direction j =>
      have hj : j ≤ k := hk
      simp only
      split
      · split
        · exact ⟨rfl, fun _ => Or.inr ⟨_, rfl, Nat.succ_le_succ hj⟩⟩
        · next hend => exact ⟨core_eq rfl, fun hlt => by omega⟩
      · exact ⟨core_silent d, fun _ => Or.inl (off_silent d)⟩

end Device

namespace DeviceBus

/-- Time goes on, and the sensors are what they were. -/
structure Keeps (bus bus' : DeviceBus) : Prop where
  clock : bus.clock ≤ bus'.clock
  core : ∀ rom, (bus'.device rom).core = (bus.device rom).core

theorem Keeps.refl (bus : DeviceBus) : bus.Keeps bus := ⟨Nat.le_refl _, fun _ => rfl⟩

theorem Keeps.trans {bus bus' bus'' : DeviceBus} (h : bus.Keeps bus') (h' : bus'.Keeps bus'') :
    bus.Keeps bus'' :=
  ⟨h.clock.trans h'.clock, fun rom => (h'.core rom).trans (h.core rom)⟩

/-- A reset changes only where the devices stand. -/
theorem keeps_reset (S : Finset RomNo) (time : ResetTime) (bus : DeviceBus) :
    bus.Keeps ((deviceWire S time).reset bus).2 :=
  ⟨Nat.le_add_right _ _, fun _ => rfl⟩

/-- So does a bit read. -/
theorem keeps_readBit (S : Finset RomNo) (time : ResetTime) (bus : DeviceBus) :
    bus.Keeps ((deviceWire S time).readBit bus).2 :=
  ⟨Nat.le_add_right _ _, fun rom => (bus.device rom).core_readSlot⟩

/-- A search that has gone on from this bus for `k` bits. -/
structure Undisturbed (bus : DeviceBus) (k : Nat) (s : SearchLoop DeviceBus) : Prop where
  counted : Counted k s
  keeps : bus.Keeps s.bus
  quiet : k < 64 → ∀ rom, (s.bus.device rom).Quiet k

/-- Reading a bit disturbs nobody. -/
theorem Undisturbed.read {k : Nat} {s : SearchLoop DeviceBus} (h : bus.Undisturbed k s) :
    bus.Undisturbed k { s with bus := ((deviceWire S time).readBit
      ((deviceWire S time).readBit s.bus).2).2 } :=
  ⟨h.counted.setBus _, h.keeps.trans ((keeps_readBit S time _).trans (keeps_readBit S time _)),
    fun hk rom => (h.quiet hk rom).readSlot.readSlot⟩

/-- Neither does the rest of a round. -/
theorem Undisturbed.next {k d : Nat} {s : SearchLoop DeviceBus} (h : bus.Undisturbed k s)
    (hk : k < 64) (idBit cmpIdBit : Bool) :
    bus.Undisturbed (k + 1) (OneWire.searchBit (deviceWire S time) d idBit cmpIdBit s) := by
  refine ⟨h.counted.next, h.keeps.trans ⟨Nat.le_add_right _ _, ?_⟩, ?_⟩
  · exact fun rom => (h.quiet hk rom).writeSlot.1
  · exact fun hnext rom => (h.quiet hk rom).writeSlot.2 hnext

/-- A search leaves every sensor as it was. -/
theorem search_keeps (S : Finset RomNo) (time : ResetTime) (ow : OneWire) (bus : DeviceBus) :
    ∃ found ow' bus', OneWire.search (deviceWire S time) true ow bus = some (found, ow', bus') ∧
      bus.Keeps bus' := by
  rw [OneWire.search_eq]
  split
  · exact ⟨_, _, _, rfl, Keeps.refl bus⟩
  split
  · let started := OneWire.write (deviceWire S time) 0xF0 ((deviceWire S time).reset bus).2
    have hstart : bus.Undisturbed 0
        ⟨1, 0, 0, 1, ow.romNo, ow.lastFamilyDiscrepancy, started⟩ := by
      refine ⟨counted_start _ _ _, ⟨?_, ?_⟩, ?_⟩
      · show bus.clock ≤ started.clock
        rw [show started = _ from write_eq_written S time 0xF0 _]
        exact (keeps_reset S time bus).clock.trans (clock_written S time _ _)
      · intro rom
        rw [searching_start S time bus rom]
        exact Device.core_eq rfl
      · intro _ rom
        exact Or.inr ⟨.idBit 0, by rw [searching_start S time bus rom], Nat.le_refl 0⟩
    obtain ⟨n, s, -, hloop, hend⟩ : ∃ n s, n ≤ 64 ∧
        OneWire.searchLoop (deviceWire S time) ow.lastDiscrepancy 64 _ = some s ∧
          bus.Undisturbed n s :=
      searchLoop_invariant (fun _ _ h => h.counted) (fun _ _ h => h.read)
        (fun _ _ _ _ hk h => h.next hk _ _) hstart (by decide) (by decide)
    unfold OneWire.searchWalk
    rw [show OneWire.write (deviceWire S time) (OneWire.searchCommand true)
      ((deviceWire S time).reset bus).2 = started from rfl, hloop, Option.map_some]
    by_cases hbreak : s.idBitNumber < 65
    · simp only [if_pos hbreak]
      exact ⟨_, _, _, rfl, hend.keeps⟩
    · simp only [if_neg hbreak]
      by_cases hfamily : s.romNo.familyCode = 0
      · simp only [if_pos hfamily]
        exact ⟨_, _, _, rfl, hend.keeps⟩
      · simp only [if_neg hfamily]
        exact ⟨_, _, _, rfl, hend.keeps⟩
  · exact ⟨_, _, _, rfl, keeps_reset S time bus⟩

end DeviceBus

end EspAcDimmer
