import EspAcDimmer.Lib.Run
import EspAcDimmer.OneWire.Pins

/-! # Interrupts on return

Every time slot masks interrupts and unmasks them again. `reset` does so too when it returns true,
and when the wire never goes high; but it gives up with interrupts masked when the wire goes high,
is pulled low, and then does not answer in time.
-/

namespace EspAcDimmer

open Lts

namespace Pins

variable {p : Pins}

/-! ## The last interrupt mode -/

def intrMode (p : Pins) : IntMode :=
  p.calls.foldl (fun mode call => match call with | .setIntrMode mode => mode | _ => mode) .intrOn

@[simp] theorem intrMode_setPinMode (mode : PinMode) :
    (p.setPinMode mode).intrMode = p.intrMode := by
  simp [intrMode, setPinMode]

@[simp] theorem intrMode_setPinValue (value : Bool) :
    (p.setPinValue value).intrMode = p.intrMode := by
  simp [intrMode, setPinValue]

@[simp] theorem intrMode_delayMsec (time : Nat) : (p.delayMsec time).intrMode = p.intrMode := by
  simp [intrMode, delayMsec]

@[simp] theorem intrMode_readPinValue : p.readPinValue.2.intrMode = p.intrMode := by
  simp [intrMode, readPinValue]

@[simp] theorem intrMode_noInterrupts : p.noInterrupts.intrMode = .intrOff := by
  simp [intrMode, noInterrupts]

@[simp] theorem intrMode_interrupts : p.interrupts.intrMode = .intrOn := by
  simp [intrMode, interrupts]

@[simp] theorem intrMode_waitFor (level : Bool) (time retries : Nat) :
    (waitFor level time retries p).2.intrMode = p.intrMode := by
  induction retries generalizing p with
  | zero => rfl
  | succ retries ih =>
    unfold waitFor
    split
    · rfl
    · simp only
      split
      · simp
      · rw [ih]
        simp

theorem intrMode_writeBit (v : BitVec 8) : (p.writeBit v).intrMode = .intrOn := by
  unfold writeBit
  split <;> simp

theorem intrMode_readBit : p.readBit.2.intrMode = .intrOn := by
  simp [readBit]

theorem intrMode_release : p.release.intrMode = .intrOn := by
  simp [release]

theorem intrMode_depower : p.depower.intrMode = .intrOn := by
  simp [depower]

/-- A byte is eight bits, so a byte written is a bit written. -/
theorem intrMode_writeByte (v : BitVec 8) : (OneWire.write slots v p).intrMode = .intrOn :=
  intrMode_writeBit _

/-- A byte written leaves interrupts on, whether power is kept or not. -/
theorem intrMode_write (v power : BitVec 8) : (p.write v power).intrMode = .intrOn := by
  unfold write
  simp only
  split
  · exact intrMode_release
  · exact intrMode_writeByte v

theorem intrMode_read : p.read.2.intrMode = .intrOn :=
  intrMode_readBit

/-- Calls that leave interrupts on if they are on. -/
theorem intrMode_readBytes (hp : p.intrMode = .intrOn) (count : Nat) :
    (readBytes count p).2.intrMode = .intrOn := by
  induction count generalizing p with
  | zero => exact hp
  | succ count ih => exact ih intrMode_read

/-- Interrupts that are on are on behind any number of bytes. -/
theorem intrMode_foldl_write {ι : Type} (f : ι → BitVec 8) (is : List ι)
    (hp : p.intrMode = .intrOn) :
    (is.foldl (fun p i => p.write (f i)) p).intrMode = .intrOn := by
  induction is generalizing p with
  | nil => exact hp
  | cons i is ih => exact ih (intrMode_write (f i) 0)

/-- And behind `write_bytes`. -/
theorem intrMode_writeBytes (hp : p.intrMode = .intrOn) (buf : List (BitVec 8)) (power : Bool) :
    (p.writeBytes buf power).intrMode = .intrOn := by
  unfold writeBytes
  simp only
  split
  · exact intrMode_foldl_write id buf hp
  · exact intrMode_release

theorem intrMode_select (rom : RomNo) : (p.select rom).intrMode = .intrOn :=
  intrMode_foldl_write rom _ (intrMode_write 0x55 0)

/-! ## What the pin returns next -/

def next (p : Pins) (n : Nat) : List Bool := (List.range n).map fun i => p.samples (p.sampled + i)

/-- The next values begin with the one that is read. -/
theorem next_succ (n : Nat) :
    p.next (n + 1) = p.readPinValue.1 :: p.readPinValue.2.next n := by
  unfold next
  rw [List.range_succ_eq_map, List.map_cons, List.map_map]
  simp only [readPinValue, Function.comp_def, Nat.succ_eq_add_one, Nat.add_zero]
  congr 2
  funext i
  rw [Nat.add_right_comm, Nat.add_assoc]

/-- Pins that are the same from here on return the same. -/
theorem next_congr {q : Pins} (h : p.SameAhead q) (n : Nat) : p.next n = q.next n := by
  unfold next
  rw [h.1, h.2]

/-- A waiting loop reads up to the first value it waits for, or it reads all there are retries
for. -/
theorem waitFor_cases (level : Bool) (time n : Nat) (p : Pins) :
    (level ∉ p.next n ∧ (waitFor level time (n + 1) p).1 = 0) ∨
      ∃ before m, level ∉ before ∧ (waitFor level time (n + 1) p).1 = m + 1 ∧
        p.next n = before ++ level :: (waitFor level time (n + 1) p).2.next m := by
  induction n generalizing p with
  | zero => exact Or.inl ⟨by simp [next], rfl⟩
  | succ n ih =>
    have hnext : p.next (n + 1) = (p.delayMsec time).readPinValue.1 ::
        (p.delayMsec time).readPinValue.2.next n := next_succ n
    unfold waitFor
    rw [if_neg (Nat.succ_ne_zero n), hnext]
    simp only
    by_cases hvalue : (p.delayMsec time).readPinValue.1 = level
    · rw [if_pos hvalue, hvalue]
      exact Or.inr ⟨[], n, by simp, rfl, rfl⟩
    · rw [if_neg hvalue]
      rcases ih (p.delayMsec time).readPinValue.2 with ⟨hno, hzero⟩ | ⟨before, m, hno, hm, hbefore⟩
      · refine Or.inl ⟨?_, hzero⟩
        rintro (_ | ⟨_, hmem⟩)
        · exact hvalue rfl
        · exact hno hmem
      · refine Or.inr ⟨_ :: before, m, ?_, hm, by rw [hbefore]; rfl⟩
        rintro (_ | ⟨_, hmem⟩)
        · exact hvalue rfl
        · exact hno hmem

/-- Up to the first `level` there is nothing of what is to follow it. -/
theorem cons_sublist_iff {level : Bool} {before after xs : List Bool} (h : level ∉ before) :
    (level :: xs).Sublist (before ++ level :: after) ↔ xs.Sublist after := by
  induction before with
  | nil => exact List.cons_sublist_cons
  | cons b before ih =>
    have hne : level ≠ b := fun he => h (he ▸ List.mem_cons_self)
    have hbefore : level ∉ before := fun hmem => h (List.mem_cons_of_mem _ hmem)
    rw [List.cons_append, List.sublist_cons_iff, ← ih hbefore]
    apply or_iff_left
    rintro ⟨r, hr, -⟩
    exact hne (List.cons.inj hr).1

/-- What has no `level` in it does not have it first. -/
theorem not_cons_sublist {level : Bool} {ws xs : List Bool} (h : level ∉ ws) :
    ¬ (level :: xs).Sublist ws :=
  fun hsub => h (hsub.subset List.mem_cons_self)

/-! ## Resets -/

/-- The number of values that `reset` may read. -/
def resetReads : Nat := resetTimeUs / resetStepUs - 1

/-- The wire is high, still high after the pulse, low while a device answers, and high again. -/
def Answered (values : List Bool) : Prop := [true, true, false, true].Sublist values

instance (values : List Bool) : Decidable (Answered values) :=
  inferInstanceAs (Decidable (List.Sublist _ _))

/-- `reset` returns true iff it was answered, and false with interrupts on iff the wire was never
high. -/
theorem reset_cases (p : Pins) :
    (p.reset.1 = true ∧ Answered (p.next resetReads) ∧ p.reset.2.intrMode = .intrOn) ∨
      p.reset.1 = false ∧ ¬ Answered (p.next resetReads) ∧
        (p.reset.2.intrMode = .intrOn ↔ true ∉ p.next resetReads) := by
  unfold reset Answered
  simp only
  rw [show resetTimeUs / resetStepUs = resetReads + 1 from rfl]
  generalize hp₁ : (p.noInterrupts |>.setPinMode .input |>.interrupts) = p₁
  have hnext₁ : p.next resetReads = p₁.next resetReads := by
    refine next_congr ?_ _
    simp [SameAhead, ← hp₁]
  have hon₁ : p₁.intrMode = .intrOn := by simp [← hp₁]
  rw [hnext₁]
  rcases waitFor_cases true resetStepUs resetReads p₁ with ⟨hno, hzero⟩ | ⟨before, m, hno, hm, hws⟩
  · -- the wire stays low
    rw [if_pos hzero]
    refine Or.inr ⟨rfl, not_cons_sublist hno, iff_of_true ?_ hno⟩
    simpa using hon₁
  have hhigh : ¬ true ∉ p₁.next resetReads := by simp [hws]
  rw [hm, if_neg (Nat.succ_ne_zero m)]
  -- from here on interrupts are masked
  generalize hp₂ : ((waitFor true resetStepUs (resetReads + 1) p₁).2.noInterrupts
    |>.setPinValue false |>.setPinMode .output |>.interrupts |>.delayMsec resetPulseUs
    |>.noInterrupts |>.setPinMode .input) = p₂
  have hnext₂ : (waitFor true resetStepUs (resetReads + 1) p₁).2.next m = p₂.next m := by
    refine next_congr ?_ _
    simp [SameAhead, ← hp₂]
  have hoff₂ : p₂.intrMode ≠ .intrOn := by simp [← hp₂]
  have hsub₂ : [true, true, false, true].Sublist (p₁.next resetReads) ↔
      [true, false, true].Sublist (p₂.next m) := by
    rw [hws, cons_sublist_iff hno, hnext₂]
  rw [hsub₂]
  rcases waitFor_cases true 2 m p₂ with ⟨hno, hzero⟩ | ⟨before, n, hno, hn, hws⟩
  · rw [if_pos hzero]
    refine Or.inr ⟨rfl, not_cons_sublist hno, iff_of_false ?_ hhigh⟩
    simpa using hoff₂
  rw [hn, if_neg (Nat.succ_ne_zero n), hws, cons_sublist_iff hno]
  have hoff₃ : (waitFor true 2 (m + 1) p₂).2.intrMode ≠ .intrOn := by simpa using hoff₂
  generalize (waitFor true 2 (m + 1) p₂).2 = p₃ at hoff₃ ⊢
  rcases waitFor_cases false 2 n p₃ with ⟨hno, hzero⟩ | ⟨before, k, hno, hk, hws⟩
  · rw [if_pos hzero]
    refine Or.inr ⟨rfl, not_cons_sublist hno, iff_of_false ?_ hhigh⟩
    simpa using hoff₃
  rw [hk, if_neg (Nat.succ_ne_zero k), hws, cons_sublist_iff hno]
  have hoff₄ : (waitFor false 2 (n + 1) p₃).2.intrMode ≠ .intrOn := by simpa using hoff₃
  generalize (waitFor false 2 (n + 1) p₃).2 = p₄ at hoff₄ ⊢
  rcases waitFor_cases true 2 k p₄ with ⟨hno, hzero⟩ | ⟨before, j, hno, hj, hws⟩
  · rw [if_pos hzero]
    refine Or.inr ⟨rfl, not_cons_sublist hno, iff_of_false ?_ hhigh⟩
    simpa using hoff₄
  · rw [hj, if_neg (Nat.succ_ne_zero j), hws, cons_sublist_iff hno]
    exact Or.inl ⟨rfl, List.nil_sublist _, by simp⟩

/-- What the pin returns lets `reset` end with interrupts on. -/
def Unmasks (values : List Bool) : Prop := true ∉ values ∨ Answered values

instance (values : List Bool) : Decidable (Unmasks values) :=
  inferInstanceAs (Decidable (_ ∨ _))

/-- A reset leaves interrupts on iff the next values let it. -/
theorem intrMode_reset (p : Pins) :
    p.reset.2.intrMode = .intrOn ↔ Unmasks (p.next resetReads) := by
  unfold Unmasks
  rcases reset_cases p with ⟨-, hanswer, hon⟩ | ⟨-, hno, hiff⟩
  · exact iff_of_true hon (Or.inr hanswer)
  · rw [hiff]
    exact (or_iff_left hno).symm

/-! ## Searches -/

/-- So does a search, if it makes a reset at all. -/
theorem intrMode_search {ow ow' : OneWire} {searchMode : Bool} {found : Option RomNo} {p' : Pins}
    (hp : p.intrMode = .intrOn) (h : p.search ow searchMode = some (found, ow', p')) :
    p'.intrMode = .intrOn ↔ ow.lastDeviceFlag = true ∨ Unmasks (p.next resetReads) := by
  unfold search at h
  by_cases hflag : ow.lastDeviceFlag = true
  · rw [if_pos hflag] at h
    simp only [Option.some.injEq, Prod.mk.injEq] at h
    exact iff_of_true (h.2.2 ▸ hp) (Or.inl hflag)
  rw [if_neg hflag] at h
  rw [or_iff_right hflag, ← intrMode_reset]
  simp only at h
  rcases reset_cases p with ⟨hanswered, -, hon⟩ | ⟨hno, -⟩
  · rw [if_pos hanswered] at h
    rcases Option.map_eq_some_iff.mp h with ⟨s, hs, he⟩
    obtain ⟨n, t, -, ht, -, hbus⟩ := searchLoop_invariant (w := slots) (k := 0)
      (I := fun k s => Counted k s ∧ s.bus.intrMode = .intrOn) (fun _ _ h => h.1)
      (fun _ _ h => ⟨h.1.setBus _, intrMode_readBit⟩)
      (fun _ _ _ _ _ h => ⟨h.1.next, intrMode_writeBit _⟩)
      ⟨counted_start _ _ _, intrMode_write _ 0⟩ (by decide) (Nat.le_refl 64)
    obtain rfl := Option.some.inj (ht.symm.trans hs)
    have hp' : p' = t.bus := by
      split at he
      · simp only [Prod.mk.injEq] at he
        exact he.2.2.symm
      · split at he <;>
        · simp only [Prod.mk.injEq] at he
          exact he.2.2.symm
    exact iff_of_true (hp' ▸ hbus) hon
  · rw [hno] at h
    simp only [Bool.false_eq_true, if_false, Option.some.injEq, Prod.mk.injEq] at h
    rw [h.2.2]

end Pins

/-! ## Calls -/

/-- The public member functions, with their arguments. -/
inductive MasterCall where
  | reset
  | writeBit (v : BitVec 8)
  | readBit
  | write (v power : BitVec 8)
  | writeBytes (buf : List (BitVec 8)) (power : Bool)
  | read
  | readBytes (count : Nat)
  | select (rom : RomNo)
  | skip
  | depower
  | resetSearch
  | targetSearch (familyCode : BitVec 8)
  | search (searchMode : Bool)

/-- The object and its pins. -/
structure Master where
  ow : OneWire
  pins : Pins

namespace Master

variable {m m' : Master} {call : MasterCall}

def step (m : Master) : MasterCall → Option Master
  | .reset => some { m with pins := m.pins.reset.2 }
  | .writeBit v => some { m with pins := m.pins.writeBit v }
  | .readBit => some { m with pins := m.pins.readBit.2 }
  | .write v power => some { m with pins := m.pins.write v power }
  | .writeBytes buf power => some { m with pins := m.pins.writeBytes buf power }
  | .read => some { m with pins := m.pins.read.2 }
  | .readBytes count => some { m with pins := (m.pins.readBytes count).2 }
  | .select rom => some { m with pins := m.pins.select rom }
  | .skip => some { m with pins := m.pins.skip }
  | .depower => some { m with pins := m.pins.depower }
  | .resetSearch => some { m with ow := m.ow.resetSearch }
  | .targetSearch familyCode => some { m with ow := .targetSearch familyCode }
  | .search searchMode => (m.pins.search m.ow searchMode).map fun r => ⟨r.2.1, r.2.2⟩

def InterruptsOn (m : Master) : Prop := m.pins.intrMode = .intrOn

/-- If the call makes a reset, the next values of the pin let it end with interrupts on. -/
def ResetUnmasks (m : Master) : MasterCall → Prop
  | .reset => Pins.Unmasks (m.pins.next Pins.resetReads)
  | .search _ => m.ow.lastDeviceFlag = true ∨ Pins.Unmasks (m.pins.next Pins.resetReads)
  | _ => True

instance (m : Master) : (call : MasterCall) → Decidable (m.ResetUnmasks call)
  | .reset => inferInstanceAs (Decidable (Pins.Unmasks _))
  | .search _ => inferInstanceAs (Decidable (_ ∨ _))
  | .writeBit _ | .readBit | .write _ _ | .writeBytes _ _ | .read | .readBytes _ | .select _
  | .skip | .depower | .resetSearch | .targetSearch _ => inferInstanceAs (Decidable True)

/-- Step lemma: only a reset decides. -/
theorem interruptsOn_step_iff (hm : m.InterruptsOn) (hstep : m.step call = some m') :
    m'.InterruptsOn ↔ m.ResetUnmasks call := by
  cases call with
  | reset =>
    obtain rfl := Option.some.inj hstep
    exact m.pins.intrMode_reset
  | search searchMode =>
    rcases Option.map_eq_some_iff.mp hstep with ⟨⟨found, ow', p'⟩, hsearch, rfl⟩
    exact Pins.intrMode_search hm hsearch
  | writeBit v =>
    obtain rfl := Option.some.inj hstep
    exact iff_of_true (Pins.intrMode_writeBit v) trivial
  | readBit =>
    obtain rfl := Option.some.inj hstep
    exact iff_of_true Pins.intrMode_readBit trivial
  | write v power =>
    obtain rfl := Option.some.inj hstep
    exact iff_of_true (Pins.intrMode_write v power) trivial
  | writeBytes buf power =>
    obtain rfl := Option.some.inj hstep
    exact iff_of_true (Pins.intrMode_writeBytes hm buf power) trivial
  | read =>
    obtain rfl := Option.some.inj hstep
    exact iff_of_true Pins.intrMode_read trivial
  | readBytes count =>
    obtain rfl := Option.some.inj hstep
    exact iff_of_true (Pins.intrMode_readBytes hm count) trivial
  | select rom =>
    obtain rfl := Option.some.inj hstep
    exact iff_of_true (Pins.intrMode_select rom) trivial
  | skip =>
    obtain rfl := Option.some.inj hstep
    exact iff_of_true (Pins.intrMode_write 0xCC 0) trivial
  | depower =>
    obtain rfl := Option.some.inj hstep
    exact iff_of_true Pins.intrMode_depower trivial
  | resetSearch =>
    obtain rfl := Option.some.inj hstep
    exact iff_of_true hm trivial
  | targetSearch familyCode =>
    obtain rfl := Option.some.inj hstep
    exact iff_of_true hm trivial

/-- Over every sequence of calls and of values of the pin: every call returns with interrupts on
iff every reset finds a wire that is never high, or one that answers in time. -/
theorem interruptsOn_iff {ow : OneWire} {samples : Nat → Bool} {tr : List (Master × MasterCall)}
    (hrun : Run step ⟨ow, { samples := samples }⟩ tr m) :
    Always InterruptsOn tr m ↔ EveryStep ResetUnmasks tr := by
  refine hrun.always_iff_everyStep (I := InterruptsOn) everyStep_true rfl (fun _ h => h) ?_ ?_
  · intro s l s' hs _ hC hstep
    exact (interruptsOn_step_iff hs hstep).mpr hC
  · intro s l s' hs _ hC hstep
    exact fun hon => hC ((interruptsOn_step_iff hs hstep).mp hon)

/-- A device that answers, and calls that follow. -/
theorem interruptsOn_iff_answered :
    ∃ tr m, Run step ⟨.targetSearch 0x28, { samples := fun n => n ≠ 2 }⟩ tr m ∧
      tr.map Prod.snd = [.reset, .skip, .read, .writeBytes [] true, .depower] ∧
      Always InterruptsOn tr m := by
  have hrun := run_get step ⟨.targetSearch 0x28, { samples := fun n => n ≠ 2 }⟩
    [.reset, .skip, .read, .writeBytes [] true, .depower] (by decide)
  exact ⟨_, _, hrun, rfl, (interruptsOn_iff hrun).mpr (by decide)⟩

/-- No device on the wire: it is high, stays high, and `reset` gives up with interrupts masked. -/
theorem reset_masks :
    ∃ tr m, Run step ⟨.targetSearch 0x28, { samples := fun _ => true }⟩ tr m ∧
      tr.map Prod.snd = [.reset] ∧ ¬ Always InterruptsOn tr m := by
  let m : Master := ⟨.targetSearch 0x28, { samples := fun _ => true }⟩
  refine ⟨[(m, .reset)], { m with pins := m.pins.reset.2 }, Run.nil.snoc rfl, rfl, ?_⟩
  rintro ⟨-, hlast⟩
  exact absurd (m.pins.intrMode_reset.mp hlast) (by decide)

end Master

end EspAcDimmer
