import EspAcDimmer.OneWire.Interrupts

/-! # The presence of a device

`reset` waits four times, for a level and within what the waits before have left of its retries. It
returns true iff what it samples begins with a complete handshake: the wire is idle, it is released
after the pulse, a device pulls it low, and lets it go.
-/

namespace EspAcDimmer

namespace Pins

variable {p : Pins} {level : Bool}

/-! ## The handshake -/

/-- Low for a while and then high; high; high for a while and then low; low for a while and then
high. -/
def Handshake (values : List Bool) : Prop :=
  ∃ idle released answered held, values =
    List.replicate idle false ++ true :: (List.replicate released false ++ true ::
      (List.replicate answered true ++ false :: (List.replicate held false ++ [true])))

/-- A wait for the first value, and what is left for those behind it. -/
theorem cons_sublist_iff_exists {values xs : List Bool} : (level :: xs).Sublist values ↔
    ∃ n after, values = List.replicate n (!level) ++ level :: after ∧ xs.Sublist after := by
  constructor
  · intro h
    obtain ⟨before, after, rfl, hno⟩ :=
      List.eq_append_cons_of_mem (h.subset List.mem_cons_self)
    have hbefore : before = List.replicate before.length (!level) :=
      List.eq_replicate_of_mem fun b hb => Bool.eq_not.mpr fun he => hno (he ▸ hb)
    exact ⟨before.length, after, by rw [← hbefore], (cons_sublist_iff hno).mp h⟩
  · rintro ⟨n, after, rfl, h⟩
    refine (cons_sublist_iff ?_).mpr h
    intro hmem
    exact absurd (List.eq_of_mem_replicate hmem) (by simp)

/-- What is answered begins with a handshake. -/
theorem answered_iff_handshake {values : List Bool} :
    Answered values ↔ ∃ n ≤ values.length, Handshake (values.take n) := by
  constructor
  · intro h
    rcases cons_sublist_iff_exists.mp h with ⟨n₁, values₁, h₁, h⟩
    rcases cons_sublist_iff_exists.mp h with ⟨n₂, values₂, h₂, h⟩
    rcases cons_sublist_iff_exists.mp h with ⟨n₃, values₃, h₃, h⟩
    rcases cons_sublist_iff_exists.mp h with ⟨n₄, after, h₄, -⟩
    obtain ⟨start, hstart, rfl⟩ : ∃ start, Handshake start ∧ values = start ++ after :=
      ⟨_, ⟨n₁, n₂, n₃, n₄, rfl⟩, by simp [h₁, h₂, h₃, h₄]⟩
    exact ⟨start.length, by simp, by rwa [List.take_left]⟩
  · rintro ⟨n, -, idle, released, answered, held, h⟩
    have hsub : Answered (values.take n) := by
      rw [h]
      refine cons_sublist_iff_exists.mpr ⟨idle, _, rfl, ?_⟩
      refine cons_sublist_iff_exists.mpr ⟨released, _, rfl, ?_⟩
      refine cons_sublist_iff_exists.mpr ⟨answered, _, rfl, ?_⟩
      exact cons_sublist_iff_exists.mpr ⟨held, [], rfl, List.nil_sublist []⟩
    exact hsub.trans (List.take_sublist n values)

/-! ## The waits of a reset -/

@[simp] theorem pinMode_waitFor (time retries : Nat) :
    (waitFor level time retries p).2.pinMode = p.pinMode := by
  induction retries generalizing p with
  | zero => rfl
  | succ retries ih =>
    unfold waitFor
    split
    · rfl
    · simp only
      split
      · simp
      · rw [ih]
        simp

/-- A sample costs a retry, and the last retry is not used. -/
theorem waitFor_sampled (level : Bool) (time retries : Nat) (p : Pins) :
    (waitFor level time retries p).2.sampled + ((waitFor level time retries p).1 - 1) =
      p.sampled + (retries - 1) := by
  induction retries generalizing p with
  | zero => rfl
  | succ retries ih =>
    unfold waitFor
    split
    · next h =>
      subst h
      rfl
    · have hread : (p.delayMsec time).readPinValue.2.sampled = p.sampled + 1 := rfl
      simp only
      split
      · simp only [hread]
        omega
      · rw [ih, hread]
        omega

/-- A wait that ends in time ends with the level it waits for. -/
theorem waitFor_calls (level : Bool) (time retries : Nat) (p : Pins) : ∃ polls,
    (waitFor level time retries p).2.calls = p.calls ++ polls ∧
      ((waitFor level time retries p).1 ≠ 0 → .readPinValue level ∈ polls) := by
  induction retries generalizing p with
  | zero => exact ⟨[], (List.append_nil _).symm, fun h => absurd rfl h⟩
  | succ retries ih =>
    have hread : (p.delayMsec time).readPinValue.2.calls = p.calls ++
        [.delayMsec time, .readPinValue (p.delayMsec time).readPinValue.1] := by
      simp [readPinValue, delayMsec]
    unfold waitFor
    split
    · exact ⟨[], (List.append_nil _).symm, fun h => absurd rfl h⟩
    · simp only
      split
      · next hvalue => exact ⟨_, hread, fun _ => by simp [hvalue]⟩
      · rcases ih (p.delayMsec time).readPinValue.2 with ⟨polls, hpolls, hlevel⟩
        exact ⟨[_, _] ++ polls, by rw [hpolls, hread, List.append_assoc],
          fun h => List.mem_append_right _ (hlevel h)⟩

/-- What `reset` calls before its first wait. -/
def idled (p : Pins) : Pins := p.noInterrupts |>.setPinMode .input |>.interrupts

/-- What it calls between the first wait and the second one. -/
def pulsed (p : Pins) : Pins :=
  p.noInterrupts |>.setPinValue false |>.setPinMode .output |>.interrupts
    |>.delayMsec resetPulseUs |>.noInterrupts |>.setPinMode .input

/-- The calls of the pulse. -/
def resetPulse : List Callback := [.setIntrMode .intrOff, .setPinValue false, .setPinMode .output,
  .setIntrMode .intrOn, .delayMsec resetPulseUs, .setIntrMode .intrOff, .setPinMode .input]

theorem pulsed_calls (p : Pins) : p.pulsed.calls = p.calls ++ resetPulse := by
  simp [pulsed, resetPulse, noInterrupts, setPinValue, setPinMode, interrupts, delayMsec]

/-- The four waits of a reset, and what stands between them. -/
theorem reset_eq (p : Pins) : p.reset =
    let idle := waitFor true resetStepUs (resetTimeUs / resetStepUs) p.idled
    let released := waitFor true 2 idle.1 idle.2.pulsed
    let answered := waitFor false 2 released.1 released.2
    let held := waitFor true 2 answered.1 answered.2
    if idle.1 = 0 then (false, idle.2)
    else if released.1 = 0 then (false, released.2)
    else if answered.1 = 0 then (false, answered.2)
    else if held.1 = 0 then (false, held.2)
    else (true, held.2.interrupts.delayMsec (resetStepUs * held.1)) := by
  unfold reset idled pulsed
  simp only

/-- What its waits keep, before the pulse and after it, with the retries that are left, a reset ends
with. -/
theorem reset_keeps {before after : Nat → Pins → Prop}
    (hstart : before (resetTimeUs / resetStepUs) p.idled)
    (hidle : ∀ retries q, before retries q → before (waitFor true resetStepUs retries q).1
      (waitFor true resetStepUs retries q).2)
    (hpulse : ∀ retries q, before retries q → after retries q.pulsed)
    (hwait : ∀ level retries q, after retries q → after (waitFor level 2 retries q).1
      (waitFor level 2 retries q).2) :
    (before 0 p.reset.2 ∨ after 0 p.reset.2) ∨ ∃ retries q, 0 < retries ∧ after retries q ∧
      p.reset.2 = q.interrupts.delayMsec (resetStepUs * retries) := by
  rw [reset_eq]
  simp only
  have hidled := hidle _ _ hstart
  generalize waitFor true resetStepUs (resetTimeUs / resetStepUs) p.idled = idle at hidled ⊢
  have hreleased := hwait true _ _ (hpulse _ _ hidled)
  generalize waitFor true 2 idle.1 idle.2.pulsed = released at hreleased ⊢
  have hanswered := hwait false _ _ hreleased
  generalize waitFor false 2 released.1 released.2 = answered at hanswered ⊢
  have hheld := hwait true _ _ hanswered
  generalize waitFor true 2 answered.1 answered.2 = held at hheld ⊢
  split
  · next hzero => exact Or.inl (Or.inl (hzero ▸ hidled))
  split
  · next hzero => exact Or.inl (Or.inr (hzero ▸ hreleased))
  split
  · next hzero => exact Or.inl (Or.inr (hzero ▸ hanswered))
  split
  · next hzero => exact Or.inl (Or.inr (hzero ▸ hheld))
  · next hpos => exact Or.inr ⟨held.1, held.2, Nat.pos_of_ne_zero hpos, hheld, rfl⟩

/-- The retries of a reset are as many as its samples and one. -/
theorem reset_sampled (p : Pins) : p.reset.2.sampled ≤ p.sampled + resetReads := by
  let left : Nat → Pins → Prop := fun retries q =>
    q.sampled + (retries - 1) = p.sampled + resetReads
  have hwait : ∀ level time retries q, left retries q →
      left (waitFor level time retries q).1 (waitFor level time retries q).2 :=
    fun level time retries q hleft => (waitFor_sampled level time retries q).trans hleft
  have hstart : left (resetTimeUs / resetStepUs) p.idled := rfl
  rcases reset_keeps hstart (hwait true resetStepUs) (fun _ _ hleft => hleft)
    (fun level => hwait level 2) with hzero | ⟨retries, q, -, hleft, hreset⟩
  · exact (or_self_iff.mp hzero).le
  · rw [hreset]
    exact Nat.le_of_add_right_le (Nat.le_of_eq hleft)

/-- A reset leaves the pin in input mode. -/
theorem pinMode_reset (p : Pins) : p.reset.2.pinMode = .input := by
  let input : Nat → Pins → Prop := fun _ q => q.pinMode = .input
  have hwait : ∀ level time retries q, input retries q →
      input (waitFor level time retries q).1 (waitFor level time retries q).2 :=
    fun level time retries q hinput => (pinMode_waitFor time retries).trans hinput
  have hstart : input (resetTimeUs / resetStepUs) p.idled := by simp [input, idled]
  rcases reset_keeps hstart (hwait true resetStepUs) (fun _ q _ => by simp [input, pulsed])
    (fun level => hwait level 2) with hzero | ⟨retries, q, -, hinput, hreset⟩
  · exact or_self_iff.mp hzero
  · rw [hreset]
    simpa using hinput

/-- A reset that was answered: its calls, and the retries that are left. -/
theorem reset_of_true (h : p.reset.1 = true) :
    ∃ idle answer retries, p.reset.2.calls = p.calls ++ idle ++ resetPulse ++ answer ++
        [.setIntrMode .intrOn, .delayMsec (resetStepUs * retries)] ∧
      [.readPinValue false, .readPinValue true].Sublist answer ∧ 0 < retries ∧
      p.reset.2.sampled + retries = p.sampled + resetReads + 1 := by
  rw [reset_eq, show resetTimeUs / resetStepUs = resetReads + 1 from rfl] at h ⊢
  simp only at h ⊢
  have hidle := waitFor_sampled true resetStepUs (resetReads + 1) p.idled
  rcases waitFor_calls true resetStepUs (resetReads + 1) p.idled with ⟨polls₁, hcalls₁, -⟩
  generalize waitFor true resetStepUs (resetReads + 1) p.idled = idle at *
  split at h
  · exact absurd h (by simp)
  next hidle₀ =>
  rw [if_neg hidle₀]
  have hreleased := waitFor_sampled true 2 idle.1 idle.2.pulsed
  rcases waitFor_calls true 2 idle.1 idle.2.pulsed with ⟨polls₂, hcalls₂, -⟩
  generalize waitFor true 2 idle.1 idle.2.pulsed = released at *
  split at h
  · exact absurd h (by simp)
  next hreleased₀ =>
  rw [if_neg hreleased₀]
  have hanswered := waitFor_sampled false 2 released.1 released.2
  rcases waitFor_calls false 2 released.1 released.2 with ⟨polls₃, hcalls₃, hlow⟩
  generalize waitFor false 2 released.1 released.2 = answered at *
  split at h
  · exact absurd h (by simp)
  next hanswered₀ =>
  rw [if_neg hanswered₀]
  have hheld := waitFor_sampled true 2 answered.1 answered.2
  rcases waitFor_calls true 2 answered.1 answered.2 with ⟨polls₄, hcalls₄, hhigh⟩
  generalize waitFor true 2 answered.1 answered.2 = held at *
  split at h
  · exact absurd h (by simp)
  next hheld₀ =>
  rw [if_neg hheld₀]
  have hstart : p.idled.sampled = p.sampled := rfl
  have hpulse : idle.2.pulsed.sampled = idle.2.sampled := rfl
  have hleft : held.2.sampled + held.1 = p.sampled + resetReads + 1 := by omega
  refine ⟨[.setIntrMode .intrOff, .setPinMode .input, .setIntrMode .intrOn] ++ polls₁,
    polls₂ ++ (polls₃ ++ polls₄), held.1, ?_, ?_, Nat.pos_of_ne_zero hheld₀, hleft⟩
  · simp only [interrupts, delayMsec, hcalls₄, hcalls₃, hcalls₂, pulsed_calls, hcalls₁, idled,
      noInterrupts, setPinMode, List.append_assoc, List.cons_append, List.nil_append]
  · have hpair := (List.singleton_sublist.mpr (hlow hanswered₀)).append
      (List.singleton_sublist.mpr (hhigh hheld₀))
    exact hpair.trans (List.sublist_append_right _ _)

/-- For every sequence of samples: `reset` takes 69 of them at most, returns true iff they begin
with a handshake, so that it was answered after the pulse, leaves the pin in input mode, and on
success waits for the retries that are left, of which there are some. -/
theorem reset_recognises (p : Pins) :
    p.reset.2.sampled ≤ p.sampled + 69 ∧
      (p.reset.1 = true ↔ ∃ n ≤ 69, Handshake (p.next n)) ∧
      p.reset.2.pinMode = .input ∧
      (p.reset.1 = true → ∃ idle answer retries,
        p.reset.2.calls = p.calls ++ idle ++ resetPulse ++ answer ++
          [.setIntrMode .intrOn, .delayMsec (resetStepUs * retries)] ∧
        [.readPinValue false, .readPinValue true].Sublist answer ∧ 0 < retries ∧
        p.reset.2.sampled + retries = p.sampled + 70) := by
  have hreads : resetReads = 69 := rfl
  have hlen : ∀ n, (p.next n).length = n := fun n => by simp [next]
  have htake : ∀ n ≤ 69, (p.next 69).take n = p.next n := by
    intro n hn
    rw [next, ← List.map_take, List.take_range, Nat.min_eq_left hn]
    rfl
  refine ⟨reset_sampled p, ?_, pinMode_reset p, fun h => reset_of_true h⟩
  have hiff : p.reset.1 = true ↔ Answered (p.next resetReads) := by
    rcases reset_cases p with ⟨htrue, hanswered, -⟩ | ⟨hfalse, hnot, -⟩
    · exact iff_of_true htrue hanswered
    · exact iff_of_false (by simp [hfalse]) hnot
  rw [hiff, hreads, answered_iff_handshake, hlen]
  refine exists_congr fun n => and_congr_right fun hn => ?_
  rw [htake n hn]

end Pins

end EspAcDimmer
