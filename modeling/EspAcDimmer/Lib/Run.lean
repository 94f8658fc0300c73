import Mathlib.Data.List.Basic

/-! # Runs of a labelled step function

A system is a step function `step : σ → ℓ → Option σ`, where `none` says that the label is not
enabled. A run records every label together with the state it fired in, so that a property can
be asked of each state of a run and a condition of each step.
-/

namespace Lts

variable {σ ℓ : Type*} (step : σ → ℓ → Option σ)

/-- The steps of `tr`, each with the state it starts in, lead from the first state to the last. -/
inductive Run (s₀ : σ) : List (σ × ℓ) → σ → Prop where
  | nil : Run s₀ [] s₀
  | snoc {s s' : σ} {tr : List (σ × ℓ)} {l : ℓ} :
      Run s₀ tr s → step s l = some s' → Run s₀ (tr ++ [(s, l)]) s'

/-- The property holds in every state of the run: before each step and at its end. -/
def Always (P : σ → Prop) (tr : List (σ × ℓ)) (s : σ) : Prop :=
  (∀ p ∈ tr, P p.1) ∧ P s

/-- Every step of the run meets the condition. -/
def EveryStep (C : σ → ℓ → Prop) (tr : List (σ × ℓ)) : Prop :=
  ∀ p ∈ tr, C p.1 p.2

instance (C : σ → ℓ → Prop) [∀ s l, Decidable (C s l)] (tr : List (σ × ℓ)) :
    Decidable (EveryStep C tr) :=
  inferInstanceAs (Decidable (∀ p ∈ tr, C p.1 p.2))

variable {step} {s₀ s s' : σ} {tr tr' : List (σ × ℓ)} {l : ℓ}

theorem EveryStep.nil {C : σ → ℓ → Prop} : EveryStep C [] := by
  simp [EveryStep]

@[simp] theorem everyStep_snoc {C : σ → ℓ → Prop} :
    EveryStep C (tr ++ [(s, l)]) ↔ EveryStep C tr ∧ C s l := by
  constructor
  · intro h
    exact ⟨fun p hp => h p (List.mem_append_left _ hp), h (s, l) (by simp)⟩
  · rintro ⟨htr, hl⟩ p hp
    rcases List.mem_append.mp hp with hp | hp
    · exact htr p hp
    · obtain rfl : p = (s, l) := by simpa using hp
      exact hl

theorem EveryStep.and {C D : σ → ℓ → Prop} (hC : EveryStep C tr) (hD : EveryStep D tr) :
    EveryStep (fun s l => C s l ∧ D s l) tr :=
  fun p hp => ⟨hC p hp, hD p hp⟩

/-- Two runs that meet can be put together. -/
theorem Run.append (h₁ : Run step s₀ tr s) (h₂ : Run step s tr' s') :
    Run step s₀ (tr ++ tr') s' := by
  induction h₂ with
  | nil => simpa using h₁
  | snoc _ hstep ih =>
    rw [← List.append_assoc]
    exact ih.snoc hstep

/-- Invariant rule: what the first state has and every allowed step keeps, the last state has. -/
theorem Run.invariant {I : σ → Prop} {C : σ → ℓ → Prop} (hrun : Run step s₀ tr s)
    (hinit : I s₀) (hstep : ∀ s l s', I s → C s l → step s l = some s' → I s')
    (hC : EveryStep C tr) : I s := by
  induction hrun with
  | nil => exact hinit
  | snoc _ hs ih =>
    rw [everyStep_snoc] at hC
    exact hstep _ _ _ (ih hC.1) hC.2 hs

/-- The invariant rule, for every state the run passes through. -/
theorem Run.always {I : σ → Prop} {C : σ → ℓ → Prop} (hrun : Run step s₀ tr s)
    (hinit : I s₀) (hstep : ∀ s l s', I s → C s l → step s l = some s' → I s')
    (hC : EveryStep C tr) : Always I tr s := by
  induction hrun with
  | nil => exact ⟨by simp, hinit⟩
  | snoc _ hs ih =>
    rw [everyStep_snoc] at hC
    rcases ih hC.1 with ⟨hpast, hlast⟩
    refine ⟨?_, hstep _ _ _ hlast hC.2 hs⟩
    intro p hp
    rcases List.mem_append.mp hp with hp | hp
    · exact hpast p hp
    · obtain rfl : p = _ := by simpa using hp
      exact hlast

/-- A step condition `C` is exact for a property `P` of the runs whose steps all meet `D` when some
invariant `I` gives `P`, is kept by every step that meets `C`, and every other step leads to a
state without `P`. -/
theorem Run.always_iff_everyStep {I P : σ → Prop} {C D : σ → ℓ → Prop}
    (hrun : Run step s₀ tr s) (hD : EveryStep D tr) (hinit : I s₀) (hP : ∀ s, I s → P s)
    (hkeep : ∀ s l s', I s → D s l → C s l → step s l = some s' → I s')
    (hbreak : ∀ s l s', I s → D s l → ¬ C s l → step s l = some s' → ¬ P s') :
    Always P tr s ↔ EveryStep C tr := by
  constructor
  · intro hall
    -- carried along the run: the invariant itself, as long as `P` has not failed
    suffices h : EveryStep C tr ∧ I s from h.1
    induction hrun with
    | nil => exact ⟨EveryStep.nil, hinit⟩
    | @snoc s s' tr l _ hs ih =>
      rcases everyStep_snoc.mp hD with ⟨hDpast, hDl⟩
      have hbefore : Always P tr s :=
        ⟨fun p hp => hall.1 p (List.mem_append_left _ hp), hall.1 (s, l) (by simp)⟩
      rcases ih hDpast hbefore with ⟨hC, hI⟩
      have hl : C s l := by
        by_contra hno
        exact hbreak _ _ _ hI hDl hno hs hall.2
      exact ⟨everyStep_snoc.mpr ⟨hC, hl⟩, hkeep _ _ _ hI hDl hl hs⟩
  · intro hC
    obtain ⟨hpast, hlast⟩ := hrun.always hinit
      (fun _ _ _ hI hDC hs => hkeep _ _ _ hI hDC.1 hDC.2 hs) (hD.and hC)
    exact ⟨fun p hp => hP _ (hpast p hp), hP _ hlast⟩

/-- A condition that every step of every run meets. -/
theorem everyStep_true : EveryStep (fun _ _ => True) tr :=
  fun _ _ => trivial

/-- A step of a run splits it in two. -/
theorem Run.split {p : σ × ℓ} (hrun : Run step s₀ tr s) (hp : p ∈ tr) :
    ∃ tr₁ tr₂ t, tr = tr₁ ++ p :: tr₂ ∧ Run step s₀ tr₁ p.1 ∧ step p.1 p.2 = some t ∧
      Run step t tr₂ s := by
  induction hrun with
  | nil => simp at hp
  | snoc hr hs ih =>
    rcases List.mem_append.mp hp with hp | hp
    · rcases ih hp with ⟨tr₁, tr₂, t, rfl, h₁, ht, h₂⟩
      exact ⟨tr₁, tr₂ ++ [(_, _)], t, by simp, h₁, ht, h₂.snoc hs⟩
    · obtain rfl : p = _ := by simpa using hp
      exact ⟨_, [], _, rfl, hr, hs, .nil⟩

/-- Two conditions that agree on every enabled step agree on every run. -/
theorem Run.everyStep_congr {C D : σ → ℓ → Prop} (hrun : Run step s₀ tr s)
    (hCD : ∀ s l s', step s l = some s' → (C s l ↔ D s l)) : EveryStep C tr ↔ EveryStep D tr := by
  have hiff : ∀ p ∈ tr, C p.1 p.2 ↔ D p.1 p.2 := fun p hp => by
    rcases hrun.split hp with ⟨_, _, _, _, -, hstep, -⟩
    exact hCD _ _ _ hstep
  exact ⟨fun h p hp => (hiff p hp).mp (h p hp), fun h p hp => (hiff p hp).mpr (h p hp)⟩

/-- Of two steps of a run, one comes after the other, unless they are the same. -/
theorem Run.between {p q : σ × ℓ} (hrun : Run step s₀ tr s) (hp : p ∈ tr) (hq : q ∈ tr) :
    p = q ∨ (∃ t tr', step p.1 p.2 = some t ∧ Run step t tr' q.1 ∧ tr' ⊆ tr) ∨
      ∃ t tr', step q.1 q.2 = some t ∧ Run step t tr' p.1 ∧ tr' ⊆ tr := by
  rcases hrun.split hp with ⟨tr₁, tr₂, t, rfl, h₁, ht, h₂⟩
  -- the second step is split off the part of the run before the first, or of that behind it
  rcases List.mem_append.mp hq with hq | hq
  · rcases h₁.split hq with ⟨tr₃, tr₄, t', rfl, -, ht', h₄⟩
    exact Or.inr (Or.inr ⟨t', tr₄, ht', h₄, fun x hx => by simp [hx]⟩)
  · rcases List.mem_cons.mp hq with rfl | hq
    · exact Or.inl rfl
    · rcases h₂.split hq with ⟨tr₃, tr₄, t', rfl, h₃, -, -⟩
      exact Or.inr (Or.inl ⟨t, tr₃, ht, h₃, fun x hx => by simp [hx]⟩)

/-- Runs the labels in order; `none` as soon as one is not enabled. -/
def exec (step : σ → ℓ → Option σ) (s : σ) : List ℓ → Option (List (σ × ℓ) × σ)
  | [] => some ([], s)
  | l :: ls =>
    match step s l with
    | none => none
    | some s' => (exec step s' ls).map fun r => ((s, l) :: r.1, r.2)

/-- What is executed is a run. -/
theorem run_of_exec : ∀ {ls : List ℓ} {s t : σ} {tr : List (σ × ℓ)},
    exec step s ls = some (tr, t) → Run step s tr t
  | [], s, t, tr, h => by
    obtain ⟨rfl, rfl⟩ : [] = tr ∧ s = t := by simpa [exec] using h
    exact .nil
  | l :: ls, s, t, tr, h => by
    cases hs : step s l with
    | none => simp [exec, hs] at h
    | some s' =>
      simp only [exec, hs, Option.map_eq_some_iff, Prod.mk.injEq, Prod.exists] at h
      rcases h with ⟨tr', t', htail, rfl, rfl⟩
      have hfirst : Run step s ([] ++ [(s, l)]) s' := Run.nil.snoc hs
      simpa using hfirst.append (run_of_exec htail)

/-- The run of labels that are all enabled. -/
theorem run_get (step : σ → ℓ → Option σ) (s : σ) (ls : List ℓ)
    (h : (exec step s ls).isSome = true) :
    Run step s ((exec step s ls).get h).1 ((exec step s ls).get h).2 :=
  run_of_exec (Option.some_get h).symm

/-- Loop rule: what holds in front of the first element of a list and is kept by every element, with
its position, holds behind the last one. -/
theorem foldl_invariant {α : Type*} {f : σ → α → σ} {I : Nat → σ → Prop} {l : List α}
    (hstep : ∀ i (hi : i < l.length) s, I i s → I (i + 1) (f s l[i])) {s : σ} (hinit : I 0 s) :
    I l.length (l.foldl f s) := by
  induction l generalizing I s with
  | nil => exact hinit
  | cons x l ih =>
    have hfirst : I 1 (f s x) := hstep 0 (Nat.succ_pos _) s hinit
    exact ih (I := fun i => I (i + 1))
      (fun i hi t ht => hstep (i + 1) (Nat.succ_lt_succ hi) t ht) hfirst

end Lts
