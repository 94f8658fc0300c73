import Mathlib.Logic.Relation
import EspAcDimmer.Lib.Run

/-! # Sections under one lock

A system whose steps are atomic, carried out by threads that hold a lock during some of them. Such a
step is a section: small steps on what the lock protects, one commit, which is all that it does to
the rest of the state, and again small steps on what the lock protects. Other threads may move
between any two of them. As long as they touch what is protected in sections only, they cannot tell:
every run is one of the atomic system, with each section at its commit.

* `Sections`: how the steps are carried out, and `Sections.step`, that system;
* `Atomic`: what makes a section the step it stands for;
* `run_atomic`: the simulation;
* `run_comesFree`: the thread with the lock gives it back by itself;
* `run_exact`: with the lock free, the two systems have the same runs.
-/

namespace Mutex

open Lts Relation

variable {σ ℓ P Λ : Type*}

structure Sections (σ ℓ P Λ : Type*) where
  /-- What the lock protects. -/
  get : σ → P
  set : P → σ → σ
  /-- The local variables at the start of the section, if the step takes the lock. -/
  enter : σ → ℓ → Option Λ
  /-- A small step in front of the commit; `none` is where the commit is due. -/
  micro : Λ × P → Option (Λ × P)
  /-- What the commit does to the rest of the state. -/
  commit : Λ → σ → σ
  /-- The small steps behind it. -/
  rest : Λ → List (P → P)
  /-- The second step is not taken while the first is in its section: they are of one thread, or
  their callers see to it. -/
  excludes : ℓ → ℓ → Bool

inductive Phase (P Λ : Type*) where
  | entered (local_ : Λ)
  | committed (rest : List (P → P))

/-- The lock says whose section it is held for. -/
structure Locked (σ ℓ P Λ : Type*) where
  st : σ
  lock : Option (ℓ × Phase P Λ)

inductive Lbl (ℓ : Type*) where
  /-- A step that takes no lock. -/
  | whole (l : ℓ)
  | acquire (l : ℓ)
  /-- What the thread with the lock does next; in the end, it gives the lock back. -/
  | next

/-- Some small steps. -/
abbrev Steps {α : Type*} (micro : α → Option α) : α → α → Prop :=
  ReflTransGen fun a b => micro a = some b

namespace Sections

variable (S : Sections σ ℓ P Λ) (act : σ → ℓ → Option σ)

/-- The next step of the section `l` in this phase. -/
def next (s : σ) (l : ℓ) : Phase P Λ → Locked σ ℓ P Λ
  | .entered v =>
    match S.micro (v, S.get s) with
    | some (v, p) => ⟨S.set p s, some (l, .entered v)⟩
    | none => ⟨S.commit v s, some (l, .committed (S.rest v))⟩
  | .committed [] => ⟨s, none⟩
  | .committed (f :: fs) => ⟨S.set (f (S.get s)) s, some (l, .committed fs)⟩

def step (s : Locked σ ℓ P Λ) : Lbl ℓ → Option (Locked σ ℓ P Λ)
  | .whole m =>
    if (S.enter s.st m).isNone ∧ ∀ l ∈ s.lock, S.excludes l.1 m = false then
      (act s.st m).map fun st => { s with st := st }
    else none
  | .acquire l =>
    match s.lock, S.enter s.st l with
    | none, some v => some { s with lock := some (l, .entered v) }
    | _, _ => none
  | .next => s.lock.map fun l => S.next s.st l.1 l.2

/-- The step of the atomic system that this one carries out. -/
def commits (s : Locked σ ℓ P Λ) : Lbl ℓ → Option ℓ
  | .whole m => some m
  | .acquire _ => none
  | .next =>
    match s.lock with
    | some (l, .entered v) => if (S.micro (v, S.get s.st)).isNone then some l else none
    | _ => none

/-- What the section comes to: its small steps to the end, and its commit. -/
def outcome (v : Λ) (p : P) (s : σ) : σ :=
  S.set ((S.rest v).foldl (fun p f => f p) p) (S.commit v s)

end Sections

/-- The sections are the steps they stand for, in the states that have the invariant `I`. -/
structure Atomic (S : Sections σ ℓ P Λ) (act : σ → ℓ → Option σ) (I : σ → Prop) : Prop where
  get_set : ∀ p s, S.get (S.set p s) = p
  set_get : ∀ s, S.set (S.get s) s = s
  set_set : ∀ p q s, S.set p (S.set q s) = S.set p s
  /-- The lock is taken before anything protected is looked at. -/
  enter_set : ∀ p s l, S.enter (S.set p s) l = S.enter s l
  whole : ∀ p s l, S.enter s l = none → act (S.set p s) l = (act s l).map (S.set p)
  commit_set : ∀ v p s, S.commit v (S.set p s) = S.set p (S.commit v s)
  /-- What a section knows when it enters stays true. -/
  stable : ∀ {s s' l m v}, I s → S.enter s l = some v → S.enter s m = none →
    S.excludes l m = false → act s m = some s' → S.enter s' l = some v
  runs : ∀ {s l v}, I s → S.enter s l = some v → ∃ v' p, Steps S.micro (v, S.get s) (v', p) ∧
    S.micro (v', p) = none ∧ act s l = some (S.outcome v' p s)
  keeps : ∀ {s s' l}, I s → act s l = some s' → I s'

/-! ## Small steps -/

section Steps

variable {α : Type*} {micro : α → Option α} {a b c : α}

/-- A small step has one outcome. -/
theorem rightUnique : Relator.RightUnique fun a b : α => micro a = some b := by
  intro a b c hb hc
  exact Option.some.inj (hb.symm.trans hc)

/-- Where no small step is left is where all of them lead. -/
theorem Steps.to_end (hc : Steps micro a c) (hend : micro c = none) (hb : Steps micro a b) :
    Steps micro b c := by
  rcases ReflTransGen.total_of_right_unique rightUnique hb hc with h | h
  · exact h
  · rcases ReflTransGen.cases_head h with rfl | ⟨d, hd, -⟩
    · exact .refl
    · rw [hend] at hd
      cases hd

/-- All small steps to an end come to the same end. -/
theorem Steps.eq_end (hc : Steps micro a c) (hend : micro c = none) (hb : Steps micro a b)
    (hend' : micro b = none) : b = c := by
  rcases ReflTransGen.cases_head (Steps.to_end hc hend hb) with rfl | ⟨d, hd, -⟩
  · rfl
  · rw [hend'] at hd
    cases hd

end Steps

/-! ## The simulation -/

variable {S : Sections σ ℓ P Λ} {act : σ → ℓ → Option σ} {I : σ → Prop}

/-- The atomic system stands at the last commit: a section that has not committed has not begun, and
one that has is over. -/
def Simulates (S : Sections σ ℓ P Λ) (f : Locked σ ℓ P Λ) (s : σ) : Prop :=
  match f.lock with
  | none => f.st = s
  | some (l, .entered v) => ∃ v₀, S.enter s l = some v₀ ∧
      Steps S.micro (v₀, S.get s) (v, S.get f.st) ∧ f.st = S.set (S.get f.st) s
  | some (_, .committed fs) => s = S.set (fs.foldl (fun p f => f p) (S.get f.st)) f.st

/-- The steps that the run has carried out, in the order of their commits. -/
def committed (S : Sections σ ℓ P Λ) (tr : List (Locked σ ℓ P Λ × Lbl ℓ)) : List ℓ :=
  tr.filterMap fun p => S.commits p.1 p.2

theorem committed_append (tr tr' : List (Locked σ ℓ P Λ × Lbl ℓ)) :
    committed S (tr ++ tr') = committed S tr ++ committed S tr' :=
  List.filterMap_append

/-- The last step of a run commits last. -/
theorem committed_snoc {tr : List (Locked σ ℓ P Λ × Lbl ℓ)} {f : Locked σ ℓ P Λ} {l : Lbl ℓ} :
    committed S (tr ++ [(f, l)]) = committed S tr ++ (S.commits f l).toList := by
  rw [committed_append]
  cases h : S.commits f l <;> simp [committed, h]

/-- The invariant holds in every state of the atomic system. -/
theorem Atomic.invariant (hA : Atomic S act I) {s₀ s : σ} {tr : List (σ × ℓ)} (hI : I s₀)
    (hrun : Run act s₀ tr s) : I s :=
  hrun.invariant (C := fun _ _ => True) hI (fun _ _ _ h _ => hA.keeps h) everyStep_true

/-- A step outside the lock leaves what is protected as it is. -/
theorem Atomic.get_whole (h : Atomic S act I) {s s' : σ} {m : ℓ} (hm : S.enter s m = none)
    (hstep : act s m = some s') : S.get s' = S.get s := by
  have hself := h.whole (S.get s) s m hm
  rw [h.set_get, hstep] at hself
  have heq : s' = S.set (S.get s) s' := Option.some.inj hself
  rw [heq, h.get_set]

/-- Step lemma: a step is one of the atomic system at its commit, and nothing elsewhere. -/
theorem Simulates.step {f f' : Locked σ ℓ P Λ} {s : σ} {l : Lbl ℓ} (hA : Atomic S act I)
    (hI : I s) (h : Simulates S f s) (hstep : S.step act f l = some f') :
    ∃ s', Simulates S f' s' ∧
      match S.commits f l with
      | none => s' = s
      | some l' => act s l' = some s' := by
  rcases f with ⟨st, lock⟩
  cases l with
  | whole m =>
    simp only [Sections.step, Option.ite_none_right_eq_some] at hstep
    rcases hstep with ⟨⟨henter, hfree⟩, hstep⟩
    rcases Option.map_eq_some_iff.mp hstep with ⟨st', hst', rfl⟩
    have hnone : S.enter st m = none := Option.isNone_iff_eq_none.mp henter
    have hget := hA.get_whole hnone hst'
    simp only [Sections.commits]
    match lock, h with
    | none, h =>
      obtain rfl : st = s := h
      exact ⟨st', rfl, hst'⟩
    | some (l, .entered v), h =>
      -- the section goes on from where it was
      rcases h with ⟨v₀, hv₀, hsteps, hst⟩
      simp only at hsteps hst
      have hnone' : S.enter s m = none := by rw [hst, hA.enter_set] at hnone; exact hnone
      rw [hst, hA.whole _ _ _ hnone'] at hst'
      rcases Option.map_eq_some_iff.mp hst' with ⟨s', hs', hset⟩
      have hget' : S.get s' = S.get s := hA.get_whole hnone' hs'
      refine ⟨s', ⟨v₀, hA.stable hI hv₀ hnone' (hfree _ rfl) hs', ?_, ?_⟩, hs'⟩
      · rw [hget', hget]
        exact hsteps
      · rw [hget]
        exact hset.symm
    | some (l, .committed fs), h =>
      have h' : s = S.set (fs.foldl (fun p f => f p) (S.get st)) st := h
      refine ⟨S.set (fs.foldl (fun p f => f p) (S.get st)) st', ?_, ?_⟩
      · show _ = S.set (fs.foldl (fun p f => f p) (S.get st')) st'
        rw [hget]
      · rw [h', hA.whole _ _ _ hnone, hst']
        rfl
  | acquire l =>
    simp only [Sections.commits]
    cases lock with
    | some holder => simp [Sections.step] at hstep
    | none =>
      obtain rfl : st = s := h
      cases hv : S.enter st l with
      | none => simp [Sections.step, hv] at hstep
      | some v =>
        obtain rfl : ⟨st, some (l, .entered v)⟩ = f' := by simpa [Sections.step, hv] using hstep
        exact ⟨st, ⟨v, hv, .refl, (hA.set_get st).symm⟩, rfl⟩
  | next =>
    match lock, h with
    | none, h => simp [Sections.step] at hstep
    | some (l, .entered v), h =>
      obtain rfl : S.next st l (.entered v) = f' := by simpa [Sections.step] using hstep
      rcases h with ⟨v₀, hv₀, hsteps, hst⟩
      simp only at hsteps hst
      cases hmicro : S.micro (v, S.get st) with
      | some q =>
        rcases q with ⟨v', p⟩
        refine ⟨s, ?_, by simp [Sections.commits, hmicro]⟩
        simp only [Sections.next, hmicro]
        refine ⟨v₀, hv₀, ?_, ?_⟩
        · simp only [hA.get_set]
          exact hsteps.tail hmicro
        · simp only [hA.get_set]
          rw [hst, hA.set_set]
      | none =>
        -- the commit: the small steps have led to where they all lead
        rcases hA.runs hI hv₀ with ⟨v', p, hend, hlast, hs'⟩
        have heq := Steps.eq_end hend hlast hsteps hmicro
        injection heq with hv hp
        subst hv
        refine ⟨S.outcome v p s, ?_, by simp [Sections.commits, hmicro, hs']⟩
        have hcommit : S.commit v st = S.set p (S.commit v s) := by
          rw [hst, hp, hA.commit_set]
        simp only [Sections.next, hmicro, Simulates]
        rw [hcommit, hA.get_set, hA.set_set]
        rfl
    | some (l, .committed []), h =>
      obtain rfl : S.next st l (.committed []) = f' := by simpa [Sections.step] using hstep
      have h' : s = S.set (S.get st) st := h
      exact ⟨s, by rw [h', hA.set_get]; rfl, rfl⟩
    | some (l, .committed (f :: fs)), h =>
      obtain rfl : S.next st l (.committed (f :: fs)) = f' := by simpa [Sections.step] using hstep
      have h' : s = S.set (fs.foldl (fun p f => f p) (f (S.get st))) st := h
      refine ⟨s, ?_, rfl⟩
      show s = S.set (fs.foldl _ (S.get (S.set (f (S.get st)) st))) (S.set (f (S.get st)) st)
      rw [hA.get_set, hA.set_set]
      exact h'

/-- Run lemma: every run is a run of the atomic system, each section a step at its commit. -/
theorem run_atomic {s₀ : σ} {tr : List (Locked σ ℓ P Λ × Lbl ℓ)} {f : Locked σ ℓ P Λ}
    (hA : Atomic S act I) (hI : I s₀) (hrun : Run (S.step act) ⟨s₀, none⟩ tr f) :
    ∃ tr' s, Run act s₀ tr' s ∧ tr'.map Prod.snd = committed S tr ∧ Simulates S f s := by
  induction hrun with
  | nil => exact ⟨[], s₀, .nil, rfl, rfl⟩
  | snoc _ hs ih =>
    rcases ih with ⟨tr', s, hrun', hlabels, hsim⟩
    rcases hsim.step hA (hA.invariant hI hrun') hs with ⟨s', hsim', hstep⟩
    rw [committed_snoc]
    split at hstep
    · next hnone =>
      rw [hstep] at hsim'
      exact ⟨tr', s, hrun', by simp [hlabels, hnone], hsim'⟩
    · next l' hl' =>
      refine ⟨tr' ++ [(s, l')], s', hrun'.snoc hstep, ?_, hsim'⟩
      simp [hlabels, hl']

/-! ## The lock comes free -/

/-- The thread with the lock goes on alone. -/
def Alone (tr : List (Locked σ ℓ P Λ × Lbl ℓ)) : Prop := ∀ p ∈ tr, p.2 = .next

/-- By the steps of the thread with the lock, which carry out these steps, it comes free. -/
def Finishes (S : Sections σ ℓ P Λ) (act : σ → ℓ → Option σ) (f : Locked σ ℓ P Λ) (s : σ)
    (ls : List ℓ) : Prop :=
  ∃ tr, Run (S.step act) f tr ⟨s, none⟩ ∧ Alone tr ∧ committed S tr = ls

/-- The lock comes free by the steps of the thread that has it. -/
def ComesFree (S : Sections σ ℓ P Λ) (act : σ → ℓ → Option σ) (f : Locked σ ℓ P Λ) : Prop :=
  ∃ s ls, Finishes S act f s ls

theorem Finishes.refl {s : σ} : Finishes S act ⟨s, none⟩ s [] :=
  ⟨[], .nil, nofun, rfl⟩

/-- A section that finishes from its next step on finishes. -/
theorem Finishes.of_next {st s : σ} {l : ℓ} {phase : Phase P Λ} {ls : List ℓ}
    (h : Finishes S act (S.next st l phase) s ls) :
    Finishes S act ⟨st, some (l, phase)⟩ s
      ((S.commits ⟨st, some (l, phase)⟩ .next).toList ++ ls) := by
  rcases h with ⟨tr, hrun, halone, rfl⟩
  have hnext : S.step act ⟨st, some (l, phase)⟩ .next = some (S.next st l phase) := rfl
  refine ⟨[(_, .next)] ++ tr, (Run.nil.snoc hnext).append hrun, ?_, ?_⟩
  · intro p hp
    rcases List.mem_append.mp hp with hp | hp
    · rw [List.mem_singleton.mp hp]
    · exact halone p hp
  · rw [committed_append]
    rfl

/-- A section that has committed finishes without another commit. -/
theorem finishes_committed (hA : Atomic S act I) (st : σ) (l : ℓ) (fs : List (P → P)) :
    Finishes S act ⟨st, some (l, .committed fs)⟩
      (S.set (fs.foldl (fun p f => f p) (S.get st)) st) [] := by
  induction fs generalizing st with
  | nil =>
    apply Finishes.of_next
    simp only [List.foldl_nil, hA.set_get]
    exact .refl
  | cons f fs ih =>
    have hon := ih (S.set (f (S.get st)) st)
    rw [hA.get_set, hA.set_set] at hon
    exact Finishes.of_next hon

/-- Every section comes to its commit, and ends. -/
theorem finishes_entered (hA : Atomic S act I) {l : ℓ} {a b : Λ × P} (h : Steps S.micro a b)
    (hend : S.micro b = none) (s : σ) :
    Finishes S act ⟨S.set a.2 s, some (l, .entered a.1)⟩ (S.outcome b.1 b.2 s) [l] := by
  induction h using ReflTransGen.head_induction_on with
  | refl =>
    have hcommits : S.commits ⟨S.set b.2 s, some (l, .entered b.1)⟩ .next = some l := by
      simp [Sections.commits, hA.get_set, hend]
    have hlast := finishes_committed hA (S.commit b.1 (S.set b.2 s)) l (S.rest b.1)
    rw [hA.commit_set, hA.get_set, hA.set_set, ← hA.commit_set] at hlast
    have hnext : S.next (S.set b.2 s) l (.entered b.1) =
        ⟨S.commit b.1 (S.set b.2 s), some (l, .committed (S.rest b.1))⟩ := by
      simp only [Sections.next, hA.get_set, hend]
    rw [← hnext] at hlast
    have hfinishes := hlast.of_next
    rw [hcommits] at hfinishes
    exact hfinishes
  | @head a c hac _ ih =>
    have hcommits : S.commits ⟨S.set a.2 s, some (l, .entered a.1)⟩ .next = none := by
      simp [Sections.commits, hA.get_set, hac]
    have hnext : S.next (S.set a.2 s) l (.entered a.1) =
        ⟨S.set c.2 s, some (l, .entered c.1)⟩ := by
      simp only [Sections.next, hA.get_set, hac, hA.set_set]
    rw [← hnext] at ih
    have hfinishes := ih.of_next
    rw [hcommits] at hfinishes
    exact hfinishes

/-- Whatever the threads do, the one that has the lock can finish its section alone. -/
theorem run_comesFree {s₀ : σ} {tr : List (Locked σ ℓ P Λ × Lbl ℓ)} {f : Locked σ ℓ P Λ}
    (hA : Atomic S act I) (hI : I s₀) (hrun : Run (S.step act) ⟨s₀, none⟩ tr f) :
    ComesFree S act f := by
  rcases run_atomic hA hI hrun with ⟨tr', s, hrun', -, hsim⟩
  have hIs : I s := hA.invariant hI hrun'
  rcases f with ⟨st, lock⟩
  match lock, hsim with
  | none, _ => exact ⟨st, [], .refl⟩
  | some (l, .committed fs), _ => exact ⟨_, _, finishes_committed hA st l fs⟩
  | some (l, .entered v), hsim =>
    rcases hsim with ⟨v₀, hv₀, hsteps, hst⟩
    simp only at hsteps hst
    rcases hA.runs hIs hv₀ with ⟨v', p, hend, hlast, -⟩
    rw [hst]
    exact ⟨_, _, finishes_entered hA (Steps.to_end hend hlast hsteps) hlast s⟩

/-! ## Nothing is lost -/

/-- A step of the atomic system is carried out by a thread that finds the lock free. -/
theorem Atomic.carriesOut (hA : Atomic S act I) {s s' : σ} {l : ℓ} (hI : I s)
    (hstep : act s l = some s') :
    ∃ tr, Run (S.step act) ⟨s, none⟩ tr ⟨s', none⟩ ∧ committed S tr = [l] := by
  cases hv : S.enter s l with
  | none =>
    have hwhole : S.step act ⟨s, none⟩ (.whole l) = some ⟨s', none⟩ := by
      simp [Sections.step, hv, hstep]
    exact ⟨_, Run.nil.snoc hwhole, rfl⟩
  | some v =>
    have hacquire : S.step act ⟨s, none⟩ (.acquire l) = some ⟨s, some (l, .entered v)⟩ := by
      simp [Sections.step, hv]
    rcases hA.runs hI hv with ⟨v', p, hend, hlast, hs'⟩
    have hfinishes := finishes_entered (l := l) hA hend hlast s
    obtain rfl : S.outcome v' p s = s' := Option.some.inj (hs'.symm.trans hstep)
    rw [hA.set_get] at hfinishes
    rcases hfinishes with ⟨tr, hrun, -, hcommitted⟩
    refine ⟨_, (Run.nil.snoc hacquire).append hrun, ?_⟩
    rw [committed_append, hcommitted]
    rfl

/-- With the lock free, the runs are those of the atomic system: to the same states, by the same
steps. -/
theorem run_exact (hA : Atomic S act I) {s₀ : σ} (hI : I s₀) (s : σ) (ls : List ℓ) :
    (∃ tr, Run (S.step act) ⟨s₀, none⟩ tr ⟨s, none⟩ ∧ committed S tr = ls) ↔
      ∃ tr, Run act s₀ tr s ∧ tr.map Prod.snd = ls := by
  constructor
  · rintro ⟨tr, hrun, rfl⟩
    rcases run_atomic hA hI hrun with ⟨tr', s', hrun', hlabels, hsim⟩
    obtain rfl : s = s' := hsim
    exact ⟨tr', hrun', hlabels⟩
  · rintro ⟨tr, hrun, rfl⟩
    induction hrun with
    | nil => exact ⟨[], .nil, rfl⟩
    | snoc hrun hstep ih =>
      rcases ih with ⟨tr₁, hrun₁, hlabels⟩
      rcases hA.carriesOut (hA.invariant hI hrun) hstep with ⟨tr₂, hrun₂, hlabel⟩
      refine ⟨tr₁ ++ tr₂, hrun₁.append hrun₂, ?_⟩
      rw [committed_append, hlabels, hlabel, List.map_append]
      rfl

end Mutex
