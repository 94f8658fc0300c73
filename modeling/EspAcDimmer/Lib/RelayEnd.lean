import Mathlib.Algebra.GroupWithZero.Nat
import Mathlib.Algebra.Order.BigOperators.Group.Finset
import EspAcDimmer.Lib.Relay

/-! # Relays: every journey ends

To put a parcel with `k` stops down at each of them, take it up again and destroy it at the end
takes `2 * k + 1` moves. All moves of a relay together are never more than these numbers of all its
parcels together, so a relay that is sent nothing more comes to rest, in any order of its steps. It
does not matter here whether an inbox loses parcels.

* `moves`, `allowance`: the moves in a log, and those that what was sent allows;
* `Bounded`, `Bounded.step`: the moves made and those still to be made are within the allowance.
-/

namespace Relay

variable {ι Q H ρ : Type*}

namespace Event

/-- A parcel is put down, taken up or destroyed. -/
def isMove : Event ι Q ρ → Bool
  | put _ _ _ | got _ _ _ | missed _ .withdrawn _ | retired _ _ => true
  | sent _ _ | missed _ .unreachable _ | missed _ .full _ => false

def allows : Event ι Q ρ → Nat
  | sent _ stops => 2 * stops.length + 1
  | _ => 0

end Event

def moves (log : List (Event ι Q ρ)) : Nat := log.countP Event.isMove

def allowance (log : List (Event ι Q ρ)) : Nat := (log.map Event.allows).sum

@[simp] theorem moves_append (l₁ l₂ : List (Event ι Q ρ)) :
    moves (l₁ ++ l₂) = moves l₁ + moves l₂ :=
  List.countP_append

@[simp] theorem allowance_append (l₁ l₂ : List (Event ι Q ρ)) :
    allowance (l₁ ++ l₂) = allowance l₁ + allowance l₂ := by
  simp [allowance]

@[simp] theorem moves_unreachable (skipped : List ι) (n : Nat) :
    moves (skipped.map fun x => (.missed x .unreachable n : Event ι Q ρ)) = 0 := by
  simp [moves, Event.isMove]

@[simp] theorem allowance_missed {α : Type*} (ms : List α) (stop : α → ι) (why : α → Miss)
    (n : Nat) : allowance (ms.map fun x => (.missed (stop x) (why x) n : Event ι Q ρ)) = 0 := by
  simp [allowance, Event.allows, Function.comp_def]

/-- The moves that a parcel in this place may still make. -/
def cost : Place Q H → Parcel ι → Nat
  | .inbox _, p => 2 * p.route.length + 2
  | .hand _, p => 2 * p.route.length + 1

/-- The moves that the parcels in this place may still make. -/
def St.burden (s : St ι Q H ρ) (pl : Place Q H) : Nat := ((s.held pl).map (cost pl)).sum

/-- Some parcels are lost where they lie. -/
structure Loses (s s' : St ι Q H ρ) : Prop where
  held : ∀ pl, (s'.held pl).Sublist (s.held pl)
  log : s'.log = s.log

/-- Wherever one looks. -/
def Bounded (s : St ι Q H ρ) : Prop :=
  ∀ F : Finset (Place Q H), moves s.log + ∑ pl ∈ F, s.burden pl ≤ allowance s.log

variable {s s' : St ι Q H ρ}

/-- A relay without a history owes nothing. -/
theorem Bounded.init (hheld : ∀ pl, s.held pl = []) (hlog : s.log = []) : Bounded s := by
  intro F
  simp [hlog, moves, St.burden, hheld]

/-- The moves made are within the allowance. -/
theorem Bounded.moves_le (h : Bounded s) : moves s.log ≤ allowance s.log := by
  simpa using h ∅

/-- The places `D` pay for what the log says of the step, and no other place owes more than
before. -/
theorem Bounded.of_places (h : Bounded s) (D : Finset (Place Q H))
    (hframe : ∀ pl, pl ∉ D → s'.burden pl ≤ s.burden pl)
    (hpay : moves s'.log + ∑ pl ∈ D, s'.burden pl + allowance s.log ≤
      moves s.log + ∑ pl ∈ D, s.burden pl + allowance s'.log) : Bounded s' := by
  classical
  intro F
  have hall := h (F ∪ D)
  have hsplit : ∀ f : Place Q H → Nat,
      ∑ pl ∈ F ∪ D, f pl = ∑ pl ∈ (F ∪ D) \ D, f pl + ∑ pl ∈ D, f pl :=
    fun f => (Finset.sum_sdiff Finset.subset_union_right).symm
  have hrest : ∑ pl ∈ (F ∪ D) \ D, s'.burden pl ≤ ∑ pl ∈ (F ∪ D) \ D, s.burden pl :=
    Finset.sum_le_sum fun pl hpl => hframe pl (Finset.mem_sdiff.mp hpl).2
  have hmore : ∑ pl ∈ F, s'.burden pl ≤ ∑ pl ∈ F ∪ D, s'.burden pl :=
    Finset.sum_le_sum_of_subset Finset.subset_union_left
  rw [hsplit] at hall hmore
  omega

/-- The rule for steps at one place. -/
theorem Bounded.of_place (h : Bounded s) (pl : Place Q H)
    (hframe : ∀ pl', pl' ≠ pl → s'.held pl' = s.held pl')
    (hpay : moves s'.log + s'.burden pl + allowance s.log ≤
      moves s.log + s.burden pl + allowance s'.log) : Bounded s' := by
  refine h.of_places {pl} ?_ (by simpa using hpay)
  intro pl' hpl'
  have hne : pl' ≠ pl := fun he => hpl' (by simp [he])
  rw [St.burden, St.burden, hframe pl' hne]

/-- The rule for steps from one place to another. -/
theorem Bounded.of_two_places (h : Bounded s) {pl pl' : Place Q H} (hne : pl ≠ pl')
    (hframe : ∀ x, x ≠ pl → x ≠ pl' → s'.held x = s.held x)
    (hpay : moves s'.log + (s'.burden pl + s'.burden pl') + allowance s.log ≤
      moves s.log + (s.burden pl + s.burden pl') + allowance s'.log) : Bounded s' := by
  classical
  refine h.of_places {pl, pl'} ?_ ?_
  · intro x hx
    have hx' : x ≠ pl ∧ x ≠ pl' := by simpa using hx
    rw [St.burden, St.burden, hframe x hx'.1 hx'.2]
  · rw [Finset.sum_pair hne, Finset.sum_pair hne]
    exact hpay

/-- To lose parcels costs no move. -/
theorem Bounded.loses (h : Bounded s) (hloses : Loses s s') : Bounded s' := by
  refine h.of_places ∅ ?_ (by simp [hloses.log])
  intro pl _
  exact ((hloses.held pl).map _).sum_le_sum fun _ _ => Nat.zero_le _

/-- Step lemma: every move is paid for. -/
theorem Bounded.step (h : Bounded s) (hstep : Step s s') : Bounded s' := by
  cases hstep with
  | send hand stops hsrc hdst hframe _ hlog =>
    refine h.of_place (.hand hand) hframe ?_
    simp [hlog, St.burden, hsrc, hdst, cost, moves, allowance, Event.isMove, Event.allows]
    omega
  | forward hand p skipped a q rest hsrc hroute hempty hdst hframe _ hlog =>
    have hne : (Place.hand hand : Place Q H) ≠ .inbox q := by simp
    refine h.of_two_places hne hframe ?_
    have hlength : p.route.length = skipped.length + (rest.length + 1) := by
      have := congrArg List.length hroute
      simpa using this
    simp only [hlog, St.burden, hsrc, hempty, hdst, moves_append, allowance_append,
      moves_unreachable, allowance_missed]
    simp [cost, moves, allowance, Event.isMove, Event.allows, hlength]
    omega
  | retire hand p ms rest hsrc hroute hempty hframe _ hlog =>
    refine h.of_place (.hand hand) hframe ?_
    have hlength : p.route.length = ms.length + rest.length := by
      have := congrArg List.length hroute
      simpa using this
    have hmissed : moves (ms.map fun x => (.missed x.1 x.2 p.serial : Event ι Q ρ)) ≤ ms.length :=
      Nat.le_trans List.countP_le_length (by simp)
    have hretired : moves [(.retired rest p.serial : Event ι Q ρ)] = 1 := rfl
    simp only [hlog, moves_append, allowance_append, allowance_missed, hretired]
    simp [St.burden, hsrc, hempty, cost, allowance, Event.allows, hlength]
    omega
  | take q hand p ps a r hsrc _ hfree hrest hdst hframe _ hlog =>
    have hne : (Place.hand hand : Place Q H) ≠ .inbox q := by simp
    refine h.of_two_places hne hframe ?_
    simp [hlog, St.burden, hsrc, hfree, hrest, hdst, cost, moves, allowance, Event.isMove,
      Event.allows]
    omega
  | withdraw q hand p ps a hsrc _ hfree hrest hdst hframe _ hlog =>
    have hne : (Place.hand hand : Place Q H) ≠ .inbox q := by simp
    refine h.of_two_places hne hframe ?_
    simp [hlog, St.burden, hsrc, hfree, hrest, hdst, cost, moves, allowance, Event.isMove,
      Event.allows]
    omega
  | stutter hheld _ hlog =>
    exact h.loses ⟨fun pl => by rw [hheld], hlog⟩

end Relay
