import Mathlib.Data.Finset.Sort
import Mathlib.Order.PiLex

/-! # Walking a binary trie in order

Keys are told apart by their first `w` bits. A walk goes down the trie of a finite set of keys and
may ask at each level which bits the keys below it have. With no more memory than the key it found
last and one level, it finds the next key: it repeats the last key above that level, goes the other
way there, and keeps to the left below.

* `BitsLt`: the lexicographic order, first bit first;
* `lastBranch`: the level to remember, the last one where the key went left and another went right;
* `Leads`: what the walk relies on at the levels where keys go both ways;
* `Target`: what provides it between the keys in order, by `target_first` and `target_next`.
-/

namespace BitTrie

variable {κ : Type*} (bit : κ → Nat → Bool)

/-- The keys have the same first `k` bits. -/
def Agree (k : Nat) (a b : κ) : Prop :=
  ∀ j < k, bit a j = bit b j

instance (k : Nat) (a b : κ) : Decidable (Agree bit k a b) :=
  inferInstanceAs (Decidable (∀ j < k, bit a j = bit b j))

/-- At the first of `w` bits in which the keys differ, `a` has 0. -/
def BitsLt (w : Nat) (a b : κ) : Prop :=
  ∃ k < w, Agree bit k a b ∧ bit a k = false ∧ bit b k = true

/-- `t` goes left at level `k`, where another key of the same beginning goes right. -/
def Branches (S : Finset κ) (t : κ) (k : Nat) : Prop :=
  bit t k = false ∧ ∃ x ∈ S, Agree bit k x t ∧ bit x k = true

instance (S : Finset κ) (t : κ) (k : Nat) : Decidable (Branches bit S t k) :=
  inferInstanceAs (Decidable (_ ∧ _))

/-- One more than the last level below `n` where `t` branches; 0 if there is none. -/
def lastBranch (S : Finset κ) (t : κ) : Nat → Nat
  | 0 => 0
  | k + 1 => if Branches bit S t k then k + 1 else lastBranch S t k

variable {bit} {w d n : Nat} {S : Finset κ} {a b c r t x : κ}

/-! ## The order -/

theorem Agree.symm {k : Nat} (h : Agree bit k a b) : Agree bit k b a :=
  fun j hj => (h j hj).symm

theorem Agree.trans {k : Nat} (h : Agree bit k a b) (h' : Agree bit k b c) : Agree bit k a c :=
  fun j hj => (h j hj).trans (h' j hj)

theorem Agree.mono {k k' : Nat} (h : Agree bit k a b) (hle : k' ≤ k) : Agree bit k' a b :=
  fun j hj => h j (Nat.lt_of_lt_of_le hj hle)

/-- A common beginning is one bit longer if the next bits are the same. -/
theorem Agree.succ {k : Nat} (h : Agree bit k a b) (hk : bit a k = bit b k) :
    Agree bit (k + 1) a b := by
  intro j hj
  rcases Nat.lt_succ_iff_lt_or_eq.mp hj with hj | rfl
  · exact h j hj
  · exact hk

/-- The order is Mathlib's lexicographic order of the bits. -/
theorem bitsLt_iff :
    BitsLt bit w a b ↔ (toLex fun i : Fin w => bit a i) < toLex fun i : Fin w => bit b i := by
  constructor
  · rintro ⟨k, hk, hagree, ha, hb⟩
    refine ⟨⟨k, hk⟩, fun j hj => hagree j hj, ?_⟩
    simp [ha, hb]
  · rintro ⟨k, hagree, hlt⟩
    rcases Bool.lt_iff.mp hlt with ⟨ha, hb⟩
    exact ⟨k, k.isLt, fun j hj => hagree ⟨j, by omega⟩ hj, ha, hb⟩

/-- Of two keys at most one is the less. -/
theorem BitsLt.asymm (h : BitsLt bit w a b) : ¬ BitsLt bit w b a := by
  rw [bitsLt_iff] at h ⊢
  exact h.asymm

/-- What lies between two keys begins as they do. -/
theorem BitsLt.agree_between {k : Nat} (hab : BitsLt bit w a b) (hbc : BitsLt bit w b c)
    (hac : Agree bit k a c) : Agree bit k a b := by
  rcases hab with ⟨i, -, hagree, hai, hbi⟩
  rcases hbc with ⟨j, -, hagree', hbj, hcj⟩
  apply hagree.mono
  by_contra hlt
  have hci : bit c i = false := by rw [← hac i (by omega), hai]
  rcases Nat.lt_trichotomy i j with h | rfl | h
  · rw [← hagree' i h, hbi] at hci
    exact Bool.noConfusion hci
  · rw [hbi] at hbj
    exact Bool.noConfusion hbj
  · have haj : bit a j = true := by rw [hac j (by omega), hcj]
    rw [hagree j h, hbj] at haj
    exact Bool.noConfusion haj

/-- Keys that their bits tell apart can be listed in increasing order. -/
theorem exists_sorted [DecidableEq κ] (hext : ∀ a b, Agree bit w a b → a = b) (S : Finset κ) :
    ∃ L : List κ, L.toFinset = S ∧ L.Pairwise (BitsLt bit w) := by
  have hinj : Function.Injective fun a : κ => toLex fun i : Fin w => bit a i := by
    intro a b h
    exact hext a b fun j hj => congrFun (toLex.injective h) ⟨j, hj⟩
  let _ : LinearOrder κ := LinearOrder.lift' _ hinj
  refine ⟨S.sort (· ≤ ·), S.sort_toFinset _, ?_⟩
  exact (Finset.sortedLT_sort S).pairwise.imp fun h => bitsLt_iff.mpr h

/-! ## The last branch -/

/-- If there is a last branch, the key branches there. -/
theorem branches_of_lastBranch (h : lastBranch bit S t n = d + 1) :
    d < n ∧ Branches bit S t d := by
  induction n with
  | zero => simp [lastBranch] at h
  | succ k ih =>
    rw [lastBranch] at h
    split at h
    · next hk =>
      obtain rfl : k = d := by omega
      exact ⟨Nat.lt_succ_self k, hk⟩
    · exact ⟨Nat.lt_succ_of_lt (ih h).1, (ih h).2⟩

/-- Where a key branches, its last branch is there or further down. -/
theorem le_lastBranch {k : Nat} (hk : k < n) (h : Branches bit S t k) :
    k + 1 ≤ lastBranch bit S t n := by
  induction n with
  | zero => omega
  | succ m ih =>
    rw [lastBranch]
    split
    · omega
    · next hm =>
      have hne : k ≠ m := fun he => hm (he ▸ h)
      exact ih (by omega)

/-- A key that is not the greatest branches. -/
theorem BitsLt.branches (h : BitsLt bit w r t) (ht : t ∈ S) :
    ∃ k < w, Agree bit k r t ∧ bit r k = false ∧ bit t k = true ∧ Branches bit S r k := by
  rcases h with ⟨k, hk, hagree, hr, ht'⟩
  exact ⟨k, hk, hagree, hr, ht', hr, t, ht, hagree.symm, ht'⟩

/-- The greatest key branches nowhere. -/
theorem lastBranch_eq_zero_iff : lastBranch bit S r w = 0 ↔ ∀ x ∈ S, ¬ BitsLt bit w r x := by
  constructor
  · intro h x hx hlt
    rcases hlt.branches hx with ⟨k, hk, -, -, -, hbranch⟩
    have := le_lastBranch hk hbranch
    omega
  · intro h
    by_contra hne
    rcases Nat.exists_eq_succ_of_ne_zero hne with ⟨d, hd⟩
    rcases branches_of_lastBranch hd with ⟨hdw, hr, x, hx, hagree, hxd⟩
    exact h x hx ⟨d, hdw, hagree.symm, hr, hxd⟩

/-! ## The walk -/

/-- The walk with remembered key `r` and level `d` takes the way of `t` where keys of its beginning
go both ways. -/
structure Leads (bit : κ → Nat → Bool) (w : Nat) (S : Finset κ) (d : Nat) (r t : κ) : Prop where
  mem : t ∈ S
  direction : ∀ k < w, (∃ x ∈ S, Agree bit k x t ∧ bit x k = false) →
    (∃ x ∈ S, Agree bit k x t ∧ bit x k = true) →
      (if k + 1 < d then bit r k else decide (k + 1 = d)) = bit t k

/-- The walk with remembered key `r` and level `d` is to find `t`: above the level `t` goes as `r`
did, there it goes right, and below it goes right only where no key of its beginning goes left. -/
structure Target (bit : κ → Nat → Bool) (w : Nat) (S : Finset κ) (d : Nat) (r t : κ) : Prop where
  mem : t ∈ S
  same : ∀ k, k + 1 < d → bit t k = bit r k
  turn : ∀ k, k + 1 = d → bit t k = true
  least : ∀ k < w, d ≤ k → bit t k = true → ∀ x ∈ S, Agree bit k x t → bit x k = true

/-- The walk to a target takes the way of the target. -/
theorem Target.leads (h : Target bit w S d r t) : Leads bit w S d r t := by
  refine ⟨h.mem, ?_⟩
  intro k hk hleft _
  rcases hleft with ⟨x, hx, hagree, hxk⟩
  split
  · next hlt => exact (h.same k hlt).symm
  · next hge =>
    by_cases heq : k + 1 = d
    · rw [decide_eq_true heq, h.turn k heq]
    · rw [decide_eq_false heq]
      by_contra hne
      have hright := h.least k hk (by omega) (by simpa using hne) x hx hagree
      simp [hxk] at hright

/-- Whatever key and level are remembered, the walk leads to some key. -/
theorem exists_leads (hS : S.Nonempty) (d : Nat) (r : κ) : ∃ t, Leads bit w S d r t := by
  -- level by level: where the keys of a beginning go both ways, one of those that go the way picked
  have hlevels : ∀ n, ∃ t ∈ S, ∀ k < n, (∃ x ∈ S, Agree bit k x t ∧ bit x k = false) →
      (∃ x ∈ S, Agree bit k x t ∧ bit x k = true) →
        (if k + 1 < d then bit r k else decide (k + 1 = d)) = bit t k := by
    intro n
    induction n with
    | zero => exact hS.imp fun t ht => ⟨ht, fun k hk => absurd hk (Nat.not_lt_zero k)⟩
    | succ n ih =>
      rcases ih with ⟨t, ht, hpicked⟩
      by_cases hboth : (∃ x ∈ S, Agree bit n x t ∧ bit x n = false) ∧
          ∃ x ∈ S, Agree bit n x t ∧ bit x n = true
      · obtain ⟨x, hx, hxt, hway⟩ : ∃ x ∈ S, Agree bit n x t ∧
            (if n + 1 < d then bit r n else decide (n + 1 = d)) = bit x n := by
          rcases hboth with ⟨⟨x, hx, hxt, hxn⟩, y, hy, hyt, hyn⟩
          cases hpick : (if n + 1 < d then bit r n else decide (n + 1 = d)) with
          | false => exact ⟨x, hx, hxt, hxn.symm⟩
          | true => exact ⟨y, hy, hyt, hyn.symm⟩
        refine ⟨x, hx, ?_⟩
        intro k hk hleft hright
        rcases Nat.lt_succ_iff_lt_or_eq.mp hk with hlt | rfl
        · -- so far it goes as `t` does
          have hbegin : ∀ y, Agree bit k y x ↔ Agree bit k y t := fun y =>
            ⟨fun h => h.trans (hxt.mono hlt.le), fun h => h.trans (hxt.mono hlt.le).symm⟩
          simp only [hbegin] at hleft hright
          rw [hpicked k hlt hleft hright, hxt k hlt]
        · exact hway
      · refine ⟨t, ht, ?_⟩
        intro k hk hleft hright
        rcases Nat.lt_succ_iff_lt_or_eq.mp hk with hlt | rfl
        · exact hpicked k hlt hleft hright
        · exact absurd ⟨hleft, hright⟩ hboth
  rcases hlevels w with ⟨t, ht, hpicked⟩
  exact ⟨t, ht, hpicked⟩

/-- The first key is found with nothing to remember. -/
theorem target_first (ht : t ∈ S) (hmin : ∀ x ∈ S, x = t ∨ BitsLt bit w t x) :
    Target bit w S 0 r t := by
  refine ⟨ht, by omega, by omega, ?_⟩
  intro k hk _ hright x hx hagree
  -- a key that went left here would come before the first one
  by_contra hleft
  have hlt : BitsLt bit w x t := ⟨k, hk, hagree, by simpa using hleft, hright⟩
  rcases hmin x hx with rfl | h
  · exact hlt.asymm hlt
  · exact hlt.asymm h

/-- The key after `r` is found with `r` and its last branch. -/
theorem target_next (ht : t ∈ S) (hlt : BitsLt bit w r t)
    (hnext : ∀ x ∈ S, BitsLt bit w r x → x = t ∨ BitsLt bit w t x) :
    Target bit w S (lastBranch bit S r w) r t := by
  have hnot : ∀ {x}, x ∈ S → BitsLt bit w r x → ¬ BitsLt bit w x t := by
    intro x hx hrx hxt
    rcases hnext x hx hrx with rfl | h
    · exact hxt.asymm hxt
    · exact hxt.asymm h
  rcases hlt.branches ht with ⟨k, hk, hagree, hrk, htk, hbranch⟩
  have hle := le_lastBranch hk hbranch
  obtain ⟨d, hd⟩ : ∃ d, lastBranch bit S r w = d + 1 := ⟨lastBranch bit S r w - 1, by omega⟩
  rcases branches_of_lastBranch hd with ⟨hdw, hrd, y, hy, hyagree, hyd⟩
  -- `t` leaves `r` at its last branch: a later branch would lead to a key before `t`
  obtain rfl : k = d := by
    by_contra hne
    have hkd : k < d := by omega
    refine hnot hy ⟨d, hdw, hyagree.symm, hrd, hyd⟩ ⟨k, hk, ?_, ?_, htk⟩
    · exact (hyagree.mono (Nat.le_of_lt hkd)).trans hagree
    · rw [hyagree k hkd, hrk]
  rw [hd]
  refine ⟨ht, fun j hj => (hagree j (by omega)).symm, fun j hj => ?_,
    fun j hj hdj hright x hx hxt => ?_⟩
  · obtain rfl : j = k := by omega
    exact htk
  · -- a key that went left here would come between `r` and `t`
    by_contra hleft
    have hxk : bit x k = true := by rw [hxt k (by omega), htk]
    have hrx : BitsLt bit w r x := ⟨k, hk, hagree.trans (hxt.mono (by omega)).symm, hrk, hxk⟩
    exact hnot hx hrx ⟨j, hj, hxt, by simpa using hleft, hright⟩

/-! ## Along the sorted list -/

/-- `same` are the elements with the property; one more may be put in front of both lists. -/
theorem mem_cons_iff_of_mem_iff {P : κ → Prop} {L same : List κ} (h : ∀ x ∈ L, x ∈ same ↔ P x)
    (ha : P a) : ∀ x ∈ a :: L, x ∈ a :: same ↔ P x := by
  intro x hx
  rw [List.mem_cons]
  rcases List.mem_cons.mp hx with rfl | hL
  · exact iff_of_true (Or.inl rfl) ha
  · rw [← h x hL, or_iff_right_iff_imp]
    rintro rfl
    exact (h x hL).mpr ha

/-- Behind a key, the keys that begin as it does come first. -/
theorem sorted_split_cons {k : Nat} : ∀ {b : κ} {L : List κ}, (b :: L).Pairwise (BitsLt bit w) →
    Agree bit k b c → ∃ same after, L = same ++ after ∧ ∀ x ∈ L, x ∈ same ↔ Agree bit k x c
  | _, [], _, _ => ⟨[], [], rfl, nofun⟩
  | b, a :: L, hsorted, hb => by
    rcases List.pairwise_cons.mp hsorted with ⟨hbL, haL⟩
    by_cases ha : Agree bit k a c
    · rcases sorted_split_cons haL ha with ⟨same, after, rfl, hsame⟩
      exact ⟨a :: same, after, rfl, mem_cons_iff_of_mem_iff hsame ha⟩
    · refine ⟨[], a :: L, rfl, fun x hx => iff_of_false List.not_mem_nil fun hxc => ?_⟩
      rcases List.mem_cons.mp hx with rfl | hx
      · exact ha hxc
      · -- `a` lies between two keys that begin alike
        have hbx : Agree bit k b x := hb.trans hxc.symm
        have hba := (hbL a List.mem_cons_self).agree_between
          ((List.pairwise_cons.mp haL).1 x hx) hbx
        exact ha (hba.symm.trans hb)

/-- The keys of one beginning stand side by side. -/
theorem sorted_split (k : Nat) (c : κ) : ∀ {L : List κ}, L.Pairwise (BitsLt bit w) →
    ∃ before same after, L = before ++ same ++ after ∧ ∀ x ∈ L, x ∈ same ↔ Agree bit k x c
  | [], _ => ⟨[], [], [], rfl, nofun⟩
  | a :: L, hsorted => by
    by_cases ha : Agree bit k a c
    · rcases sorted_split_cons hsorted ha with ⟨same, after, rfl, hsame⟩
      exact ⟨[], a :: same, after, rfl, mem_cons_iff_of_mem_iff hsame ha⟩
    · obtain ⟨before, same, after, rfl, hsame⟩ :=
        sorted_split k c (List.pairwise_cons.mp hsorted).2
      refine ⟨a :: before, same, after, rfl, ?_⟩
      intro x hx
      rcases List.mem_cons.mp hx with rfl | hx
      · refine iff_of_false (fun hmem => ha ?_) ha
        exact (hsame x (by simp [hmem])).mp hmem
      · exact hsame x hx

section Sorted

variable {L : List κ} (hsorted : L.Pairwise (BitsLt bit w))
include hsorted

/-- No key is less than the first one. -/
theorem sorted_first (hL : 0 < L.length) (hx : x ∈ L) : ¬ BitsLt bit w x L[0] := by
  intro hlt
  rcases List.mem_iff_getElem.mp hx with ⟨j, hj, rfl⟩
  rcases Nat.eq_zero_or_pos j with rfl | hpos
  · exact hlt.asymm hlt
  · exact hlt.asymm (List.pairwise_iff_getElem.mp hsorted 0 j hL hj hpos)

/-- A greater key stands further on. -/
theorem sorted_after {i : Nat} (hi : i < L.length) (hx : x ∈ L) (hlt : BitsLt bit w L[i] x) :
    ∃ j, ∃ hj : j < L.length, i < j ∧ L[j] = x := by
  rcases List.mem_iff_getElem.mp hx with ⟨j, hj, rfl⟩
  refine ⟨j, hj, ?_, rfl⟩
  rcases Nat.lt_trichotomy i j with h | rfl | h
  · exact h
  · exact absurd hlt hlt.asymm
  · exact absurd hlt (List.pairwise_iff_getElem.mp hsorted j i hj hi h).asymm

variable [DecidableEq κ]

/-- With nothing to remember, the walk is to find the first key. -/
theorem sorted_target_first (hL : 0 < L.length) : Target bit w L.toFinset 0 r L[0] := by
  refine target_first (by simp) ?_
  intro x hx
  rcases List.mem_iff_getElem.mp (List.mem_toFinset.mp hx) with ⟨j, hj, rfl⟩
  rcases Nat.eq_zero_or_pos j with rfl | hpos
  · exact Or.inl rfl
  · exact Or.inr (List.pairwise_iff_getElem.mp hsorted 0 j hL hj hpos)

/-- With a key and its last branch, the walk is to find the next key of the list. -/
theorem sorted_target_next {i : Nat} (hi : i + 1 < L.length) :
    Target bit w L.toFinset (lastBranch bit L.toFinset L[i] w) L[i] L[i + 1] := by
  refine target_next (by simp)
    (List.pairwise_iff_getElem.mp hsorted i (i + 1) (by omega) hi (by omega)) fun x hx hlt => ?_
  rcases sorted_after hsorted (by omega) (List.mem_toFinset.mp hx) hlt with ⟨j, hj, hij, rfl⟩
  rcases Nat.eq_or_lt_of_le (Nat.succ_le_of_lt hij) with rfl | hlt
  · exact Or.inl rfl
  · exact Or.inr (List.pairwise_iff_getElem.mp hsorted (i + 1) j hi hj hlt)

/-- Only the last key has no branch. -/
theorem sorted_lastBranch {i : Nat} (hi : i < L.length) :
    lastBranch bit L.toFinset L[i] w = 0 ↔ i + 1 = L.length := by
  rw [lastBranch_eq_zero_iff]
  constructor
  · intro h
    by_contra hne
    exact h L[i + 1] (by simp)
      (List.pairwise_iff_getElem.mp hsorted i (i + 1) hi (by omega) (by omega))
  · intro h x hx hlt
    rcases sorted_after hsorted hi (List.mem_toFinset.mp hx) hlt with ⟨j, hj, hij, -⟩
    omega

end Sorted

end BitTrie
