import Mathlib.Data.Tree.Basic
import Mathlib.Data.List.Nodup

/-! # Sets of unique keys in a search tree

A set that stores its keys in a binary tree and asks only one question of them, `lt`. A key goes to
a leaf: left of the keys it is less than, right of the others, and is refused if the key before that
leaf is not less than it. Afterwards the tree may be rebalanced in any way that keeps the order of
its keys. Where `lt` is a strict total order on the keys that are ever stored, the tree is sorted
and holds each of them once.
-/

namespace SearchTree

variable {α : Type*}

/-- The keys from left to right. -/
def inorder : BinaryTree α → List α
  | .nil => []
  | .node x l r => inorder l ++ x :: inorder r

section Emplace

variable (lt : α → α → Prop) [DecidableRel lt]

/-- Puts `k` into the leaf it belongs to; `pred` is the key before the subtree. `none` if the key
before the leaf is not less than `k`. -/
def insertUnique (k : α) : Option α → BinaryTree α → Option (BinaryTree α)
  | pred, .nil => if ∀ p ∈ pred, lt p k then some (.node k .nil .nil) else none
  | pred, .node x l r =>
    if lt k x then (insertUnique k pred l).map fun l => .node x l r
    else (insertUnique k (some x) r).map fun r => .node x l r

/-- Adds a key, if none equivalent to it is found. -/
def emplace (rebalance : BinaryTree α → BinaryTree α) (t : BinaryTree α) (k : α) : BinaryTree α :=
  match insertUnique lt k none t with
  | some t' => rebalance t'
  | none => t

end Emplace

/-- On the keys of `E` the question is that of a strict total order. -/
structure StrictOn (lt : α → α → Prop) (E : α → Prop) : Prop where
  irrefl : ∀ a, E a → ¬ lt a a
  asymm : ∀ a b, E a → E b → lt a b → ¬ lt b a
  trans : ∀ a b c, E a → E b → E c → lt a b → lt b c → lt a c
  eq_of_not_lt : ∀ a b, E a → E b → ¬ lt a b → ¬ lt b a → a = b

variable {lt : α → α → Prop} {E : α → Prop}

/-- A sorted list of keys has no key twice. -/
theorem StrictOn.nodup (hE : StrictOn lt E) {l : List α} (hl : ∀ x ∈ l, E x)
    (h : l.Pairwise lt) : l.Nodup := by
  refine (List.Pairwise.and_mem.mp h).imp ?_
  intro a b hab he
  subst he
  exact hE.irrefl a (hl a hab.1) hab.2.2

variable [DecidableRel lt]

/-- What `insertUnique` does to a sorted tree whose keys all come after `pred`. -/
theorem insertUnique_spec (hE : StrictOn lt E) {k : α} (hk : E k) : ∀ {t : BinaryTree α}
    {pred : Option α}, (∀ x ∈ inorder t, E x) → (inorder t).Pairwise lt →
    (∀ p ∈ pred, E p ∧ ¬ lt k p ∧ ∀ x ∈ inorder t, lt p x) →
    match insertUnique lt k pred t with
    | none => k ∈ pred ∨ k ∈ inorder t
    | some t' => (inorder t').Pairwise lt ∧ (∀ x, x ∈ inorder t' ↔ x = k ∨ x ∈ inorder t) ∧
        ∀ p ∈ pred, ∀ x ∈ inorder t', lt p x
  | .nil, pred, _, _, hpred => by
    by_cases h : ∀ p ∈ pred, lt p k
    · simp only [insertUnique, if_pos h]
      refine ⟨by simp [inorder], by simp [inorder], ?_⟩
      intro p hp x hx
      obtain rfl : x = k := by simpa [inorder] using hx
      exact h p hp
    · -- refused: neither of the key and its predecessor is less, so they are equal
      simp only [insertUnique, if_neg h]
      obtain ⟨p, hp, hnot⟩ : ∃ p, p ∈ pred ∧ ¬ lt p k := by simpa using h
      rcases hpred p hp with ⟨hEp, hkp, -⟩
      exact Or.inl (hE.eq_of_not_lt p k hEp hk hnot hkp ▸ hp)
  | .node y l r, pred, ht, hsorted, hpred => by
    rcases List.pairwise_append.mp hsorted with ⟨hl, hyr, hly⟩
    rcases List.pairwise_cons.mp hyr with ⟨hy, hr⟩
    have hEl : ∀ x ∈ inorder l, E x := fun x hx => ht x (by simp [inorder, hx])
    have hEr : ∀ x ∈ inorder r, E x := fun x hx => ht x (by simp [inorder, hx])
    have hEy : E y := ht y (by simp [inorder])
    by_cases hky : lt k y
    · have hpredl : ∀ p ∈ pred, E p ∧ ¬ lt k p ∧ ∀ x ∈ inorder l, lt p x := fun p hp =>
        ⟨(hpred p hp).1, (hpred p hp).2.1, fun x hx => (hpred p hp).2.2 x (by simp [inorder, hx])⟩
      have ih := insertUnique_spec hE hk hEl hl hpredl
      simp only [insertUnique, if_pos hky]
      cases hins : insertUnique lt k pred l with
      | none =>
        simp only [hins, Option.map_none] at ih ⊢
        exact ih.imp id fun h => by simp [inorder, h]
      | some l' =>
        simp only [hins, Option.map_some] at ih ⊢
        rcases ih with ⟨hsorted', hmem, hbelow⟩
        -- the new key is less than `y`, so less than all to its right
        have hleft : ∀ x ∈ inorder l', ∀ z ∈ y :: inorder r, lt x z := by
          intro x hx z hz
          rcases (hmem x).mp hx with rfl | hx
          · rcases List.mem_cons.mp hz with rfl | hz
            · exact hky
            · exact hE.trans x y z hk hEy (hEr z hz) hky (hy z hz)
          · exact hly x hx z hz
        refine ⟨List.pairwise_append.mpr ⟨hsorted', hyr, hleft⟩, ?_, ?_⟩
        · intro x
          simp [inorder, hmem, or_assoc]
        · intro p hp x hx
          rcases List.mem_append.mp hx with hx | hx
          · exact hbelow p hp x hx
          · exact (hpred p hp).2.2 x (List.mem_append_right _ hx)
    · -- to the right of `y`, which is the new predecessor
      have hpredr : ∀ p ∈ some y, E p ∧ ¬ lt k p ∧ ∀ x ∈ inorder r, lt p x := by
        rintro p ⟨⟩
        exact ⟨hEy, hky, hy⟩
      have ih := insertUnique_spec hE hk hEr hr hpredr
      simp only [insertUnique, if_neg hky]
      cases hins : insertUnique lt k (some y) r with
      | none =>
        simp only [hins, Option.map_none] at ih ⊢
        apply Or.inr
        rcases ih with h | h
        · obtain rfl : y = k := by simpa using h
          simp [inorder]
        · simp [inorder, h]
      | some r' =>
        simp only [hins, Option.map_some] at ih ⊢
        rcases ih with ⟨hsorted', hmem, habove⟩
        have hyr' : ∀ z ∈ inorder r', lt y z := habove y rfl
        have hEr' : ∀ z ∈ inorder r', E z := fun z hz => by
          rcases (hmem z).mp hz with rfl | hz
          · exact hk
          · exact hEr z hz
        refine ⟨List.pairwise_append.mpr ⟨hl, List.pairwise_cons.mpr ⟨hyr', hsorted'⟩, ?_⟩,
          fun x => ?_, fun p hp x hx => ?_⟩
        · intro x hx z hz
          have hxy := hly x hx y (by simp)
          rcases List.mem_cons.mp hz with rfl | hz
          · exact hxy
          · exact hE.trans x y z (hEl x hx) hEy (hEr' z hz) hxy (hyr' z hz)
        · simp only [inorder, List.mem_append, List.mem_cons, hmem]
          tauto
        · rcases hpred p hp with ⟨hEp, -, hpx⟩
          have hpy := hpx y (by simp [inorder])
          rcases List.mem_append.mp hx with hx | hx
          · exact hpx x (by simp [inorder, hx])
          · rcases List.mem_cons.mp hx with rfl | hx
            · exact hpy
            · exact hE.trans p y x hEp hEy (hEr' x hx) hpy (hyr' x hx)

/-- Adding a key keeps the tree sorted and adds the key. -/
theorem emplace_spec (hE : StrictOn lt E) {rebalance : BinaryTree α → BinaryTree α}
    (hrebalance : ∀ t, inorder (rebalance t) = inorder t) {t : BinaryTree α} {k : α} (hk : E k)
    (ht : ∀ x ∈ inorder t, E x) (hsorted : (inorder t).Pairwise lt) :
    (inorder (emplace lt rebalance t k)).Pairwise lt ∧
      ∀ x, x ∈ inorder (emplace lt rebalance t k) ↔ x = k ∨ x ∈ inorder t := by
  have hnone : ∀ p ∈ (none : Option α), E p ∧ ¬ lt k p ∧ ∀ x ∈ inorder t, lt p x := by simp
  have hspec := insertUnique_spec hE hk ht hsorted hnone
  unfold emplace
  cases hins : insertUnique lt k none t with
  | none =>
    simp only [hins] at hspec ⊢
    refine ⟨hsorted, fun x => ⟨Or.inr, ?_⟩⟩
    rintro (rfl | hx)
    · simpa using hspec
    · exact hx
  | some t' =>
    simp only [hins, hrebalance] at hspec ⊢
    exact ⟨hspec.1, hspec.2.1⟩

/-- Whatever `lt` is, no key comes in but the one that is added. -/
theorem mem_of_insertUnique {k : α} : ∀ {t : BinaryTree α} {pred : Option α} {t' : BinaryTree α},
    insertUnique lt k pred t = some t' → ∀ x ∈ inorder t', x = k ∨ x ∈ inorder t
  | .nil, pred, t', h, x, hx => by
    simp only [insertUnique, Option.ite_none_right_eq_some, Option.some.injEq] at h
    rcases h with ⟨-, rfl⟩
    exact Or.inl (by simpa [inorder] using hx)
  | .node y l r, pred, t', h, x, hx => by
    unfold insertUnique at h
    split at h
    · rcases Option.map_eq_some_iff.mp h with ⟨l', hl, rfl⟩
      rcases List.mem_append.mp hx with hx | hx
      · rcases mem_of_insertUnique hl x hx with hk | hx
        · exact Or.inl hk
        · exact Or.inr (List.mem_append_left _ hx)
      · exact Or.inr (List.mem_append_right _ hx)
    · rcases Option.map_eq_some_iff.mp h with ⟨r', hr, rfl⟩
      rcases List.mem_append.mp hx with hx | hx
      · exact Or.inr (List.mem_append_left _ hx)
      · rcases List.mem_cons.mp hx with rfl | hx
        · exact Or.inr (by simp [inorder])
        · rcases mem_of_insertUnique hr x hx with hk | hx
          · exact Or.inl hk
          · exact Or.inr (by simp [inorder, hx])

/-- Adding a key brings in no other, however the tree is balanced again. -/
theorem mem_of_emplace {rebalance : BinaryTree α → BinaryTree α}
    (hrebalance : ∀ t, inorder (rebalance t) = inorder t) {t : BinaryTree α} {k x : α}
    (hx : x ∈ inorder (emplace lt rebalance t k)) : x = k ∨ x ∈ inorder t := by
  unfold emplace at hx
  cases hins : insertUnique lt k none t with
  | none =>
    simp only [hins] at hx
    exact Or.inr hx
  | some t' =>
    simp only [hins, hrebalance] at hx
    exact mem_of_insertUnique hins x hx

end SearchTree
