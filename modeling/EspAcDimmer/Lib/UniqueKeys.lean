import Mathlib.Data.List.Pairwise
import Mathlib.Data.Multiset.Basic
import Mathlib.Data.Multiset.ZeroCons
import Mathlib.Data.Multiset.Filter
import Mathlib.Data.Multiset.Count

/-! # Containers of unique keys

Sets and maps that take a new element only if they hold none of its class: an ordered one, where
two keys are of one class if neither is less than the other, and an unordered one, where they are
if they are equal. A map is a set of pairs that asks for their keys.

A comparison is only asked to be a strict partial order, an equality to be symmetric. So a key that
is not equal to itself, or is neither less nor greater than any other, is covered.
-/

namespace UniqueKeys

variable {α κ σ : Type*}

/-! ## Taking elements one after the other -/

/-- `x` stands in the list, and nothing of its class stands before it. -/
def FirstOfClass (E : α → α → Prop) : List α → α → Prop
  | [], _ => False
  | y :: ys, x => x = y ∨ ¬ E x y ∧ FirstOfClass E ys x

/-- `insert` adds an element iff the container has none of its class. -/
def InsertsUnique (mem : σ → α → Prop) (E : α → α → Prop) (insert : σ → α → σ) : Prop :=
  ∀ s x z, mem (insert s x) z ↔ mem s z ∨ z = x ∧ ∀ y, mem s y → ¬ E x y

/-- The elements of the list bring `z` into a container of the elements `B`. -/
def Brings (E : α → α → Prop) (xs : List α) (B : α → Prop) (z : α) : Prop :=
  FirstOfClass E xs z ∧ ∀ y, B y → ¬ E z y

/-- What only one of two containers has, the elements of the list bring into the other. -/
def Agree (E : α → α → Prop) (xs : List α) (A B : α → Prop) : Prop :=
  (∀ z, A z → ¬ B z → Brings E xs B z) ∧ ∀ z, B z → ¬ A z → Brings E xs A z

/-- The first of a class is in the list. -/
theorem FirstOfClass.mem {E : α → α → Prop} {xs : List α} {x : α} (h : FirstOfClass E xs x) :
    x ∈ xs := by
  induction xs with
  | nil => exact h.elim
  | cons y ys ih =>
    rcases h with rfl | ⟨-, h⟩
    · exact List.mem_cons_self
    · exact List.mem_cons_of_mem _ (ih h)

/-- A class has one first element. -/
theorem FirstOfClass.unique {E : α → α → Prop} (hsymm : ∀ a b, E a b → E b a) {xs : List α}
    {x y : α} (hx : FirstOfClass E xs x) (hy : FirstOfClass E xs y) (hxy : E x y) : x = y := by
  induction xs with
  | nil => exact hx.elim
  | cons z zs ih =>
    rcases hx with hxz | ⟨hxz, hx⟩
    · rcases hy with hyz | ⟨hyz, -⟩
      · rw [hxz, hyz]
      · exact absurd (hsymm _ _ hxy) (hxz ▸ hyz)
    · rcases hy with hyz | ⟨-, hy⟩
      · exact absurd hxy (hyz ▸ hxz)
      · exact ih hx hy

/-- In a list of different classes every element is the first of its class. -/
theorem firstOfClass_of_pairwise {E : α → α → Prop} {xs : List α}
    (hxs : xs.Pairwise fun a b => ¬ E b a) {x : α} (hx : x ∈ xs) : FirstOfClass E xs x := by
  induction xs with
  | nil => simp at hx
  | cons y ys ih =>
    rcases List.pairwise_cons.mp hxs with ⟨hy, hys⟩
    rcases List.mem_cons.mp hx with hxy | hx
    · exact Or.inl hxy
    · exact Or.inr ⟨hy x hx, ih hys hx⟩

section Foldl

variable {mem : σ → α → Prop} {E : α → α → Prop} {insert : σ → α → σ} {K : α → Prop}
  {s s₁ s₂ : σ} {xs : List α}

/-- What a container holds after it was offered the elements of a list, among keys `K` on which
the classes are those of an equivalence. -/
theorem InsertsUnique.mem_foldl (h : InsertsUnique mem E insert)
    (htrans : ∀ a b c, K a → K b → K c → E a b → E b c → E a c)
    (hs : ∀ z, mem s z → K z) (hxs : ∀ x ∈ xs, K x) (z : α) :
    mem (xs.foldl insert s) z ↔ mem s z ∨ Brings E xs (mem s) z := by
  unfold Brings
  induction xs generalizing s with
  | nil => simp [FirstOfClass]
  | cons x xs ih =>
    have hx : K x := hxs x List.mem_cons_self
    have hxs' : ∀ x ∈ xs, K x := fun a ha => hxs a (List.mem_cons_of_mem _ ha)
    have hins : ∀ z, mem (insert s x) z → K z := fun z hz => by
      rcases (h s x z).mp hz with hz | ⟨hz, -⟩
      · exact hs z hz
      · exact hz ▸ hx
    rw [List.foldl_cons, ih hins hxs']
    simp only [h s x, FirstOfClass]
    by_cases hfree : ∀ y, mem s y → ¬ E x y
    · -- `x` goes in, and keeps its class from then on
      constructor
      · rintro ((hz | ⟨hzx, -⟩) | ⟨hfirst, hnone⟩)
        · exact Or.inl hz
        · exact Or.inr ⟨Or.inl hzx, hzx ▸ hfree⟩
        · exact Or.inr ⟨Or.inr ⟨hnone x (Or.inr ⟨rfl, hfree⟩), hfirst⟩,
            fun y hy => hnone y (Or.inl hy)⟩
      · rintro (hz | ⟨hzx | ⟨hzx, hfirst⟩, hnone⟩)
        · exact Or.inl (Or.inl hz)
        · exact Or.inl (Or.inr ⟨hzx, hfree⟩)
        · refine Or.inr ⟨hfirst, ?_⟩
          intro y hy
          rcases hy with hy | ⟨hyx, -⟩
          · exact hnone y hy
          · exact hyx ▸ hzx
    · -- `x` is kept out by an element of its class, which keeps that class out as well
      obtain ⟨y₀, hy₀, hxy₀⟩ : ∃ y, mem s y ∧ E x y := by
        simpa only [not_forall, not_not, exists_prop] using hfree
      constructor
      · rintro ((hz | ⟨-, hzx⟩) | ⟨hfirst, hnone⟩)
        · exact Or.inl hz
        · exact absurd hzx hfree
        · have hz : K z := hxs' z hfirst.mem
          refine Or.inr ⟨Or.inr ⟨?_, hfirst⟩, fun y hy => hnone y (Or.inl hy)⟩
          intro hzx
          exact hnone y₀ (Or.inl hy₀) (htrans z x y₀ hz hx (hs y₀ hy₀) hzx hxy₀)
      · rintro (hz | ⟨hzx | ⟨hzx, hfirst⟩, hnone⟩)
        · exact Or.inl (Or.inl hz)
        · exact absurd hxy₀ (hzx ▸ hnone y₀ hy₀)
        · refine Or.inr ⟨hfirst, ?_⟩
          intro y hy
          rcases hy with hy | ⟨-, hfree'⟩
          · exact hnone y hy
          · exact absurd hfree' hfree

/-- Two containers offered the same elements end with the same elements iff they agree. -/
theorem InsertsUnique.mem_foldl_iff_agree (h : InsertsUnique mem E insert)
    (hsymm : ∀ a b, E a b → E b a)
    (htrans : ∀ a b c, K a → K b → K c → E a b → E b c → E a c)
    (hs₁ : ∀ z, mem s₁ z → K z) (hs₂ : ∀ z, mem s₂ z → K z) (hxs : ∀ x ∈ xs, K x) :
    (∀ z, mem (xs.foldl insert s₁) z ↔ mem (xs.foldl insert s₂) z) ↔
      Agree E xs (mem s₁) (mem s₂) := by
  simp only [h.mem_foldl htrans hs₁ hxs, h.mem_foldl htrans hs₂ hxs]
  constructor
  · intro hsame
    constructor
    · intro z hz hno
      exact ((hsame z).mp (Or.inl hz)).resolve_left hno
    · intro z hz hno
      exact ((hsame z).mpr (Or.inl hz)).resolve_left hno
  · -- one inclusion, for either container
    have hincl : ∀ {A B : α → Prop}, Agree E xs A B → ∀ z, A z ∨ Brings E xs A z →
        B z ∨ Brings E xs B z := by
      intro A B hagree z hz
      by_cases hB : B z
      · exact Or.inl hB
      rcases hz with hz | ⟨hfirst, hnone⟩
      · exact Or.inr (hagree.1 z hz hB)
      · refine Or.inr ⟨hfirst, ?_⟩
        intro y hy hzy
        by_cases hA : A y
        · exact hnone y hA hzy
        · -- `y` is brought into the first container too, so it is the first of its class: `z`
          have hyz := FirstOfClass.unique hsymm hfirst (hagree.2 y hy hA).1 hzy
          exact hB (hyz ▸ hy)
    intro hagree z
    exact ⟨hincl hagree z, hincl ⟨hagree.2, hagree.1⟩ z⟩

end Foldl

/-! ## Ordered containers -/

/-- A comparison of keys. -/
structure KeyOrder (α : Type*) where
  lt : α → α → Bool
  irrefl : ∀ a, lt a a = false
  trans : ∀ a b c, lt a b = true → lt b c = true → lt a c = true

namespace KeyOrder

/-- Neither is less than the other. -/
def Equiv (o : KeyOrder α) (a b : α) : Prop := o.lt a b = false ∧ o.lt b a = false

theorem Equiv.symm {o : KeyOrder α} {a b : α} (h : o.Equiv a b) : o.Equiv b a := ⟨h.2, h.1⟩

theorem equiv_refl (o : KeyOrder α) (a : α) : o.Equiv a a := ⟨o.irrefl a, o.irrefl a⟩

/-- A key that is less is of another class. -/
theorem not_equiv_of_lt {o : KeyOrder α} {a b : α} (h : o.lt a b = true) : ¬ o.Equiv a b := by
  intro he
  rw [he.1] at h
  exact absurd h (by decide)

/-- The order of a map's entries: that of their keys. -/
def onKey (o : KeyOrder κ) (ν : Type*) : KeyOrder (κ × ν) where
  lt p q := o.lt p.1 q.1
  irrefl p := o.irrefl p.1
  trans p q r := o.trans p.1 q.1 r.1

end KeyOrder

/-- The elements of an ordered container from its begin to its end. -/
structure OrderedSet (o : KeyOrder α) where
  toList : List α
  sorted : toList.Pairwise fun a b => o.lt a b = true

/-- Walks to the first element that is not less, and gives up if the new one is not less either. -/
def insertSorted (o : KeyOrder α) : List α → α → List α
  | [], x => [x]
  | y :: ys, x =>
    if o.lt y x then y :: insertSorted o ys x else if o.lt x y then x :: y :: ys else y :: ys

/-- The new element comes in if its class is not there yet. -/
theorem mem_insertSorted {o : KeyOrder α} {l : List α}
    (hl : l.Pairwise fun a b => o.lt a b = true) {x z : α} :
    z ∈ insertSorted o l x ↔ z ∈ l ∨ z = x ∧ ∀ y ∈ l, ¬ o.Equiv x y := by
  induction l with
  | nil => simp [insertSorted]
  | cons y ys ih =>
    rcases List.pairwise_cons.mp hl with ⟨hy, hys⟩
    unfold insertSorted
    by_cases hyx : o.lt y x = true
    · have hne : ¬ o.Equiv x y := fun he => KeyOrder.not_equiv_of_lt hyx he.symm
      have hall : (∀ a ∈ y :: ys, ¬ o.Equiv x a) ↔ ∀ a ∈ ys, ¬ o.Equiv x a := by
        rw [List.forall_mem_cons, and_iff_right hne]
      rw [if_pos hyx, hall, List.mem_cons, List.mem_cons, ih hys, or_assoc]
    · by_cases hxy : o.lt x y = true
      · -- everything behind `y` is greater than `x` as well
        have hnone : ∀ a ∈ y :: ys, ¬ o.Equiv x a := by
          intro a ha
          rcases List.mem_cons.mp ha with hay | ha
          · exact hay ▸ KeyOrder.not_equiv_of_lt hxy
          · exact KeyOrder.not_equiv_of_lt (o.trans x y a hxy (hy a ha))
        rw [if_neg hyx, if_pos hxy, List.mem_cons (a := z) (b := x), and_iff_left hnone]
        exact or_comm
      · have he : o.Equiv x y := ⟨by simpa using hxy, by simpa using hyx⟩
        rw [if_neg hyx, if_neg hxy, List.forall_mem_cons]
        simp [he]

/-- A sorted list stays sorted. -/
theorem sorted_insertSorted {o : KeyOrder α} {l : List α}
    (hl : l.Pairwise fun a b => o.lt a b = true) (x : α) :
    (insertSorted o l x).Pairwise fun a b => o.lt a b = true := by
  induction l with
  | nil => simp [insertSorted]
  | cons y ys ih =>
    rcases List.pairwise_cons.mp hl with ⟨hy, hys⟩
    unfold insertSorted
    by_cases hyx : o.lt y x = true
    · rw [if_pos hyx]
      refine List.pairwise_cons.mpr ⟨?_, ih hys⟩
      intro a ha
      rcases (mem_insertSorted hys).mp ha with ha | ⟨hax, -⟩
      · exact hy a ha
      · exact hax ▸ hyx
    · by_cases hxy : o.lt x y = true
      · rw [if_neg hyx, if_pos hxy]
        refine List.pairwise_cons.mpr ⟨?_, hl⟩
        intro a ha
        rcases List.mem_cons.mp ha with hay | ha
        · exact hay ▸ hxy
        · exact o.trans x y a hxy (hy a ha)
      · rw [if_neg hyx, if_neg hxy]
        exact hl

namespace OrderedSet

variable {o : KeyOrder α}

instance [DecidableEq α] : DecidableEq (OrderedSet o) := fun a b =>
  decidable_of_iff (a.toList = b.toList) (by cases a; cases b; simp)

def empty : OrderedSet o := ⟨[], List.Pairwise.nil⟩

instance : Membership α (OrderedSet o) := ⟨fun s x => x ∈ s.toList⟩

@[simp] theorem mem_toList {s : OrderedSet o} {x : α} : x ∈ s.toList ↔ x ∈ s := Iff.rfl

@[simp] theorem not_mem_empty {x : α} : x ∉ (empty : OrderedSet o) := List.not_mem_nil

/-- Adds an element, unless there is one of its class. -/
def insert (s : OrderedSet o) (x : α) : OrderedSet o :=
  ⟨insertSorted o s.toList x, sorted_insertSorted s.sorted x⟩

def insertAll (s : OrderedSet o) (xs : List α) : OrderedSet o := xs.foldl insert s

/-- An ordered container takes one element of a class. -/
theorem insertsUnique : InsertsUnique (fun (s : OrderedSet o) x => x ∈ s) o.Equiv insert :=
  fun s _ _ => mem_insertSorted s.sorted

/-- The order leaves no choice of arrangement. -/
theorem ext {s t : OrderedSet o} (h : ∀ x, x ∈ s ↔ x ∈ t) : s = t := by
  have hirrefl : ∀ a, ¬ o.lt a a = true := fun a => by simp [o.irrefl a]
  have hnodup : ∀ u : OrderedSet o, u.toList.Nodup := by
    intro u
    apply u.sorted.imp
    intro a b hab he
    exact hirrefl b (he ▸ hab)
  have hperm : s.toList.Perm t.toList :=
    (List.perm_ext_iff_of_nodup (hnodup s) (hnodup t)).mpr h
  have hlist : s.toList = t.toList :=
    hperm.eq_of_pairwise
      (fun a b _ _ hab hba => absurd (o.trans a b a hab hba) (hirrefl a)) s.sorted t.sorted
  cases s
  cases t
  simpa using hlist

/-- The elements of an ordered container are of different classes. -/
theorem not_equiv_of_mem (s : OrderedSet o) :
    s.toList.Pairwise fun a b => ¬ o.Equiv b a :=
  s.sorted.imp fun hab (he : o.Equiv _ _) => KeyOrder.not_equiv_of_lt hab he.symm

/-- In a container only equal elements are of one class. -/
theorem eq_of_equiv {s : OrderedSet o} {a b : α} (ha : a ∈ s) (hb : b ∈ s) (h : o.Equiv a b) :
    a = b :=
  FirstOfClass.unique (fun _ _ => KeyOrder.Equiv.symm)
    (firstOfClass_of_pairwise s.not_equiv_of_mem ha)
    (firstOfClass_of_pairwise s.not_equiv_of_mem hb) h

/-- To be offered the elements of `t` makes `s` into `t` iff `s` has no others. -/
theorem insertAll_toList_iff {s t : OrderedSet o} :
    s.insertAll t.toList = t ↔ ∀ x ∈ s, x ∈ t := by
  constructor
  · intro h x hx
    -- nothing is ever taken out
    have hkeep : ∀ (xs : List α) (u : OrderedSet o), x ∈ u → x ∈ u.insertAll xs := by
      intro xs
      induction xs with
      | nil => exact fun _ hu => hu
      | cons y ys ih => exact fun u hu => ih _ ((insertsUnique u y x).mpr (Or.inl hu))
    rw [← h]
    exact hkeep _ _ hx
  · intro h
    have hmem := insertsUnique.mem_foldl (K := fun x => x ∈ t) (s := s)
      (fun a b c ha hb hc hab hbc => by
        rw [eq_of_equiv ha hb hab, eq_of_equiv hb hc hbc]
        exact o.equiv_refl c) h fun x hx => hx
    refine ext fun z => (hmem z).trans ⟨?_, ?_⟩
    · rintro (hz | ⟨hz, -⟩)
      · exact h z hz
      · exact hz.mem
    · intro hz
      by_cases hs : z ∈ s
      · exact Or.inl hs
      · refine Or.inr ⟨firstOfClass_of_pairwise t.not_equiv_of_mem hz, ?_⟩
        intro y hy hzy
        exact hs (eq_of_equiv hz (h y hy) hzy ▸ hy)

/-- Its own elements build a container again. -/
theorem insertAll_empty (s : OrderedSet o) : empty.insertAll s.toList = s :=
  insertAll_toList_iff.mpr fun _ hx => absurd hx not_mem_empty

/-- A new container holds the first of every class. -/
theorem mem_insertAll_empty {xs : List α}
    (htrans : ∀ a b c, a ∈ xs → b ∈ xs → c ∈ xs → o.Equiv a b → o.Equiv b c → o.Equiv a c)
    {x : α} : x ∈ (empty : OrderedSet o).insertAll xs ↔ FirstOfClass o.Equiv xs x := by
  have hmem := insertsUnique.mem_foldl (K := fun x => x ∈ xs) (s := (empty : OrderedSet o))
    htrans (fun _ hz => absurd hz not_mem_empty) (fun _ hx => hx) x
  apply hmem.trans
  simp [Brings]

/-- Two ordered containers become the same iff the elements bring what only one of them has. -/
theorem insertAll_eq_iff {s t : OrderedSet o} {xs : List α} {K : α → Prop}
    (htrans : ∀ a b c, K a → K b → K c → o.Equiv a b → o.Equiv b c → o.Equiv a c)
    (hs : ∀ x ∈ s, K x) (ht : ∀ x ∈ t, K x) (hxs : ∀ x ∈ xs, K x) :
    s.insertAll xs = t.insertAll xs ↔ Agree o.Equiv xs (· ∈ s) (· ∈ t) := by
  rw [← insertsUnique.mem_foldl_iff_agree (fun _ _ => KeyOrder.Equiv.symm) htrans hs ht hxs]
  exact ⟨fun h z => iff_of_eq (congrArg (z ∈ ·) h), ext⟩

end OrderedSet

/-! ## Unordered containers -/

/-- An equality of keys. -/
structure KeyEq (α : Type*) where
  eq : α → α → Bool
  symm : ∀ a b, eq a b = true → eq b a = true

namespace KeyEq

def Equiv (e : KeyEq α) (a b : α) : Prop := e.eq a b = true

instance (e : KeyEq α) (a b : α) : Decidable (e.Equiv a b) :=
  inferInstanceAs (Decidable (_ = true))

/-- The equality of a map's entries: that of their keys. -/
def onKey (e : KeyEq κ) (ν : Type*) : KeyEq (κ × ν) where
  eq p q := e.eq p.1 q.1
  symm p q := e.symm p.1 q.1

end KeyEq

/-- The elements of an unordered container, whose iteration order says nothing. -/
structure UnorderedSet (e : KeyEq α) where
  elements : Multiset α
  unique : elements.Pairwise fun a b => ¬ e.Equiv b a

namespace UnorderedSet

variable {e : KeyEq α}

instance [DecidableEq α] : DecidableEq (UnorderedSet e) := fun a b =>
  decidable_of_iff (a.elements = b.elements) (by cases a; cases b; simp)

def empty : UnorderedSet e := ⟨0, [], rfl, List.Pairwise.nil⟩

instance : Membership α (UnorderedSet e) := ⟨fun s x => x ∈ s.elements⟩

@[simp] theorem mem_elements {s : UnorderedSet e} {x : α} : x ∈ s.elements ↔ x ∈ s := Iff.rfl

@[simp] theorem not_mem_empty {x : α} : x ∉ (empty : UnorderedSet e) := Multiset.notMem_zero x

/-- An element of a new class may be added to elements of different classes. -/
theorem pairwise_cons {m : Multiset α} (hm : m.Pairwise fun a b => ¬ e.Equiv b a) {x : α}
    (hx : ¬ ∃ y ∈ m, e.Equiv x y) : (x ::ₘ m).Pairwise fun a b => ¬ e.Equiv b a := by
  rcases hm with ⟨l, hl, hpair⟩
  refine ⟨x :: l, by rw [hl, Multiset.cons_coe], List.pairwise_cons.mpr ⟨?_, hpair⟩⟩
  intro y hy he
  exact hx ⟨y, by simpa [hl] using hy, e.symm _ _ he⟩

instance decidableExistsEquiv (m : Multiset α) (x : α) : Decidable (∃ y ∈ m, e.Equiv x y) :=
  Multiset.decidableExistsMultiset

/-- Adds an element, unless there is one of its class. -/
def emplace (s : UnorderedSet e) (x : α) : UnorderedSet e :=
  if h : ∃ y ∈ s.elements, e.Equiv x y then s else ⟨x ::ₘ s.elements, pairwise_cons s.unique h⟩

def emplaceAll (s : UnorderedSet e) (xs : List α) : UnorderedSet e := xs.foldl emplace s

/-- An unordered container takes one element of a class. -/
theorem insertsUnique : InsertsUnique (fun (s : UnorderedSet e) x => x ∈ s) e.Equiv emplace := by
  intro s x z
  unfold emplace
  by_cases h : ∃ y ∈ s.elements, e.Equiv x y
  · rw [dif_pos h]
    refine ⟨Or.inl, ?_⟩
    rintro (hz | ⟨-, hnone⟩)
    · exact hz
    · rcases h with ⟨y, hy, hxy⟩
      exact absurd hxy (hnone y hy)
  · rw [dif_neg h]
    have hnone : ∀ y, y ∈ s → ¬ e.Equiv x y := fun y hy hxy => h ⟨y, hy, hxy⟩
    show z ∈ x ::ₘ s.elements ↔ _
    rw [Multiset.mem_cons, mem_elements, and_iff_left hnone]
    exact or_comm

theorem emplace_of_mem {s : UnorderedSet e} {x y : α} (hy : y ∈ s) (hxy : e.Equiv x y) :
    s.emplace x = s :=
  dif_pos ⟨y, hy, hxy⟩

/-- An element of a new class is added. -/
theorem elements_emplace {s : UnorderedSet e} {x : α} (h : ∀ y ∈ s, ¬ e.Equiv x y) :
    (s.emplace x).elements = x ::ₘ s.elements := by
  unfold emplace
  rw [dif_neg fun ⟨y, hy, hxy⟩ => h y hy hxy]

theorem ext {s t : UnorderedSet e} (h : s.elements = t.elements) : s = t := by
  cases s
  cases t
  simpa using h

/-- Different elements of an unordered container are of different classes. -/
theorem not_equiv_of_ne (s : UnorderedSet e) {a b : α} (ha : a ∈ s) (hb : b ∈ s) (hab : a ≠ b) :
    ¬ e.Equiv a b := by
  rcases s.unique with ⟨l, hl, hpair⟩
  have : Std.Symm fun a b => ¬ e.Equiv b a := ⟨fun _ _ h he => h (e.symm _ _ he)⟩
  have hmem : ∀ {x}, x ∈ s → x ∈ l := fun {x} hx => by
    rw [← mem_elements, hl] at hx
    exact hx
  exact hpair.forall (hmem hb) (hmem ha) hab.symm

/-- Of a class that contains itself a container has one element at most. -/
theorem count_le_one [DecidableEq α] (s : UnorderedSet e) {x : α} (hx : e.Equiv x x) :
    s.elements.count x ≤ 1 := by
  rcases s.unique with ⟨l, hl, hpair⟩
  rw [hl, Multiset.coe_count, ← not_lt]
  intro htwo
  -- twice in the list would be twice of one class
  have htwice : [x, x].Sublist l := List.replicate_sublist_iff.mpr htwo
  exact (hpair.forall_sublist htwice) hx

/-- A container whose elements are of their own classes has none of them twice. -/
theorem nodup {s : UnorderedSet e} (h : ∀ x ∈ s, e.Equiv x x) : s.elements.Nodup := by
  classical
  apply Multiset.nodup_iff_count_le_one.mpr
  intro x
  by_cases hx : x ∈ s
  · exact s.count_le_one (h x hx)
  · rw [Multiset.count_eq_zero.mpr hx]
    exact Nat.zero_le 1

/-- No element of the container is of the class of `x`. -/
def Free (s : UnorderedSet e) (x : α) : Prop := ¬ ∃ y ∈ s.elements, e.Equiv x y

instance (s : UnorderedSet e) : DecidablePred s.Free :=
  fun x => inferInstanceAs (Decidable (¬ ∃ y ∈ s.elements, e.Equiv x y))

/-- Elements of pairwise different classes are taken if their class was free before. -/
theorem elements_emplaceAll {l : List α} (hl : l.Pairwise fun a b => ¬ e.Equiv b a)
    (s : UnorderedSet e) :
    (s.emplaceAll l).elements = s.elements + (l : Multiset α).filter s.Free := by
  unfold emplaceAll
  induction l generalizing s with
  | nil => simp
  | cons x xs ih =>
    rcases List.pairwise_cons.mp hl with ⟨hx, hxs⟩
    rw [List.foldl_cons, ih hxs, ← Multiset.cons_coe]
    by_cases h : ∃ y ∈ s.elements, e.Equiv x y
    · rcases h with ⟨y, hy, hxy⟩
      rw [emplace_of_mem hy hxy, Multiset.filter_cons_of_neg _ fun hfree => hfree ⟨y, hy, hxy⟩]
    · have hfree : s.Free x := h
      have hadd := elements_emplace (s := s) fun y hy hxy => h ⟨y, hy, hxy⟩
      -- what comes later is of another class than `x`
      have hsame : ∀ a ∈ (xs : Multiset α), (s.emplace x).Free a ↔ s.Free a := by
        intro a ha
        have hax := hx a (Multiset.mem_coe.mp ha)
        unfold Free
        rw [hadd]
        simp [hax]
      rw [Multiset.filter_congr hsame, Multiset.filter_cons_of_pos _ hfree, hadd, Multiset.cons_add,
        Multiset.add_cons]

/-- A container is built again by its own elements, in whatever order. -/
theorem emplaceAll_empty {s : UnorderedSet e} {l : List α} (hl : s.elements = l)
    (hpair : l.Pairwise fun a b => ¬ e.Equiv b a) : empty.emplaceAll l = s := by
  apply ext
  have hfree : ∀ a ∈ (l : Multiset α), (empty : UnorderedSet e).Free a := by
    intro a _
    simp [Free]
  rw [elements_emplaceAll hpair, Multiset.filter_eq_self.mpr hfree, hl]
  exact Multiset.zero_add _

/-- To be offered the elements of `t` makes `s` into `t` iff `s` has no others, and none that is
not of its own class. -/
theorem emplaceAll_iff {s t : UnorderedSet e} {l : List α} (hl : t.elements = l)
    (hpair : l.Pairwise fun a b => ¬ e.Equiv b a) :
    s.emplaceAll l = t ↔ ∀ x ∈ s, x ∈ t ∧ e.Equiv x x := by
  classical
  have hsum := elements_emplaceAll hpair s
  rw [← hl] at hsum
  constructor
  · intro h x hx
    rw [h] at hsum
    have hsub : ∀ y ∈ s, y ∈ t := fun y hy => by
      rw [← mem_elements, hsum]
      exact Multiset.mem_add.mpr (Or.inl hy)
    refine ⟨hsub x hx, ?_⟩
    by_contra hself
    -- then its class is free, and all its copies in `t` are taken a second time
    have hfree : s.Free x := by
      rintro ⟨y, hy, hxy⟩
      by_cases he : x = y
      · exact hself (he ▸ hxy)
      · exact t.not_equiv_of_ne (hsub x hx) (hsub y hy) he hxy
    have hcount := congrArg (Multiset.count x) hsum
    rw [Multiset.count_add, Multiset.count_filter_of_pos hfree] at hcount
    have hpos : 0 < s.elements.count x := Multiset.count_pos.mpr hx
    omega
  · intro h
    apply ext
    rw [hsum]
    ext x
    rw [Multiset.count_add]
    by_cases hx : x ∈ s
    · -- its class is taken, and `t` has no second of it
      rcases h x hx with ⟨hxt, hself⟩
      have hs : s.elements.count x = 1 :=
        le_antisymm (s.count_le_one hself) (Multiset.count_pos.mpr hx)
      have ht : t.elements.count x = 1 :=
        le_antisymm (t.count_le_one hself) (Multiset.count_pos.mpr hxt)
      rw [hs, ht, Multiset.count_filter_of_neg fun hfree => hfree ⟨x, hx, hself⟩]
    · rw [Multiset.count_eq_zero.mpr hx]
      by_cases hxt : x ∈ t
      · have hfree : s.Free x := by
          rintro ⟨y, hy, hxy⟩
          have hne : x ≠ y := fun he => hx (he ▸ hy)
          exact t.not_equiv_of_ne hxt (h y hy).1 hne hxy
        rw [Multiset.count_filter_of_pos hfree, Nat.zero_add]
      · have hno : x ∉ t.elements.filter s.Free := fun hmem => hxt (Multiset.mem_filter.mp hmem).1
        rw [Multiset.count_eq_zero.mpr hno, Multiset.count_eq_zero.mpr hxt]

/-- A new container holds the first of every class. -/
theorem mem_emplaceAll_empty {xs : List α}
    (htrans : ∀ a b c, a ∈ xs → b ∈ xs → c ∈ xs → e.Equiv a b → e.Equiv b c → e.Equiv a c)
    {x : α} : x ∈ (empty : UnorderedSet e).emplaceAll xs ↔ FirstOfClass e.Equiv xs x := by
  have hmem := insertsUnique.mem_foldl (K := fun x => x ∈ xs) (s := (empty : UnorderedSet e))
    htrans (fun _ hz => absurd hz not_mem_empty) (fun _ hx => hx) x
  apply hmem.trans
  simp [Brings]

/-- Two unordered containers become the same iff the elements bring what only one of them has. -/
theorem emplaceAll_eq_iff {s t : UnorderedSet e} {xs : List α} {K : α → Prop}
    (hrefl : ∀ a, K a → e.Equiv a a)
    (htrans : ∀ a b c, K a → K b → K c → e.Equiv a b → e.Equiv b c → e.Equiv a c)
    (hs : ∀ x ∈ s, K x) (ht : ∀ x ∈ t, K x) (hxs : ∀ x ∈ xs, K x) :
    s.emplaceAll xs = t.emplaceAll xs ↔ Agree e.Equiv xs (· ∈ s) (· ∈ t) := by
  rw [← insertsUnique.mem_foldl_iff_agree e.symm htrans hs ht hxs]
  -- all that either container ends with is among the keys
  have hnodup : ∀ u : UnorderedSet e, (∀ x ∈ u, K x) → (u.emplaceAll xs).elements.Nodup := by
    intro u hu
    refine nodup fun x hx => hrefl x ?_
    rcases (insertsUnique.mem_foldl htrans hu hxs x).mp hx with hx | ⟨hx, -⟩
    · exact hu x hx
    · exact hxs x hx.mem
  constructor
  · intro h z
    exact iff_of_eq (congrArg (z ∈ ·) h)
  · intro h
    exact ext ((Multiset.Nodup.ext (hnodup s hs) (hnodup t ht)).mpr h)

end UnorderedSet

end UniqueKeys
