import Mathlib.Data.List.Basic
import Mathlib.Data.List.Perm.Subperm

/-! # `std::list` algorithms

`std::remove_if` on a whole container, and the in-place change of the element that
`std::find_if` returns.

`std::remove_if` does not shrink its range. It moves the elements to keep to the front, in order,
and returns the new logical end; behind that end the old elements stay where they were (for a
trivially copyable element type a move is a copy). A caller that does not pass the returned
iterator to `erase` therefore keeps a list of the old length.
-/

namespace StdList

variable {α β : Type*} (p : α → Bool)

/-- What `std::remove_if(first, last, p)` leaves in the container. -/
def removeIf (l : List α) : List α :=
  let kept := l.filter fun x => !p x
  kept ++ l.drop kept.length

/-- Applies `f` to the first element that satisfies `p`, if there is one. -/
def updateFirst (f : α → α) : List α → List α
  | [] => []
  | x :: xs => if p x then f x :: xs else x :: updateFirst f xs

variable {p} {l : List α} {x : α}

/-! ## `removeIf` -/

/-- `remove_if` does not change the size of the container. -/
theorem length_removeIf : (removeIf p l).length = l.length := by
  have h : (l.filter fun x => !p x).length ≤ l.length := List.length_filter_le _ _
  simp only [removeIf, List.length_append, List.length_drop]
  omega

/-- What it leaves was there before. -/
theorem mem_of_mem_removeIf (h : x ∈ removeIf p l) : x ∈ l := by
  rcases List.mem_append.mp h with h | h
  · exact List.mem_of_mem_filter h
  · exact List.mem_of_mem_drop h

/-- An element that is not to be removed is there after the call iff it was before. -/
theorem mem_removeIf_of_not (hx : p x = false) : x ∈ removeIf p l ↔ x ∈ l := by
  refine ⟨mem_of_mem_removeIf, fun h => List.mem_append_left _ ?_⟩
  exact List.mem_filter.mpr ⟨h, by simp [hx]⟩

/-- With nothing to remove it changes nothing. -/
theorem removeIf_eq_self (h : ∀ x ∈ l, p x = false) : removeIf p l = l := by
  have hkept : (l.filter fun x => !p x) = l :=
    List.filter_eq_self.mpr fun x hx => by simp [h x hx]
  simp [removeIf, hkept]

/-- With something to remove, the result is never a list of distinct elements to keep: there are
too few of those to fill the old length. -/
theorem removeIf_not_clean (hx : x ∈ l) (hpx : p x = true) :
    ¬ ((removeIf p l).Nodup ∧ ∀ y ∈ removeIf p l, p y = false) := by
  rintro ⟨hnodup, hclean⟩
  -- such a list would fit into the kept elements, which are fewer than the old length
  have hsub : removeIf p l ⊆ l.filter fun x => !p x := fun y hy =>
    List.mem_filter.mpr ⟨mem_of_mem_removeIf hy, by simp [hclean y hy]⟩
  have hle : (removeIf p l).length ≤ (l.filter fun x => !p x).length :=
    (List.subperm_of_subset hnodup hsub).length_le
  have hlt : (l.filter fun x => !p x).length < l.length :=
    List.length_filter_lt_length_iff_exists.mpr ⟨x, hx, by simp [hpx]⟩
  rw [length_removeIf] at hle
  omega

/-- The kept part and the number of removed elements make up the old length. -/
theorem length_filter_add_countP :
    (l.filter fun x => !p x).length + l.countP p = l.length := by
  have h := List.length_eq_countP_add_countP p (l := l)
  rw [List.countP_eq_length_filter (p := fun x => decide ¬p x = true)] at h
  simp only [Bool.not_eq_true, Bool.decide_eq_false] at h
  omega

/-- With at most one element to remove, only the last element can lie behind the logical end. -/
theorem eq_last_of_mem_drop {last : α} (hlast : l.getLast? = some last) (hone : l.countP p ≤ 1)
    (hx : x ∈ l.drop (l.filter fun y => !p y).length) : x = last := by
  have hlen := length_filter_add_countP (p := p) (l := l)
  obtain ⟨u, rfl⟩ : ∃ u, l = u ++ [last] := List.getLast?_eq_some_iff.mp hlast
  have hu : u.length ≤ ((u ++ [last]).filter fun y => !p y).length := by
    simp only [List.length_append, List.length_singleton] at hlen
    omega
  have hx' : x ∈ (u ++ [last]).drop u.length := List.drop_subset_drop_left _ hu hx
  simpa using hx'

/-- A single element to remove is gone afterwards, unless it was the last one. -/
theorem not_mem_removeIf {last : α} (hlast : l.getLast? = some last) (hp : p last = false)
    (hone : l.countP p ≤ 1) : ∀ y ∈ removeIf p l, p y = false := by
  intro y hy
  rcases List.mem_append.mp hy with hy | hy
  · simpa using (List.mem_filter.mp hy).2
  · rw [eq_last_of_mem_drop hlast hone hy]
    exact hp

/-- The removal of a single element makes nothing but the last element more frequent. -/
theorem countP_removeIf_le {last : α} (hlast : l.getLast? = some last) (hone : l.countP p ≤ 1)
    {r : α → Bool} (hr : r last = false) : (removeIf p l).countP r ≤ l.countP r := by
  have hkept : (l.filter fun y => !p y).countP r ≤ l.countP r :=
    List.filter_sublist.countP_le
  have hbehind : (l.drop (l.filter fun y => !p y).length).countP r = 0 := by
    rw [List.countP_eq_zero]
    intro y hy
    rw [eq_last_of_mem_drop hlast hone hy, hr]
    simp
  simp only [removeIf, List.countP_append, hbehind]
  omega

/-- A last element that is to be kept stays last: nothing overwrites it. -/
theorem getLast?_removeIf {last : α} (hlast : l.getLast? = some last) (hp : p last = false) :
    (removeIf p l).getLast? = some last := by
  obtain ⟨u, rfl⟩ : ∃ u, l = u ++ [last] := List.getLast?_eq_some_iff.mp hlast
  by_cases hdrop : (u ++ [last]).drop ((u ++ [last]).filter fun x => !p x).length = []
  · simp only [removeIf, hdrop, List.append_nil]
    simp [List.filter_append, hp]
  · simp only [removeIf, List.getLast?_append, List.getLast?_drop]
    have hlt : ¬ (u ++ [last]).length ≤ ((u ++ [last]).filter fun x => !p x).length := by
      simpa [List.drop_eq_nil_iff] using hdrop
    rw [if_neg hlt]
    simp

/-! ## `updateFirst` -/

/-- An update that changes none of the elements it may be applied to changes nothing. -/
theorem updateFirst_eq_self {f : α → α} (h : ∀ x ∈ l, p x = true → f x = x) :
    updateFirst p f l = l := by
  induction l with
  | nil => rfl
  | cons y ys ih =>
    by_cases hy : p y = true
    · simp [updateFirst, hy, h y (by simp) hy]
    · simp [updateFirst, hy, ih fun x hx => h x (by simp [hx])]

/-- A projection that `f` keeps is the same all over the list. -/
theorem map_updateFirst {f : α → α} {g : α → β} (hg : ∀ x, g (f x) = g x) :
    (updateFirst p f l).map g = l.map g := by
  induction l with
  | nil => rfl
  | cons y ys ih =>
    by_cases hy : p y = true
    · simp [updateFirst, hy, hg]
    · simp [updateFirst, hy, ih]

/-- A search for what is updated finds it updated. -/
theorem find?_updateFirst {f : α → α} (hf : ∀ x, p (f x) = p x) :
    (updateFirst p f l).find? p = (l.find? p).map f := by
  induction l with
  | nil => rfl
  | cons y ys ih =>
    by_cases hy : p y = true
    · simp [updateFirst, hy, hf]
    · simp [updateFirst, hy, ih]

/-- A search that neither finds what `f` makes nor what it is made of. -/
theorem find?_updateFirst_of_ne {f : α → α} {q : α → Bool}
    (h : ∀ x, p x = true → q x = false ∧ q (f x) = false) :
    (updateFirst p f l).find? q = l.find? q := by
  induction l with
  | nil => rfl
  | cons y ys ih =>
    by_cases hy : p y = true
    · simp [updateFirst, hy, (h y hy).1, (h y hy).2]
    · simp [updateFirst, hy, List.find?_cons, ih]

/-- An element afterwards was there before, or is made of one. -/
theorem mem_updateFirst {f : α → α} (h : x ∈ updateFirst p f l) :
    x ∈ l ∨ ∃ y ∈ l, p y = true ∧ x = f y := by
  induction l with
  | nil => simp [updateFirst] at h
  | cons y ys ih =>
    by_cases hy : p y = true
    · simp only [updateFirst, hy, if_true, List.mem_cons] at h
      rcases h with rfl | h
      · exact Or.inr ⟨y, by simp, hy, rfl⟩
      · exact Or.inl (by simp [h])
    · simp only [updateFirst, hy, Bool.false_eq_true, if_false, List.mem_cons] at h
      rcases h with rfl | h
      · exact Or.inl (by simp)
      · rcases ih h with hl | ⟨z, hz, hpz, rfl⟩
        · exact Or.inl (by simp [hl])
        · exact Or.inr ⟨z, by simp [hz], hpz, rfl⟩

end StdList
