import EspAcDimmer.Streams.Decode

/-! # Targets that are read again

Whether a read returns true, and what it takes from the stream, does not depend on the target. What
it makes of the target does: a list keeps its elements, and a set or a map keeps its own element of
a class. So two targets are the same afterwards iff the bytes bring into each of them what only the
other one has.
-/

namespace EspAcDimmer.Streams

open Framing UniqueKeys

variable {α κ ν γ : Type}

/-! ## What does not depend on the target -/

/-- Of two targets a reader returns the same, and does the same to the stream. -/
def Oblivious (read : α → ArrayInputStream → Read α) : Prop :=
  ∀ old₁ old₂ s, (read old₁ s).ok = (read old₂ s).ok ∧ (read old₁ s).stream = (read old₂ s).stream

theorem readScalar_oblivious (size : Nat) : Oblivious (readScalar size) := by
  intro old₁ old₂ s
  unfold readScalar
  split <;> exact ⟨rfl, rfl⟩

/-- A string is built anew. -/
theorem readString_oblivious : Oblivious readString := by
  intro old₁ old₂ s
  unfold readString
  simp only
  split <;> exact ⟨rfl, rfl⟩

/-- So is a vector. -/
theorem readVector_oblivious (read : α → ArrayInputStream → Read α) (sizeof : Nat) (value : α) :
    Oblivious (readVector read sizeof value) := by
  intro old₁ old₂ s
  unfold readVector
  simp only
  split <;> exact ⟨rfl, rfl⟩

/-- What is in the container does not say how many items follow. -/
theorem readItems_oblivious {readItem : γ → ArrayInputStream → Read γ}
    (hitem : Oblivious readItem) (fuel : Nat) : Oblivious (readItems readItem fuel) := by
  induction fuel with
  | zero => exact fun _ _ _ => ⟨rfl, rfl⟩
  | succ fuel ih =>
    intro old₁ old₂ s
    rcases hitem old₁ old₂ (readScalar 1 0 s).stream with ⟨hok, hstream⟩
    unfold readItems
    simp only
    rw [hok, hstream]
    split
    · exact ⟨rfl, rfl⟩
    split
    · exact ⟨rfl, rfl⟩
    split
    · exact ⟨rfl, rfl⟩
    split
    · exact ⟨rfl, rfl⟩
    · exact ih _ _ _

/-- The element is a local object, whatever the set holds. -/
theorem readSet_oblivious (insert : γ → α → γ) (read : α → ArrayInputStream → Read α) (value : α) :
    Oblivious (readSet insert read value) := by
  intro old₁ old₂ s
  refine readItems_oblivious ?_ _ old₁ old₂ s
  intro set₁ set₂ s
  simp only
  split <;> exact ⟨rfl, rfl⟩

/-- A struct does not look at its targets if its fields do not. -/
theorem readFields_oblivious {readFirst : κ → ArrayInputStream → Read κ}
    {readRest : ν → ArrayInputStream → Read ν} (hfirst : Oblivious readFirst)
    (hrest : Oblivious readRest) : Oblivious (readFields readFirst readRest) := by
  intro old₁ old₂ s
  rcases hfirst old₁.1 old₂.1 s with ⟨hok, hstream⟩
  have h₂ := hrest old₁.2 old₂.2 (readFirst old₂.1 s).stream
  unfold readFields
  simp only
  rw [hok, hstream]
  split
  · exact ⟨rfl, rfl⟩
  · exact h₂

/-- No read looks at its target to find what to return or to take: one case for each kind of
type. -/
theorem CppType.read_oblivious (t : CppType α) : Oblivious t.read := by
  induction t with
  | scalar size => exact readScalar_oblivious size
  | string => exact readString_oblivious
  | vector item sizeof ih => exact readVector_oblivious _ _ _
  | list item ih =>
    intro old₁ old₂ s
    exact readItems_oblivious (fun _ _ _ => ⟨rfl, rfl⟩) _ old₁ old₂ s
  | set item order ih => exact readSet_oblivious _ _ _
  | map key mapped order ihk ihm =>
    unfold read
    rw [readMapLikeContainer_eq]
    exact readSet_oblivious _ _ _
  | unorderedMap key mapped eq ihk ihm =>
    unfold read
    rw [readMapLikeContainer_eq]
    exact readSet_oblivious _ _ _
  | done => exact fun _ _ _ => ⟨rfl, rfl⟩
  | field first rest ihf ihr => exact readFields_oblivious ihf ihr

/-! ## What does -/

/-- The elements of the two targets, and those in the bytes. -/
def AtHand (A B : α → Prop) (xs : List α) (x : α) : Prop := A x ∨ B x ∨ x ∈ xs

def TransitiveOn (K : α → Prop) (E : α → α → Prop) : Prop :=
  ∀ a b c, K a → K b → K c → E a b → E b c → E a c

namespace CppType

/-- What the standard asks of a comparison or an equality of keys, for the keys at hand. -/
def KeysLawful : {α : Type} → (t : CppType α) → α → α → t.Content → Prop
  | _, scalar _ => fun _ _ _ => True
  | _, string => fun _ _ _ => True
  | _, vector _ _ => fun _ _ _ => True
  | _, list _ => fun _ _ _ => True
  | _, set _ order => fun old₁ old₂ c =>
    TransitiveOn (AtHand (· ∈ old₁) (· ∈ old₂) c) order.Equiv
  | _, @map _ ν _ _ order => fun old₁ old₂ c =>
    TransitiveOn (AtHand (· ∈ old₁) (· ∈ old₂) c) (order.onKey ν).Equiv
  | _, @unorderedMap _ ν _ _ eq => fun old₁ old₂ c =>
    (∀ p, AtHand (· ∈ old₁) (· ∈ old₂) c p → (eq.onKey ν).Equiv p p) ∧
      TransitiveOn (AtHand (· ∈ old₁) (· ∈ old₂) c) (eq.onKey ν).Equiv
  | _, done => fun _ _ _ => True
  | _, field first rest => fun old₁ old₂ c =>
    first.KeysLawful old₁.1 old₂.1 c.1 ∧ rest.KeysLawful old₁.2 old₂.2 c.2

/-- Targets that such bytes make the same. -/
def Agrees : {α : Type} → (t : CppType α) → α → α → t.Content → Prop
  | _, scalar _ => fun _ _ _ => True
  | _, string => fun _ _ _ => True
  | _, vector _ _ => fun _ _ _ => True
  | _, list _ => fun old₁ old₂ _ => old₁ = old₂
  | _, set _ order => fun old₁ old₂ c => Agree order.Equiv c (· ∈ old₁) (· ∈ old₂)
  | _, @map _ ν _ _ order => fun old₁ old₂ c =>
    Agree (order.onKey ν).Equiv c (· ∈ old₁) (· ∈ old₂)
  | _, @unorderedMap _ ν _ _ eq => fun old₁ old₂ c =>
    Agree (eq.onKey ν).Equiv c (· ∈ old₁) (· ∈ old₂)
  | _, done => fun _ _ _ => True
  | _, field first rest => fun old₁ old₂ c =>
    first.Agrees old₁.1 old₂.1 c.1 ∧ rest.Agrees old₁.2 old₂.2 c.2

/-- Equal targets are those that agree: one case for each kind of type. -/
theorem overlay_eq_iff (t : CppType α) {old₁ old₂ : α} {c : t.Content}
    (hkeys : t.KeysLawful old₁ old₂ c) :
    t.overlay old₁ c = t.overlay old₂ c ↔ t.Agrees old₁ old₂ c := by
  induction t with
  | scalar size => exact iff_of_true rfl trivial
  | string => exact iff_of_true rfl trivial
  | vector item sizeof ih => exact iff_of_true rfl trivial
  | list item ih => exact List.append_left_inj c
  | set item order ih =>
    exact OrderedSet.insertAll_eq_iff hkeys (fun _ => Or.inl) (fun _ hx => Or.inr (Or.inl hx))
      fun _ hx => Or.inr (Or.inr hx)
  | map key mapped order ihk ihm =>
    exact OrderedSet.insertAll_eq_iff hkeys (fun _ => Or.inl) (fun _ hx => Or.inr (Or.inl hx))
      fun _ hx => Or.inr (Or.inr hx)
  | unorderedMap key mapped eq ihk ihm =>
    exact UnorderedSet.emplaceAll_eq_iff hkeys.1 hkeys.2 (fun _ => Or.inl)
      (fun _ hx => Or.inr (Or.inl hx)) fun _ hx => Or.inr (Or.inr hx)
  | done => exact iff_of_true rfl trivial
  | field first rest ihf ihr =>
    exact Prod.ext_iff.trans (and_congr (ihf hkeys.1) (ihr hkeys.2))

end CppType

/-- Two reads of the same bytes return the same and take the same, and make their targets equal iff
the targets agree on what the bytes say. -/
theorem targets_equal_iff (t : CppType α) (old₁ old₂ : α) (b : List Byte)
    (hb : b.length < 2 ^ 32)
    (hkeys : ∀ c u, t.decode.run b = some (c, u) → t.KeysLawful old₁ old₂ c) :
    let r₁ := t.read old₁ (.ofArray b)
    let r₂ := t.read old₂ (.ofArray b)
    (r₁.ok = r₂.ok ∧ r₁.stream = r₂.stream ∧ (r₁.ok = true → r₁.target = r₂.target)) ↔
      ∀ c u, t.decode.run b = some (c, u) → t.Agrees old₁ old₂ c := by
  rcases ArrayInputStream.inBuffer_ofArray hb with ⟨hin, hunread⟩
  have h₁ := t.read_meets old₁ _ hin
  have h₂ := t.read_meets old₂ _ hin
  rw [hunread] at h₁ h₂
  intro r₁ r₂
  rcases t.read_oblivious old₁ old₂ (.ofArray b) with ⟨hok, hstream⟩
  cases hd : t.decode.run b with
  | none =>
    rw [hd] at h₁
    have hno : r₁.ok = false := h₁
    refine iff_of_true ⟨hok, hstream, ?_⟩ nofun
    intro hyes
    exact absurd (hyes.symm.trans hno) (by simp)
  | some p =>
    rcases p with ⟨c, u⟩
    rw [hd] at h₁ h₂
    have hoverlay := t.overlay_eq_iff (hkeys c u hd)
    constructor
    · rintro ⟨-, -, hsame⟩ c' u' hc
      rcases Prod.mk.inj (Option.some.inj hc) with ⟨rfl, rfl⟩
      exact hoverlay.mp (h₁.2.1.symm.trans ((hsame h₁.1).trans h₂.2.1))
    · intro hagree
      refine ⟨hok, hstream, ?_⟩
      intro _
      exact h₁.2.1.trans ((hoverlay.mpr (hagree c u rfl)).trans h₂.2.1.symm)

/-- A number that differs, and a list that does not. -/
theorem targets_equal_iff_struct :
    let t := CppType.field (.scalar 1) (.field (.list (.scalar 1)) .done)
    let r₁ := t.read (5#8, [], ()) (.ofArray [7, 0, 3, 1])
    let r₂ := t.read (9#8, [], ()) (.ofArray [7, 0, 3, 1])
    r₁.ok = r₂.ok ∧ r₁.stream = r₂.stream ∧ (r₁.ok = true → r₁.target = r₂.target) := by
  intro t
  refine (targets_equal_iff t (5#8, [], ()) (9#8, [], ()) _ (by decide) ?_).mpr ?_
  · intro c u _
    exact ⟨trivial, trivial, trivial⟩
  · intro c u _
    exact ⟨trivial, rfl, trivial⟩

/-- An empty list in the bytes leaves a list as it is. -/
theorem list_kept :
    let r₁ := (CppType.list (.scalar 1)).read [] (.ofArray [1])
    let r₂ := (CppType.list (.scalar 1)).read [7#8] (.ofArray [1])
    ¬ (r₁.ok = r₂.ok ∧ r₁.stream = r₂.stream ∧ (r₁.ok = true → r₁.target = r₂.target)) := by
  intro r₁ r₂
  rintro ⟨-, -, hsame⟩
  have hok : r₁.ok = true := by decide
  have h₁ : r₁.target = [] := by decide
  have h₂ : r₂.target = [7#8] := by decide
  have := (h₁.symm.trans (hsame hok)).trans h₂
  exact absurd this (by simp)

end EspAcDimmer.Streams
