import Mathlib.Data.List.Basic

/-! # Decoders of framed formats

A decoder takes a value from the front of a list of tokens and leaves the others. Decoders are put
together one after the other, or repeated: a token in front of each item says that there is one, and
another token ends the list. A grammar relates token lists to the values they stand for, and a
decoder accepts a grammar if it finds exactly the prefixes that are in it.
-/

namespace Framing

variable {τ ι κ : Type*}

/-- A decoder of `ι` from tokens `τ`. It gives back no more tokens than it got. -/
@[ext] structure Decoder (τ ι : Type*) where
  run : List τ → Option (ι × List τ)
  length_le : ∀ {u i u'}, run u = some (i, u') → u'.length ≤ u.length

namespace Decoder

/-- Takes nothing. -/
def pure (τ : Type*) (i : ι) : Decoder τ ι where
  run u := some (i, u)
  length_le h := by
    obtain ⟨-, rfl⟩ := Prod.mk.inj (Option.some.inj h)
    exact Nat.le_refl _

def fail (τ ι : Type*) : Decoder τ ι where
  run _ := none
  length_le h := nomatch h

/-- The next `n` tokens. -/
def take (τ : Type*) (n : Nat) : Decoder τ (List τ) where
  run u := if n ≤ u.length then some (u.take n, u.drop n) else none
  length_le {u i u'} h := by
    split at h
    · obtain ⟨-, rfl⟩ := Prod.mk.inj (Option.some.inj h)
      simp
    · exact absurd h (by simp)

def map (f : ι → κ) (d : Decoder τ ι) : Decoder τ κ where
  run u := (d.run u).map fun p => (f p.1, p.2)
  length_le {u k u'} h := by
    obtain ⟨p, hp, he⟩ := Option.map_eq_some_iff.mp h
    obtain ⟨-, rfl⟩ := Prod.mk.inj he
    exact d.length_le hp

/-- The second decoder depends on what the first one found. -/
def bind (d : Decoder τ ι) (f : ι → Decoder τ κ) : Decoder τ κ where
  run u := (d.run u).bind fun p => (f p.1).run p.2
  length_le {u k u'} h := by
    obtain ⟨p, hp, hf⟩ := Option.bind_eq_some_iff.mp h
    exact Nat.le_trans ((f p.1).length_le hf) (d.length_le hp)

/-- Runs if that many tokens are left. -/
def ifLeft (n : Nat) (d : Decoder τ ι) : Decoder τ ι where
  run u := if n ≤ u.length then d.run u else none
  length_le {u i u'} h := by
    split at h
    · exact d.length_le h
    · exact absurd h (by simp)

def seq (d : Decoder τ ι) (e : Decoder τ κ) : Decoder τ (ι × κ) :=
  d.bind fun i => e.map fun k => (i, k)

/-- Each of two values put into another shape. -/
theorem map_seq {ι' κ' : Type*} (d : Decoder τ ι) (e : Decoder τ κ) (f : ι → ι') (g : κ → κ') :
    (d.map f).seq (e.map g) = (d.seq e).map fun p => (f p.1, g p.2) := by
  ext1
  funext u
  simp only [seq, map, bind]
  cases d.run u with
  | none => rfl
  | some p =>
    simp only [Option.bind_some, Option.map_some]
    cases e.run p.2 <;> rfl

variable [DecidableEq τ] (more stop : τ) (d : Decoder τ ι)

/-- Items behind tokens `more`, up to a token `stop`. -/
def itemsRun : List τ → Option (List ι × List τ)
  | [] => none
  | m :: u =>
    if m = stop then some ([], u)
    else if m = more then
      match _hrun : d.run u with
      | none => none
      | some (i, u') => (itemsRun u').map fun p => (i :: p.1, p.2)
    else none
termination_by u => u.length
decreasing_by
  have := d.length_le _hrun
  simp only [List.length_cons]
  omega

theorem itemsRun_nil : itemsRun more stop d [] = none := by
  rw [itemsRun]

theorem itemsRun_stop (u : List τ) : itemsRun more stop d (stop :: u) = some ([], u) := by
  rw [itemsRun, if_pos rfl]

variable {more stop d}

/-- A token that is neither of the two ends the items with nothing. -/
theorem itemsRun_other {m : τ} {u : List τ} (hstop : m ≠ stop) (hmore : m ≠ more) :
    itemsRun more stop d (m :: u) = none := by
  rw [itemsRun, if_neg hstop, if_neg hmore]

/-- An item that cannot be decoded ends the items with nothing. -/
theorem itemsRun_more_none {u : List τ} (hne : more ≠ stop) (h : d.run u = none) :
    itemsRun more stop d (more :: u) = none := by
  rw [itemsRun, if_neg hne, if_pos rfl]
  split
  · rfl
  · next h' => simp [h] at h'

/-- An item that can be decoded is the first of the items. -/
theorem itemsRun_more {u u' : List τ} {i : ι} (hne : more ≠ stop) (h : d.run u = some (i, u')) :
    itemsRun more stop d (more :: u) =
      (itemsRun more stop d u').map fun p => (i :: p.1, p.2) := by
  rw [itemsRun, if_neg hne, if_pos rfl]
  split
  · next h' => simp [h] at h'
  · next j v h' =>
    rcases Prod.mk.inj (Option.some.inj (h.symm.trans h')) with ⟨rfl, rfl⟩
    rfl

/-- The items give back no more tokens than they got. -/
theorem itemsRun_length_le (u : List τ) : ∀ {is u'},
    itemsRun more stop d u = some (is, u') → u'.length ≤ u.length := by
  fun_induction itemsRun more stop d u with
  | case1 => intro is u' h; simp at h
  | case2 u =>
    intro is u' h
    rcases Prod.mk.inj (Option.some.inj h) with ⟨-, rfl⟩
    simp
  | case3 => intro is u' h; simp at h
  | case4 u i v hrun _ ih =>
    intro is u' h
    rcases Option.map_eq_some_iff.mp h with ⟨p, hp, he⟩
    rcases Prod.mk.inj he with ⟨-, rfl⟩
    have hv := d.length_le hrun
    have hu := ih hp
    simp only [List.length_cons]
    omega
  | case5 => intro is u' h; simp at h

variable (more stop d)

def items : Decoder τ (List ι) where
  run := itemsRun more stop d
  length_le h := itemsRun_length_le _ h

end Decoder

/-! ## Encoded values -/

/-- In front of whatever stands behind `e`, the decoder finds `i` if `P`, and nothing if not. -/
structure Decoder.Finds (d : Decoder τ ι) (e : List τ) (i : ι) (P : Prop) : Prop where
  found : P → ∀ u, d.run (e ++ u) = some (i, u)
  refused : ¬ P → ∀ u, d.run (e ++ u) = none

namespace Decoder

variable {d : Decoder τ ι} {e₁ e₂ : List τ} {i : ι} {P Q : Prop}

theorem finds_pure : (pure τ i).Finds [] i True :=
  ⟨fun _ _ => rfl, fun h => absurd trivial h⟩

/-- What is found may be put into another shape. -/
theorem Finds.map (h : d.Finds e₁ i P) (f : ι → κ) : (d.map f).Finds e₁ (f i) P := by
  constructor
  · intro hP u
    simp only [Decoder.map, h.found hP, Option.map_some]
  · intro hP u
    simp only [Decoder.map, h.refused hP, Option.map_none]

/-- Two encoded values one behind the other are found together, or neither is. -/
theorem Finds.seq {d' : Decoder τ κ} {k : κ} (h₁ : d.Finds e₁ i P) (h₂ : d'.Finds e₂ k Q) :
    (d.seq d').Finds (e₁ ++ e₂) (i, k) (P ∧ Q) := by
  constructor
  · rintro ⟨hP, hQ⟩ u
    simp only [Decoder.seq, bind, Decoder.map, List.append_assoc, h₁.found hP, Option.bind_some,
      h₂.found hQ, Option.map_some]
  · intro hPQ u
    by_cases hP : P
    · have hQ : ¬ Q := fun hQ => hPQ ⟨hP, hQ⟩
      simp only [Decoder.seq, bind, Decoder.map, List.append_assoc, h₁.found hP, Option.bind_some,
        h₂.refused hQ, Option.map_none]
    · simp only [Decoder.seq, bind, List.append_assoc, h₁.refused hP, Option.bind_none]

/-- Encoded items between their frames are found all together, or none is. -/
theorem Finds.items [DecidableEq τ] {more stop : τ} (hne : more ≠ stop) {e : κ → List τ} {f : κ → ι}
    {P : κ → Prop} (h : ∀ k, d.Finds (e k) (f k) (P k)) (ks : List κ) :
    (d.items more stop).Finds ((ks.map e).flatMap (more :: ·) ++ [stop]) (ks.map f)
      (∀ k ∈ ks, P k) := by
  induction ks with
  | nil => exact ⟨fun _ u => itemsRun_stop more stop d u, fun hno => absurd (by simp) hno⟩
  | cons k ks ih =>
    have hsplit : ∀ u, ((k :: ks).map e).flatMap (more :: ·) ++ [stop] ++ u =
        more :: (e k ++ ((ks.map e).flatMap (more :: ·) ++ [stop] ++ u)) := by simp
    constructor
    · intro hP u
      have hk := (h k).found (hP k List.mem_cons_self)
      have hks := ih.found fun k' hk' => hP k' (List.mem_cons_of_mem _ hk')
      rw [hsplit]
      show itemsRun more stop d _ = _
      rw [itemsRun_more hne (hk _)]
      exact congrArg (Option.map _) (hks u)
    · intro hP u
      rw [hsplit]
      show itemsRun more stop d _ = _
      by_cases hPk : P k
      · have hks : ¬ ∀ k' ∈ ks, P k' := fun hks => hP (List.forall_mem_cons.mpr ⟨hPk, hks⟩)
        rw [itemsRun_more hne ((h k).found hPk _)]
        exact congrArg (Option.map _) (ih.refused hks u)
      · exact itemsRun_more_none hne ((h k).refused hPk _)

end Decoder

/-! ## Grammars -/

/-- Token lists and the values they stand for. -/
abbrev Grammar (τ ι : Type*) := List τ → ι → Prop

/-- On inputs shorter than `bound`, what the decoder finds is a prefix in the grammar, and it finds
every such prefix. -/
def Decoder.Accepts (bound : Nat) (d : Decoder τ ι) (G : Grammar τ ι) : Prop :=
  ∀ u, u.length < bound → ∀ i u', d.run u = some (i, u') ↔ ∃ e, u = e ++ u' ∧ G e i

/-- Items in a grammar, framed by `more` and `stop`. -/
inductive Framed (more stop : τ) (G : Grammar τ ι) : Grammar τ (List ι) where
  | stop : Framed more stop G [stop] []
  | more {e es : List τ} {i : ι} {is : List ι} :
      G e i → Framed more stop G es is → Framed more stop G (more :: (e ++ es)) (i :: is)

/-- No token list in the grammar is the beginning of another one. -/
def PrefixFree (G : Grammar τ ι) : Prop :=
  ∀ e₁ e₂ u₁ u₂ i j, G e₁ i → G e₂ j → e₁ ++ u₁ = e₂ ++ u₂ → e₁ = e₂

/-- Another shape of the values changes no token list. -/
theorem PrefixFree.map {G : Grammar τ ι} (h : PrefixFree G) (f : ι → κ) :
    PrefixFree fun e k => ∃ i, G e i ∧ f i = k := by
  rintro e₁ e₂ u₁ u₂ - - ⟨i, hi, -⟩ ⟨j, hj, -⟩ he
  exact h e₁ e₂ u₁ u₂ i j hi hj he

/-- Two values one behind the other, if both grammars are prefix free. -/
theorem PrefixFree.seq {G : Grammar τ ι} {H : Grammar τ κ} (hG : PrefixFree G)
    (hH : PrefixFree H) :
    PrefixFree fun w (p : ι × κ) => ∃ w₁ w₂, w = w₁ ++ w₂ ∧ G w₁ p.1 ∧ H w₂ p.2 := by
  rintro - - u₁ u₂ p q ⟨v₁, v₂, rfl, hv₁, hv₂⟩ ⟨w₁, w₂, rfl, hw₁, hw₂⟩ he
  rw [List.append_assoc, List.append_assoc] at he
  have hfirst : v₁ = w₁ := hG _ _ _ _ _ _ hv₁ hw₁ he
  subst hfirst
  have hsecond : v₂ = w₂ := hH _ _ _ _ _ _ hv₂ hw₂ (List.append_cancel_left he)
  rw [hsecond]

/-- Framed items, as `more` is never taken for `stop`. -/
theorem PrefixFree.framed {more stop : τ} (hne : more ≠ stop) {G : Grammar τ ι}
    (h : PrefixFree G) : PrefixFree (Framed more stop G) := by
  intro e₁ e₂ u₁ u₂ is js h₁ h₂ he
  induction h₁ generalizing e₂ js with
  | stop =>
    cases h₂ with
    | stop => rfl
    | more hG hF => exact absurd (List.cons.inj he).1 hne.symm
  | more hG₁ hF₁ ih =>
    cases h₂ with
    | stop => exact absurd (List.cons.inj he).1 hne
    | more hG₂ hF₂ =>
      simp only [List.cons_append, List.cons.injEq, true_and, List.append_assoc] at he
      have hitem := h _ _ _ _ _ _ hG₁ hG₂ he
      subst hitem
      rw [ih _ _ hF₂ (List.append_cancel_left he)]

namespace Decoder

variable {bound : Nat} {d : Decoder τ ι} {G : Grammar τ ι}

/-- Two grammars with the same token lists are accepted alike. -/
theorem Accepts.of_iff {H : Grammar τ ι} (h : d.Accepts bound G) (hiff : ∀ e i, G e i ↔ H e i) :
    d.Accepts bound H := by
  intro u hu i u'
  simp only [h u hu, hiff]

/-- The decoder that takes nothing accepts the empty list alone. -/
theorem accepts_pure {i₀ : ι} : Accepts bound (pure τ i₀) fun e i => e = [] ∧ i = i₀ := by
  intro u _ i u'
  simp only [pure, Option.some.injEq, Prod.mk.injEq]
  constructor
  · rintro ⟨hi, hu⟩
    exact ⟨[], hu, rfl, hi.symm⟩
  · rintro ⟨e, hu, he, hi⟩
    refine ⟨hi.symm, ?_⟩
    rw [hu, he, List.nil_append]

/-- The decoder of `n` tokens accepts every list of `n` tokens. -/
theorem accepts_take {n : Nat} : Accepts bound (take τ n) fun e i => e.length = n ∧ i = e := by
  intro u _ i u'
  simp only [take]
  constructor
  · intro h
    split at h
    · next hn =>
      rcases Prod.mk.inj (Option.some.inj h) with ⟨hi, hu⟩
      refine ⟨i, ?_, ?_, rfl⟩
      · rw [← hi, ← hu, List.take_append_drop]
      · rw [← hi, List.length_take, Nat.min_eq_left hn]
    · exact absurd h (by simp)
  · rintro ⟨e, hu, he, hi⟩
    rw [hu, ← he, hi]
    simp

/-- What is accepted may be put into another shape. -/
theorem Accepts.map {f : ι → κ} (h : d.Accepts bound G) :
    (d.map f).Accepts bound fun e k => ∃ i, G e i ∧ f i = k := by
  intro u hu k u'
  simp only [Decoder.map, Option.map_eq_some_iff, Prod.exists, Prod.mk.injEq]
  constructor
  · rintro ⟨i, v, hrun, hk, hv⟩
    rcases (h u hu i v).mp hrun with ⟨e, he, hG⟩
    exact ⟨e, by rw [← hv, he], i, hG, hk⟩
  · rintro ⟨e, he, i, hG, hk⟩
    exact ⟨i, u', (h u hu i u').mpr ⟨e, he, hG⟩, hk, rfl⟩

/-- Two decoders one behind the other accept two lists one behind the other. -/
theorem Accepts.seq {e : Decoder τ κ} {H : Grammar τ κ} (hd : d.Accepts bound G)
    (he : e.Accepts bound H) :
    (d.seq e).Accepts bound fun w p => ∃ w₁ w₂, w = w₁ ++ w₂ ∧ G w₁ p.1 ∧ H w₂ p.2 := by
  intro u hu p u'
  simp only [Decoder.seq, bind, Option.bind_eq_some_iff, Decoder.map, Option.map_eq_some_iff,
    Prod.exists, Prod.mk.injEq]
  constructor
  · rintro ⟨i, v, hi, k, v', hk, hp, hv⟩
    rcases (hd u hu i v).mp hi with ⟨w₁, hw₁, hG⟩
    have hshort : v.length < bound := Nat.lt_of_le_of_lt (d.length_le hi) hu
    rcases (he v hshort k v').mp hk with ⟨w₂, hw₂, hH⟩
    refine ⟨w₁ ++ w₂, ?_, w₁, w₂, rfl, hp ▸ hG, hp ▸ hH⟩
    rw [hw₁, hw₂, hv, List.append_assoc]
  · rintro ⟨w, hw, w₁, w₂, hsplit, hG, hH⟩
    have hu₁ : u = w₁ ++ (w₂ ++ u') := by rw [hw, hsplit, List.append_assoc]
    have hi : d.run u = some (p.1, w₂ ++ u') := (hd u hu _ _).mpr ⟨w₁, hu₁, hG⟩
    have hshort : (w₂ ++ u').length < bound := Nat.lt_of_le_of_lt (d.length_le hi) hu
    exact ⟨p.1, w₂ ++ u', hi, p.2, u', (he _ hshort _ _).mpr ⟨w₂, rfl, hH⟩, rfl, rfl⟩

variable [DecidableEq τ] {more stop : τ}

/-- The items that a decoder accepts are accepted between their frames. -/
theorem Accepts.items (hne : more ≠ stop) (h : d.Accepts bound G) :
    (d.items more stop).Accepts bound (Framed more stop G) := by
  intro u hu
  show ∀ is u', itemsRun more stop d u = some (is, u') ↔ _
  induction hlen : u.length using Nat.strongRecOn generalizing u with
  | _ n ih =>
  intro is u'
  constructor
  · intro hrun
    cases u with
    | nil => simp [itemsRun_nil] at hrun
    | cons m v =>
      by_cases hstop : m = stop
      · rw [hstop, itemsRun_stop] at hrun
        rcases Prod.mk.inj (Option.some.inj hrun) with ⟨his, hv⟩
        exact ⟨[stop], by rw [hstop, hv]; rfl, his ▸ .stop⟩
      by_cases hmore : m = more
      · subst hmore
        cases hd : d.run v with
        | none => simp [itemsRun_more_none hne hd] at hrun
        | some p =>
          rcases p with ⟨i, w⟩
          rw [itemsRun_more hne hd] at hrun
          rcases Option.map_eq_some_iff.mp hrun with ⟨⟨js, w'⟩, hw, he⟩
          rcases Prod.mk.inj he with ⟨rfl, rfl⟩
          have hle := d.length_le hd
          simp only [List.length_cons] at hlen hu
          rcases (h v (by omega) i w).mp hd with ⟨e, hev, hG⟩
          rcases (ih w.length (by omega) w (by omega) rfl js w').mp hw with ⟨es, hes, hF⟩
          refine ⟨m :: (e ++ es), ?_, .more hG hF⟩
          rw [hev, hes]
          simp
      · simp [itemsRun_other hstop hmore] at hrun
  · rintro ⟨e, hue, hF⟩
    cases hF with
    | stop =>
      rw [hue]
      exact itemsRun_stop more stop d u'
    | @more e es i is hG hF =>
      have hv : u = more :: (e ++ (es ++ u')) := by rw [hue]; simp
      rw [hv] at hlen hu ⊢
      simp only [List.length_cons, List.length_append] at hlen hu
      have hd : d.run (e ++ (es ++ u')) = some (i, es ++ u') :=
        (h _ (by simp; omega) _ _).mpr ⟨e, rfl, hG⟩
      have hrec := (ih (es ++ u').length (by simp; omega) _ (by simp; omega) rfl is u').mpr
        ⟨es, rfl, hF⟩
      rw [itemsRun_more hne hd, hrec]
      rfl

end Decoder

end Framing
