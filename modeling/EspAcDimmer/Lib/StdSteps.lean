import EspAcDimmer.Lib.Mutex
import EspAcDimmer.Lib.StdList

/-! # `std::list` algorithms, one element at a time

Where the small steps of a program lead that contain the loop of `std::find_if` or of
`std::remove_if`, one iteration a step.
-/

namespace StdList

open Mutex

variable {α β : Type*} (micro : α → Option α) (p : β → Bool) (l : List β)

/-- `looking i` is the place in front of the look at position `i`. -/
theorem find_steps (looking : Nat → α) (found : Nat → β → α) (missing : α)
    (hnext : ∀ i x, l[i]? = some x → p x = false → micro (looking i) = some (looking (i + 1)))
    (hfound : ∀ i x, l[i]? = some x → p x = true → micro (looking i) = some (found i x))
    (hmissing : ∀ i, l[i]? = none → micro (looking i) = some missing) :
    Steps micro (looking 0) (((l.find? p).map (found (l.findIdx p))).getD missing) := by
  have h : ∀ i ≤ l.findIdx p, Steps micro (looking 0) (looking i) := by
    intro i
    induction i with
    | zero => exact fun _ => .refl
    | succ i ih =>
      intro hi
      have hlt : i < l.findIdx p := hi
      have hbound : i < l.length := Nat.lt_of_lt_of_le hlt List.findIdx_le_length
      have hnot : p l[i] = false := by simpa using List.not_of_lt_findIdx hlt
      exact (ih (Nat.le_of_lt hlt)).tail (hnext i l[i] (List.getElem?_eq_getElem hbound) hnot)
  refine (h _ (Nat.le_refl _)).tail ?_
  have hget : l[l.findIdx p]? = l.find? p := List.find?_eq_getElem?_findIdx.symm
  cases hfind : l.find? p with
  | none => exact hmissing _ (hget.trans hfind)
  | some x => exact hfound _ x (hget.trans hfind) (List.find?_some hfind)

/-- `removing first i l` is the place in front of the look at position `i`, where `first` is the
position that the next element to keep is moved to, and `l` the list so far. -/
theorem removeIf_steps (removing : Nat → Nat → List β → α) (removed : List β → α)
    (hdrop : ∀ first i l x, l[i]? = some x → p x = true →
      micro (removing first i l) = some (removing first (i + 1) l))
    (hkeep : ∀ first i l x, l[i]? = some x → p x = false →
      micro (removing first i l) = some (removing (first + 1) (i + 1) (l.set first x)))
    (hend : ∀ first i l, l[i]? = none → micro (removing first i l) = some (removed l)) :
    Steps micro (removing 0 0 l) (removed (removeIf p l)) := by
  let kept i := (l.take i).filter fun x => !p x
  have h : ∀ i ≤ l.length, Steps micro (removing 0 0 l)
      (removing (kept i).length i (kept i ++ l.drop (kept i).length)) := by
    intro i
    induction i with
    | zero => exact fun _ => .refl
    | succ i ih =>
      intro hi
      refine (ih (Nat.le_of_succ_le hi)).tail ?_
      have hle : (kept i).length ≤ i :=
        Nat.le_trans (List.length_filter_le _ _) (List.length_take_le i l)
      -- what the loop looks at has not been moved to yet
      have hget : (kept i ++ l.drop (kept i).length)[i]? = some l[i] := by
        rw [List.getElem?_append_right hle, List.getElem?_drop, Nat.add_sub_cancel' hle,
          List.getElem?_eq_getElem hi]
      have htake : kept (i + 1) = kept i ++ if p l[i] then [] else [l[i]] := by
        simp only [kept, List.take_succ_eq_append_getElem hi, List.filter_append]
        cases hp : p l[i] <;> simp [hp]
      cases hp : p l[i] with
      | true =>
        rw [hdrop _ _ _ _ hget hp, htake, if_pos hp, List.append_nil]
      | false =>
        have hset : (l.drop (kept i).length).set 0 l[i] = l[i] :: l.drop ((kept i).length + 1) := by
          rw [List.drop_eq_getElem_cons (Nat.lt_of_le_of_lt hle hi), List.set_cons_zero]
        rw [hkeep _ _ _ _ hget hp, htake, List.set_append_right _ _ (Nat.le_refl _), Nat.sub_self,
          hset]
        simp [hp]
  refine (h l.length (Nat.le_refl _)).tail ?_
  have hall : kept l.length ++ l.drop (kept l.length).length = removeIf p l := by
    simp only [kept, List.take_length, removeIf]
  have hbehind : (removeIf p l)[l.length]? = none :=
    List.getElem?_eq_none_iff.mpr (Nat.le_of_eq length_removeIf)
  rw [hall, hend _ _ _ hbehind]

end StdList
