import EspAcDimmer.Netio.Messages
import EspAcDimmer.Streams.RoundTrip
import Mathlib.Algebra.BigOperators.Group.List.Basic

/-! # Vectors

Nothing writes a vector; what is read as one is a count and as many encoded elements. The iterator
that reads them compares the bytes left with the size of an element in memory, and reads every
element over the one before it. So it matters how much stands behind the last element, and what the
elements are made of.
-/

namespace EspAcDimmer.Streams

open Framing LittleEndian UniqueKeys

variable {α : Type}

/-! ## Reading over an object -/

namespace CppType

/-- A reader that finds `new` in front of it makes it of `old`: nothing of `old` is left that is not
in `new`. -/
def Replaces : {α : Type} → CppType α → α → α → Prop
  | _, scalar _ => fun _ _ => True
  | _, string => fun _ _ => True
  | _, vector _ _ => fun _ _ => True
  | _, list _ => fun old _ => old = []
  | _, set _ _ => fun old new => ∀ x ∈ old, x ∈ new
  | _, map _ _ _ => fun old new => ∀ p ∈ old, p ∈ new
  -- a key that is not equal to itself is taken again
  | _, @unorderedMap _ ν _ _ eq => fun old new => ∀ p ∈ old, p ∈ new ∧ (eq.onKey ν).Equiv p p
  | _, done => fun _ _ => True
  | _, field first rest => fun old new => first.Replaces old.1 new.1 ∧ rest.Replaces old.2 new.2

/-- Reading over an object gives the value iff the object is replaced. -/
theorem overlay_content_iff (t : CppType α) (old : α) (object : t.Object) :
    t.overlay old (t.content object) = t.value object ↔ t.Replaces old (t.value object) := by
  induction t with
  | scalar size => exact iff_of_true rfl trivial
  | string => exact iff_of_true rfl trivial
  | vector item sizeof ih => exact object.elim
  | list item ih => exact List.append_left_eq_self
  | set item order ih => exact OrderedSet.insertAll_toList_iff (t := ⟨_, object.2⟩)
  | map key mapped order ihk ihm => exact OrderedSet.insertAll_toList_iff (t := ⟨_, object.2⟩)
  | unorderedMap key mapped eq ihk ihm => exact UnorderedSet.emplaceAll_iff rfl object.2
  | done => exact iff_of_true rfl trivial
  | field first rest ihf ihr =>
    exact Prod.ext_iff.trans (and_congr (ihf old.1 object.1) (ihr old.2 object.2))

/-- A new object is always replaced. -/
theorem replaces_default (t : CppType α) (object : t.Object) :
    t.Replaces t.default (t.value object) :=
  (t.overlay_content_iff t.default object).mp (t.meaning_content object)

/-- What elements become that are read one over the other. -/
def overlays (item : CppType α) : α → List item.Object → List α
  | _, [] => []
  | old, o :: os =>
    item.overlay old (item.content o) :: overlays item (item.overlay old (item.content o)) os

/-- The elements come out as they are iff each replaces the one before. -/
theorem overlays_eq_iff (item : CppType α) (old : α) (os : List item.Object) :
    item.overlays old os = os.map item.value ↔
      (old :: os.map item.value).IsChain item.Replaces := by
  induction os generalizing old with
  | nil => simp [overlays]
  | cons o os ih =>
    rw [List.map_cons, List.isChain_cons_cons, ← item.overlay_content_iff old o, overlays]
    constructor
    · intro h
      rcases List.cons.inj h with ⟨hhead, htail⟩
      rw [hhead] at htail
      exact ⟨hhead, (ih _).mp htail⟩
    · rintro ⟨hhead, htail⟩
      rw [hhead, (ih _).mpr htail]

end CppType

/-! ## Elements -/

/-- The bytes left before each of the elements would hold one in memory. -/
def Fits (item : CppType α) (sizeof : Nat) (rest : List Byte) : List item.Object → Prop
  | [] => True
  | o :: os => sizeof ≤ ((o :: os).flatMap item.encode ++ rest).length ∧ Fits item sizeof rest os

/-- The last element decides. -/
theorem fits_iff (item : CppType α) (sizeof : Nat) (rest : List Byte) (os : List item.Object) :
    Fits item sizeof rest os ↔
      ∀ o ∈ os.getLast?, sizeof ≤ (item.encode o).length + rest.length := by
  induction os with
  | nil => simp [Fits]
  | cons o os ih =>
    rw [Fits, ih]
    cases os with
    | nil => simp
    | cons o' os =>
      rw [List.getLast?_cons_cons]
      apply and_iff_right_of_imp
      intro hlast
      have hmem : (o' :: os).getLast (by simp) ∈ o' :: os := List.getLast_mem (by simp)
      have hle := hlast _ (List.getLast?_eq_some_getLast (by simp))
      have hlen :=
        (List.sublist_flatten_of_mem (List.mem_map_of_mem (f := item.encode) hmem)).length_le
      rw [← List.flatMap_def] at hlen
      rw [List.length_append, List.flatMap_cons, List.length_append]
      omega

variable {item : CppType α} {sizeof : Nat} {rest : List Byte}

/-- Elements that are short and fit are found, each over the one before. -/
theorem decodeElems_encoded {os : List item.Object} (hshort : ∀ o ∈ os, item.Short o)
    (hfits : Fits item sizeof rest os) (old : α) :
    (decodeElems item.decode item.overlay sizeof os.length old).run
      (os.flatMap item.encode ++ rest) = some (item.overlays old os, rest) := by
  induction os generalizing old with
  | nil => rfl
  | cons o os ih =>
    have hfound := (item.decode_finds o).found (hshort o List.mem_cons_self)
    rw [List.flatMap_cons, List.append_assoc, List.length_cons,
      run_decodeElems_some (by simpa using hfits.1) (hfound _),
      ih (fun o' ho' => hshort o' (List.mem_cons_of_mem _ ho')) hfits.2]
    rfl

/-- Otherwise the vector is refused. -/
theorem decodeElems_refused {os : List item.Object}
    (h : ¬ ((∀ o ∈ os, item.Short o) ∧ Fits item sizeof rest os)) (old : α) :
    (decodeElems item.decode item.overlay sizeof os.length old).run
      (os.flatMap item.encode ++ rest) = none := by
  induction os generalizing old with
  | nil => exact absurd ⟨by simp, trivial⟩ h
  | cons o os ih =>
    rw [List.length_cons]
    by_cases hlen : ((o :: os).flatMap item.encode ++ rest).length < sizeof
    · exact run_decodeElems_short hlen
    rw [List.flatMap_cons, List.append_assoc] at hlen ⊢
    by_cases hshort : item.Short o
    · rw [run_decodeElems_some (Nat.not_lt.mp hlen) ((item.decode_finds o).found hshort _), ih]
      · rfl
      · rintro ⟨hshorts, hfits⟩
        refine h ⟨List.forall_mem_cons.mpr ⟨hshort, hshorts⟩, ?_, hfits⟩
        rw [List.flatMap_cons, List.append_assoc]
        exact Nat.not_lt.mp hlen
    · exact run_decodeElems_none ((item.decode_finds o).refused hshort _)

/-! ## Vectors -/

/-- A vector of these elements, as one would write it. -/
def encodeVector (item : CppType α) (os : List item.Object) : List Byte :=
  toBytes 4 os.length ++ os.flatMap item.encode

/-- What reads a vector of these elements, in front of the bytes `rest`, as they are. -/
structure ReadAsVector (item : CppType α) (sizeof : Nat) (os : List item.Object)
    (rest : List Byte) : Prop where
  count : os.length < 2 ^ 31
  short : ∀ o ∈ os, item.Short o
  room : ∀ o ∈ os.getLast?, sizeof ≤ (item.encode o).length + rest.length
  replaces : (os.map item.value).IsChain item.Replaces

/-- Elements that are not empty are no more than their bytes. -/
theorem length_le_flatMap (hitem : ∀ o, 0 < (item.encode o).length) (os : List item.Object) :
    os.length ≤ (os.flatMap item.encode).length := by
  have hsum := List.length_le_sum_of_one_le (os.map fun o => (item.encode o).length) (by
    intro n hn
    rcases List.mem_map.mp hn with ⟨o, -, rfl⟩
    exact hitem o)
  rwa [List.length_map, ← List.length_flatMap] at hsum

variable (sizeof rest) in
/-- A count that is not negative as an `int` leads to its elements. -/
theorem decodeVector_encoded (hitem : ∀ o, 0 < (item.encode o).length) (os : List item.Object)
    (hcount : os.length < 2 ^ 32) :
    (decodeVector item.decode item.overlay sizeof item.default).run (encodeVector item os ++ rest) =
      if os.length < 2 ^ 31 then
        (decodeElems item.decode item.overlay sizeof os.length item.default).run
          (os.flatMap item.encode ++ rest)
      else none := by
  have hvalue : (BitVec.ofNat 32 os.length).toNat = os.length := by
    rw [BitVec.toNat_ofNat, Nat.mod_eq_of_lt hcount]
  have hrun := (decodeScalar_finds 4 (BitVec.ofNat 32 os.length)).found trivial
    (os.flatMap item.encode ++ rest)
  rw [hvalue] at hrun
  have hle : os.length ≤ (os.flatMap item.encode ++ rest).length := by
    have := length_le_flatMap hitem os
    rw [List.length_append]
    omega
  simp only [decodeVector, decodeItemsCount, Decoder.bind, encodeVector, List.append_assoc, hrun,
    Option.bind_some, hvalue]
  split
  · simp only [Decoder.ifLeft, if_pos hle]
  · rfl

/-- A vector reads its encoded elements as they are iff they are few and short enough, the last one
leaves room, and each replaces the one before. -/
theorem reads_vector_iff (item : CppType α) (sizeof : Nat) (os : List item.Object)
    (rest : List Byte) (vec : List α) (hitem : ∀ o, 0 < (item.encode o).length)
    (hbuf : (encodeVector item os ++ rest).length < 2 ^ 32) :
    let r := (item.vector sizeof).read vec (.ofArray (encodeVector item os ++ rest))
    (r.ok = true ∧ r.target = os.map item.value ∧ r.stream.unread = rest) ↔
      ReadAsVector item sizeof os rest := by
  rcases ArrayInputStream.inBuffer_ofArray hbuf with ⟨hin, hunread⟩
  have hmeets := (item.vector sizeof).read_meets vec _ hin
  have hcount : os.length < 2 ^ 32 := by
    have hle := length_le_flatMap hitem os
    simp only [encodeVector, List.length_append] at hbuf
    omega
  have hrun := decodeVector_encoded sizeof rest hitem os hcount
  rw [hunread] at hmeets
  simp only [CppType.decode, hrun] at hmeets
  intro r
  by_cases hfound : os.length < 2 ^ 31 ∧ (∀ o ∈ os, item.Short o) ∧ Fits item sizeof rest os
  · rcases hfound with ⟨hfew, hshort, hfits⟩
    rw [if_pos hfew, decodeElems_encoded hshort hfits] at hmeets
    rcases hmeets with ⟨hok, htarget, hleft⟩
    have hchain : item.overlays item.default os = os.map item.value ↔
        (os.map item.value).IsChain item.Replaces := by
      rw [item.overlays_eq_iff]
      cases os with
      | nil => simp
      | cons o os =>
        rw [List.map_cons, List.isChain_cons_cons]
        exact and_iff_right (item.replaces_default o)
    constructor
    · rintro ⟨-, hvalues, -⟩
      exact ⟨hfew, hshort, (fits_iff item sizeof rest os).mp hfits,
        hchain.mp (htarget.symm.trans hvalues)⟩
    · intro h
      exact ⟨hok, htarget.trans (hchain.mpr h.replaces), hleft⟩
  · have hnone : (if os.length < 2 ^ 31 then
          (decodeElems item.decode item.overlay sizeof os.length item.default).run
            (os.flatMap item.encode ++ rest)
        else none) = none := by
      split
      · next hfew => exact decodeElems_refused (fun h => hfound ⟨hfew, h⟩) _
      · rfl
    rw [hnone] at hmeets
    have hno : r.ok = false := hmeets
    constructor
    · rintro ⟨hok, -, -⟩
      exact absurd (hok.symm.trans hno) (by simp)
    · intro h
      exact absurd ⟨h.count, h.short, (fits_iff item sizeof rest os).mpr h.room⟩ hfound

/-- Two temperatures, and four bytes that fill the padding of the last one. -/
theorem reads_vector_iff_temperatures :
    let item := Messages.Temperature.fields
    let os : List item.Object := [(1#64, 2#32, ()), (3#64, 4#32, ())]
    let r := (item.vector 16).read [] (.ofArray (encodeVector item os ++ [9, 9, 9, 9]))
    r.ok = true ∧ r.target = os.map item.value ∧ r.stream.unread = [9, 9, 9, 9] := by
  intro item os
  refine (reads_vector_iff item 16 os [9, 9, 9, 9] [] ?_ (by decide)).mpr ?_
  · intro o
    show 0 < (toBytes 8 _ ++ (toBytes 4 _ ++ [])).length
    simp
  · refine ⟨by decide, ?_, ?_, ?_⟩
    · intro o ho
      exact ⟨trivial, trivial, trivial⟩
    · intro o ho
      obtain rfl := Option.some.inj ho
      decide
    · exact .cons_cons ⟨trivial, trivial, trivial⟩ (.singleton _)

/-- One temperature is 12 bytes, and 16 in memory: with nothing behind it, it is not read. -/
theorem reads_no_temperature :
    let item := Messages.Temperature.fields
    let os : List item.Object := [(1#64, 2#32, ())]
    let r := (item.vector 16).read [] (.ofArray (encodeVector item os ++ []))
    (∀ o, 0 < (item.encode o).length) ∧
      ¬ (r.ok = true ∧ r.target = os.map item.value ∧ r.stream.unread = []) := by
  intro item os r
  constructor
  · intro o
    show 0 < (toBytes 8 _ ++ (toBytes 4 _ ++ [])).length
    simp
  · rintro ⟨hok, -, -⟩
    have hno : r.ok = false := by decide
    exact absurd (hok.symm.trans hno) (by simp)

end EspAcDimmer.Streams
