import EspAcDimmer.Streams.Accept

/-! # Lengths that are reserved

`read( std::string& )` reserves what the length field says, and looks at the bytes that are left
afterwards. So a read reserves no more than is left iff every length it comes to is that of a
string that can be there.
-/

namespace EspAcDimmer.Streams

open Framing LittleEndian

variable {α κ ν γ ι C : Type}

/-- The bytes `v` begin with a length, and `c` is the `reserve` that it leads to. -/
def Reserves (v : List Byte) (c : Nat × Nat) : Prop :=
  ∃ itemsCount w, decodeItemsCount.run v = some (itemsCount, w) ∧
    c = (itemsCount.toNat, w.length)

/-- A reader reserves at the places it comes to, and nowhere else. -/
def Logs (read : α → ArrayInputStream → Read α) (comes : List Byte → List Byte → Prop) : Prop :=
  ∀ object s, s.InBuffer → ∀ c, c ∈ (read object s).stream.reserved ↔
    c ∈ s.reserved ∨ ∃ v, comes s.unread v ∧ Reserves v c

theorem reserved_readScalar (size : Nat) (value : BitVec (8 * size)) (s : ArrayInputStream) :
    (readScalar size value s).stream.reserved = s.reserved := by
  unfold readScalar
  split <;> rfl

/-- Nothing is reserved where there is no place to come to. -/
theorem reserved_nowhere {cs : List (Nat × Nat)} {c : Nat × Nat} {place : List Byte → Prop}
    (h : ∀ v, ¬ place v) : c ∈ cs ↔ c ∈ cs ∨ ∃ v, place v ∧ Reserves v c := by
  simp [h]

/-- A reader that comes nowhere. -/
theorem Logs.of_reserved {read : α → ArrayInputStream → Read α}
    {comes : List Byte → List Byte → Prop}
    (h : ∀ object s, (read object s).stream.reserved = s.reserved) (hcomes : ∀ u v, ¬ comes u v) :
    Logs read comes := by
  intro object s _ c
  rw [h object s]
  exact reserved_nowhere fun v => hcomes _ v

/-- What is reserved inside a part and what is reserved behind it. -/
theorem exists_inside_or_behind {inside : List Byte → Prop}
    {behind : List Byte → List Byte → Prop} {c : Nat × Nat} {x : C} {w : List Byte} :
    (∃ v, (inside v ∨ ∃ y w', some (x, w) = some (y, w') ∧ behind w' v) ∧ Reserves v c) ↔
      (∃ v, inside v ∧ Reserves v c) ∨ ∃ v, behind w v ∧ Reserves v c := by
  rw [← exists_or]
  apply exists_congr
  intro v
  rw [← or_and_right]
  refine and_congr_left fun _ => or_congr_right ⟨?_, fun hv => ⟨x, w, rfl, hv⟩⟩
  rintro ⟨y, w', hsome, hv⟩
  cases hsome
  exact hv

/-! ## Strings and vectors -/

/-- A string reserves at its own length. -/
theorem readString_logs : Logs readString fun u v => v = u := by
  intro value s hs c
  have hcount : (readItemsCount s).stream.reserved = s.reserved := reserved_readScalar 4 0 s
  have hmeets := readScalar_meets 4 0 s hs
  unfold readString
  cases hd : (decodeScalar 4).run s.unread with
  | none =>
    have hok : (readItemsCount s).ok = false := (readScalar_meets 4).none hs hd
    simp only [hok, Bool.not_false, if_true, hcount]
    constructor
    · exact Or.inl
    · rintro (hc | ⟨v, rfl, itemsCount, w, hrun, -⟩)
      · exact hc
      · simp [decodeItemsCount, hd] at hrun
  | some p =>
    rcases p with ⟨itemsCount, w⟩
    rcases (readScalar_meets 4).some 0 hs hd with ⟨hok, htarget, hunread⟩
    have hok' : (readItemsCount s).ok = true := hok
    have htarget' : (readItemsCount s).target = itemsCount := htarget
    have hchars : ∀ t : ArrayInputStream,
        (Iterator.range readChar 1 0 itemsCount t).2.reserved = t.reserved := fun t =>
      Iterator.range_keeps (P := fun s => s.reserved = t.reserved) (fun _ hs => hs)
        (fun value s hs => (reserved_readScalar 1 value s).trans hs) 0 itemsCount rfl
    have hleft : (readItemsCount s).stream.size.toNat = w.length := by
      rw [← hunread, ArrayInputStream.length_unread]
      rfl
    simp only [hok', htarget', Bool.not_true, Bool.false_eq_true, if_false, hchars]
    simp only [ArrayInputStream.reserve, hcount, hleft, List.mem_append, List.mem_singleton]
    constructor
    · rintro (hc | hc)
      · exact Or.inl hc
      · exact Or.inr ⟨s.unread, rfl, itemsCount, w, hd, hc⟩
    · rintro (hc | ⟨v, rfl, itemsCount', w', hrun, hc⟩)
      · exact Or.inl hc
      · rcases Prod.mk.inj (Option.some.inj (hd.symm.trans hrun)) with ⟨rfl, rfl⟩
        exact Or.inr hc

section Iterator

variable {read : α → ArrayInputStream → Read α} {d : Decoder Byte C} {overlay : α → C → α}
  {comes : List Byte → List Byte → Prop} {sizeof n : Nat} {u v : List Byte} {c : Nat × Nat}

theorem not_elemsCome_zero : ¬ ElemsCome d comes sizeof 0 u v := nofun

/-- No element is read where the bytes left would not hold one. -/
theorem not_elemsCome_short (h : u.length < sizeof) :
    ¬ ElemsCome d comes sizeof (n + 1) u v := by
  intro hv
  cases hv with
  | inside hle _ => omega
  | behind hle _ _ => omega

/-- The places are inside the next element, or behind it. -/
theorem elemsCome_succ_iff (hle : sizeof ≤ u.length) :
    ElemsCome d comes sizeof (n + 1) u v ↔
      comes u v ∨ ∃ x w, d.run u = some (x, w) ∧ ElemsCome d comes sizeof n w v := by
  constructor
  · intro h
    cases h with
    | inside _ hv => exact Or.inl hv
    | behind _ hrun hv => exact Or.inr ⟨_, _, hrun, hv⟩
  · rintro (hv | ⟨x, w, hrun, hv⟩)
    · exact .inside hle hv
    · exact .behind hle hrun hv

/-- An iterator reserves inside the elements it reads, by induction on them. -/
theorem Iterator.collect_logs (hread : Meets read d overlay)
    (hkeeps : Keeps ArrayInputStream.InBuffer read) (hlogs : Logs read comes) (n : Nat)
    (value : α) {s : ArrayInputStream} (hs : s.InBuffer) :
    let p := next read sizeof ⟨n, value⟩ s
    c ∈ (collect read sizeof n p.1 p.2).2.reserved ↔
      c ∈ s.reserved ∨ ∃ v, ElemsCome d comes sizeof n s.unread v ∧ Reserves v c := by
  induction n generalizing value s with
  | zero =>
    rw [next_end (Or.inr (by simp))]
    simp only
    rw [collect_end rfl]
    exact reserved_nowhere fun _ => not_elemsCome_zero
  | succ n ih =>
    by_cases hlen : s.size.toNat < sizeof
    · rw [next_end (Or.inl hlen)]
      simp only
      rw [collect_end rfl]
      refine reserved_nowhere fun _ => not_elemsCome_short ?_
      rwa [ArrayInputStream.length_unread]
    have hle : sizeof ≤ s.unread.length := by
      rw [ArrayInputStream.length_unread]
      omega
    rw [next_read (by omega) (by simp only; omega)]
    have hhere := hlogs value s hs c
    simp only [elemsCome_succ_iff hle]
    cases hd : d.run s.unread with
    | none =>
      rw [hread.none hs hd]
      simp only [Bool.false_eq_true, if_false]
      rw [collect_end rfl, hhere]
      simp only [reduceCtorEq, false_and, exists_false, or_false]
    | some p =>
      rcases p with ⟨x, u⟩
      rcases hread.some value hs hd with ⟨hok, htarget, hunread⟩
      have hitems : ((n + 1 : Nat) : Int) - 1 = n := by omega
      have hrec := ih (overlay value x) (hkeeps value s hs)
      rw [hok, htarget, hitems]
      simp only [if_true]
      rw [collect_item (by simp only [endOfIterations]; omega)]
      simp only at hrec ⊢
      rw [hrec, hhere, hunread, or_assoc, exists_inside_or_behind]

/-- A count that `begin` takes for an end leads to no element. -/
theorem Iterator.range_logs (hread : Meets read d overlay)
    (hkeeps : Keeps ArrayInputStream.InBuffer read) (hlogs : Logs read comes) (value : α)
    (itemsCount : SizeType) {s : ArrayInputStream} (hs : s.InBuffer) :
    c ∈ (range read sizeof value itemsCount s).2.reserved ↔ c ∈ s.reserved ∨
      ∃ v, (itemsCount.toNat < 2 ^ 31 ∧ itemsCount.toNat ≤ s.unread.length ∧
        ElemsCome d comes sizeof itemsCount.toNat s.unread v) ∧ Reserves v c := by
  unfold range
  rw [ArrayInputStream.length_unread]
  by_cases h : itemsCount.toNat < 2 ^ 31 ∧ itemsCount.toNat ≤ s.size.toNat
  · rw [begin_elems h.1 h.2]
    simp only [collect_logs hread hkeeps hlogs itemsCount.toNat value hs, h.1, h.2, true_and]
  · rw [begin_end h]
    simp only
    rw [collect_end rfl]
    exact reserved_nowhere fun _ hv => h ⟨hv.1, hv.2.1⟩

/-- A vector reserves inside its elements only. -/
theorem readVector_logs (hread : Meets read d overlay)
    (hkeeps : Keeps ArrayInputStream.InBuffer read) (hlogs : Logs read comes) (value : α) :
    Logs (readVector read sizeof value) fun u v =>
      ∃ itemsCount u', decodeItemsCount.run u = some (itemsCount, u') ∧
        itemsCount.toNat < 2 ^ 31 ∧ itemsCount.toNat ≤ u'.length ∧
        ElemsCome d comes sizeof itemsCount.toNat u' v := by
  intro vec s hs c
  have hcount : (readItemsCount s).stream.reserved = s.reserved := reserved_readScalar 4 0 s
  have hin : (readItemsCount s).stream.InBuffer :=
    readScalar_keeps ArrayInputStream.inBuffer_kept 4 0 s hs
  unfold readVector
  cases hd : (decodeScalar 4).run s.unread with
  | none =>
    have hok : (readItemsCount s).ok = false := (readScalar_meets 4).none hs hd
    simp only [hok, Bool.not_false, if_true, hcount]
    constructor
    · exact Or.inl
    · rintro (hc | ⟨v, ⟨itemsCount, u, hrun, -⟩, -⟩)
      · exact hc
      · simp [decodeItemsCount, hd] at hrun
  | some p =>
    rcases p with ⟨itemsCount, u⟩
    rcases (readScalar_meets 4).some 0 hs hd with ⟨hok, htarget, hunread⟩
    have hok' : (readItemsCount s).ok = true := hok
    have htarget' : (readItemsCount s).target = itemsCount := htarget
    have hunread' : (readItemsCount s).stream.unread = u := hunread
    simp only [hok', htarget', Bool.not_true, Bool.false_eq_true, if_false]
    rw [Iterator.range_logs hread hkeeps hlogs value itemsCount hin, hcount, hunread']
    constructor
    · rintro (hc | ⟨v, helems, hc⟩)
      · exact Or.inl hc
      · exact Or.inr ⟨v, ⟨itemsCount, u, hd, helems⟩, hc⟩
    · rintro (hc | ⟨v, ⟨itemsCount', u', hrun, helems⟩, hc⟩)
      · exact Or.inl hc
      · rcases Prod.mk.inj (Option.some.inj (hd.symm.trans hrun)) with ⟨rfl, rfl⟩
        exact Or.inr ⟨v, helems, hc⟩

end Iterator

/-! ## Containers with markers -/

section Items

variable {d : Decoder Byte C} {comes : List Byte → List Byte → Prop} {atMarker : Prop}
  {u v : List Byte}

/-- Without bytes there is no marker, and so no item. -/
theorem not_itemsCome_nil (hno : ¬ atMarker) : ¬ ItemsCome d comes atMarker [] v := by
  intro h
  cases h with
  | here hat => exact hno hat

/-- Behind a marker the places are inside the next item, or behind it. -/
theorem itemsCome_cons_iff (hno : ¬ atMarker) {m : Byte} :
    ItemsCome d comes atMarker (m :: u) v ↔ m = SerializationMarker.item ∧
      (comes u v ∨ ∃ i u', d.run u = some (i, u') ∧ ItemsCome d comes atMarker u' v) := by
  constructor
  · intro h
    cases h with
    | here hat => exact absurd hat hno
    | inside hv => exact ⟨rfl, Or.inl hv⟩
    | behind hrun hv => exact ⟨rfl, Or.inr ⟨_, _, hrun, hv⟩⟩
  · rintro ⟨rfl, hv | ⟨i, u', hrun, hv⟩⟩
    · exact .inside hv
    · exact .behind hrun hv

/-- What the items of a container come to, the container comes to. -/
theorem readMarked_logs {readItem : γ → ArrayInputStream → Read γ} {f : C → ι} {add : γ → ι → γ}
    (hitem : Meets readItem (d.map f) add) (hkeeps : ∀ P, Kept P → Keeps P readItem)
    (hlogs : Logs readItem comes) (hno : ¬ atMarker) :
    Logs (readMarked readItem) (ItemsCome d comes atMarker) := by
  have hne : SerializationMarker.item ≠ SerializationMarker.end_ := by decide
  intro container s hs c
  -- on the number of bytes left
  induction hlen : s.size.toNat using Nat.strongRecOn generalizing container s with
  | _ n ih =>
  have hin := readScalar_keeps ArrayInputStream.inBuffer_kept 1 0 s hs
  have hsame := reserved_readScalar 1 0 s
  have hhere := hlogs container _ hin c
  rw [hsame] at hhere
  rw [readMarked_eq fun n => hkeeps _ (size_kept n)]
  cases hu : s.unread with
  | nil =>
    have hd : (decodeScalar 1).run s.unread = none := by
      rw [hu, run_decodeScalar]
      rfl
    simp only [(readScalar_meets 1).none hs hd, Bool.not_false, if_true, hsame,
      not_itemsCome_nil hno, false_and, exists_false, or_false]
  | cons m u =>
    have hd : (decodeScalar 1).run s.unread = some (m, u) := by
      rw [hu, run_decodeScalar]
      simp [ofBytes]
    rcases (readScalar_meets 1).some 0 hs hd with ⟨hok, htarget, hunread⟩
    have hless := size_readMarker hok
    simp only [hok, htarget, Bool.not_true, Bool.false_eq_true, if_false, itemsCome_cons_iff hno]
    rw [hunread] at hhere
    by_cases hstop : m = SerializationMarker.end_
    · rw [if_pos hstop.symm, hsame]
      simp only [hstop, hne.symm, false_and, exists_false, or_false]
    by_cases hmore : m = SerializationMarker.item
    · rw [if_neg (Ne.symm hstop), if_neg (not_not.mpr hmore.symm)]
      simp only [hmore, true_and]
      cases hi : d.run u with
      | none =>
        have hnone : (d.map f).run (readScalar 1 0 s).stream.unread = none := by
          rw [hunread]
          exact congrArg (Option.map _) hi
        rw [hitem.none hin hnone]
        simpa using hhere
      | some p =>
        rcases p with ⟨i, w⟩
        have hsome : (d.map f).run (readScalar 1 0 s).stream.unread = some (f i, w) := by
          rw [hunread]
          exact congrArg (Option.map _) hi
        rcases hitem.some container hin hsome with ⟨hiok, -, hiunread⟩
        have hiless := hkeeps _ (size_kept _) container _
          (Nat.le_refl (readScalar 1 0 s).stream.size.toNat)
        have hrest := ih _ (by omega) (readItem container (readScalar 1 0 s).stream).target _
          (hkeeps _ ArrayInputStream.inBuffer_kept container _ hin) rfl
        rw [hiok]
        simp only [Bool.not_true, Bool.false_eq_true, if_false]
        rw [hrest, hhere, hiunread, or_assoc, exists_inside_or_behind]
    · rw [if_neg (Ne.symm hstop), if_pos (Ne.symm hmore), hsame]
      simp only [hmore, false_and, exists_false, or_false]

end Items

section Item

variable {read : α → ArrayInputStream → Read α} {value : α} {d : Decoder Byte C}
  {overlay : α → C → α} {comes : List Byte → List Byte → Prop} {atMarker : Prop}

/-- A set reserves inside its elements. -/
theorem readSet_logs {insert : γ → α → γ} (hread : Meets read d overlay)
    (hkeeps : ∀ P, Kept P → Keeps P read) (hlogs : Logs read comes) (hno : ¬ atMarker) :
    Logs (readSet insert read value) (ItemsCome d comes atMarker) := by
  refine readMarked_logs (insertItem_meets hread insert)
    (fun P hP => insertItem_keeps (hkeeps P hP) insert) (fun set s hs c => ?_) hno
  have hval := hlogs value s hs c
  simp only
  split <;> exact hval

/-- So does a list. -/
theorem readListLikeContainer_logs (hread : Meets read d overlay)
    (hkeeps : ∀ P, Kept P → Keeps P read) (hlogs : Logs read comes) (hno : ¬ atMarker) :
    Logs (readListLikeContainer read value) (ItemsCome d comes atMarker) :=
  readMarked_logs (appendItem_meets hread) (fun P hP _ s hs => hkeeps P hP value s hs)
    (fun _ s hs c => hlogs value s hs c) hno

end Item

/-! ## Any type -/

/-- A struct reserves inside its fields. -/
theorem readFields_logs {readFirst : κ → ArrayInputStream → Read κ} {d : Decoder Byte C}
    {overlay : κ → C → κ} {readRest : ν → ArrayInputStream → Read ν}
    {first second : List Byte → List Byte → Prop} (hfirst : Meets readFirst d overlay)
    (hkeeps : Keeps ArrayInputStream.InBuffer readFirst) (hlogs₁ : Logs readFirst first)
    (hlogs₂ : Logs readRest second) :
    Logs (readFields readFirst readRest) (BothCome d first second) := by
  intro object s hs c
  have h₁ := hlogs₁ object.1 s hs c
  have h₂ := hlogs₂ object.2 _ (hkeeps object.1 s hs) c
  unfold readFields BothCome
  cases hd : d.run s.unread with
  | none =>
    simp only [(hfirst.none hs hd : (readFirst object.1 s).ok = false)]
    simpa using h₁
  | some p =>
    rcases p with ⟨i, u⟩
    rcases hfirst.some object.1 hs hd with ⟨hok, -, hunread⟩
    simp only [hok, Bool.not_true, Bool.false_eq_true, if_false]
    rw [h₂, h₁, hunread, or_assoc, exists_inside_or_behind]

/-- A map reserves inside its keys and its values. -/
theorem readMapLikeContainer_logs {emplace : γ → κ × ν → γ} (key : CppType κ) (mapped : CppType ν)
    {first second : List Byte → List Byte → Prop} {atMarker : Prop}
    (hkey : Logs key.read first) (hmapped : Logs mapped.read second) (hno : ¬ atMarker) :
    Logs (readMapLikeContainer emplace key.read key.default mapped.read mapped.default)
      (ItemsCome (key.decode.seq mapped.decode) (BothCome key.decode first second) atMarker) := by
  have hkeeps := key.read_keeps ArrayInputStream.inBuffer_kept
  rw [readMapLikeContainer_eq]
  exact readSet_logs (readFields_meets key.read_meets mapped.read_meets hkeeps)
    (fun P hP => readFields_keeps (key.read_keeps hP) (mapped.read_keeps hP))
    (readFields_logs key.read_meets hkeeps hkey hmapped) hno

/-- Every read reserves at the lengths it comes to: one case for each kind of type. -/
theorem CppType.read_logs (t : CppType α) : Logs t.read (t.Comes .length) := by
  have hno : ¬ Probe.length = Probe.marker := nofun
  induction t with
  | scalar size => exact .of_reserved (reserved_readScalar size) fun _ _ h => h
  | string =>
    intro value s hs c
    have hplace : ∀ u v, CppType.string.Comes .length u v ↔ v = u :=
      fun u v => ⟨And.right, fun h => ⟨rfl, h⟩⟩
    simp only [hplace]
    exact readString_logs value s hs c
  | vector item sizeof ih =>
    exact readVector_logs item.read_meets (item.read_keeps ArrayInputStream.inBuffer_kept) ih _
  | list item ih =>
    exact readListLikeContainer_logs item.read_meets (fun P hP => item.read_keeps hP) ih hno
  | set item order ih => exact readSet_logs item.read_meets (fun P hP => item.read_keeps hP) ih hno
  | map key mapped order ihk ihm => exact readMapLikeContainer_logs key mapped ihk ihm hno
  | unorderedMap key mapped eq ihk ihm => exact readMapLikeContainer_logs key mapped ihk ihm hno
  | done => exact .of_reserved (fun _ _ => rfl) fun _ _ h => h
  | field first rest ihf ihr =>
    exact readFields_logs first.read_meets (first.read_keeps ArrayInputStream.inBuffer_kept) ihf ihr

/-! ## No more than is left -/

/-- No `reserve` asked for more than the bytes that were left. -/
def ArrayInputStream.ReservesWithin (s : ArrayInputStream) : Prop := ∀ c ∈ s.reserved, c.1 ≤ c.2

/-- A length that is more than what is behind it is what gets no reader past it. -/
theorem reserves_over_iff (v : List Byte) :
    (∃ c, Reserves v c ∧ c.2 < c.1) ↔ Probe.length.Fails v := by
  constructor
  · rintro ⟨c, ⟨itemsCount, w, hrun, rfl⟩, hlt⟩
    have hlen := itemsCount.isLt
    rw [decodeItemsCount, run_decodeScalar] at hrun
    split at hrun
    · next hle =>
      rcases Prod.mk.inj (Option.some.inj hrun) with ⟨hcount, hw⟩
      have htake : (v.take 4).length = 4 := by simp [hle]
      have hof := ofBytes_lt (v.take 4)
      rw [htake] at hof
      have hvalue : itemsCount.toNat = ofBytes (v.take 4) := by
        rw [← hcount, BitVec.toNat_ofNat, Nat.mod_eq_of_lt (by omega)]
      have hbytes := toBytes_ofBytes (v.take 4)
      rw [htake, ← hvalue] at hbytes
      exact ⟨itemsCount.toNat, w, by rw [hbytes, ← hw, List.take_append_drop], hlen, hlt⟩
    · exact absurd hrun (by simp)
  · rintro ⟨n, w, hv, hn, hlt⟩
    have hvalue : (BitVec.ofNat 32 n).toNat = n := by
      rw [BitVec.toNat_ofNat, Nat.mod_eq_of_lt hn]
    refine ⟨(n, w.length), ⟨BitVec.ofNat 32 n, w, ?_, by rw [hvalue]⟩, hlt⟩
    rw [hv]
    exact decodeItemsCount_run hn w

/-- A read of whatever type from whatever bytes reserves no more than is left iff none of the
lengths it comes to is more than the bytes behind it. -/
theorem reserves_within_iff (t : CppType α) (object : α) (b : List Byte)
    (hb : b.length < 2 ^ 32) :
    (t.read object (.ofArray b)).stream.ReservesWithin ↔
      ∀ v, t.Comes .length b v → ¬ Probe.length.Fails v := by
  rcases ArrayInputStream.inBuffer_ofArray hb with ⟨hin, hunread⟩
  have hlogs := t.read_logs object _ hin
  rw [hunread] at hlogs
  constructor
  · intro hwithin v hv hfails
    rcases (reserves_over_iff v).mpr hfails with ⟨c, hc, hlt⟩
    have hle := hwithin c ((hlogs c).mpr (Or.inr ⟨v, hv, hc⟩))
    omega
  · intro hfit c hc
    rcases (hlogs c).mp hc with hc | ⟨v, hv, hc⟩
    · exact absurd hc (by simp [ArrayInputStream.ofArray])
    · by_contra hlt
      exact hfit v hv ((reserves_over_iff v).mp ⟨c, hc, by omega⟩)

/-- A string of two characters, and a byte that is not its own. -/
theorem reserves_within_iff_string :
    (CppType.string.read [] (.ofArray [2, 0, 0, 0, 104, 105, 255])).stream.ReservesWithin := by
  refine (reserves_within_iff .string [] _ (by decide)).mpr ?_
  rintro v ⟨-, rfl⟩ ⟨n, w, hv, hn, hlt⟩
  have hrun := decodeItemsCount_run hn w
  rw [← hv] at hrun
  have hval : decodeItemsCount.run [2, 0, 0, 0, 104, 105, 255] = some (2, [104, 105, 255]) := by
    decide
  rcases Prod.mk.inj (Option.some.inj (hval.symm.trans hrun)) with ⟨hn', hw⟩
  have htwo := congrArg BitVec.toNat hn'
  rw [BitVec.toNat_ofNat, Nat.mod_eq_of_lt hn] at htwo
  rw [← hw, ← htwo] at hlt
  exact absurd hlt (by decide)

/-- Four bytes `FF`, and nothing behind them: all but the whole address space is reserved, which no
`max_size` allows. -/
theorem reserve_all :
    let r := CppType.string.read [] (.ofArray [0xFF, 0xFF, 0xFF, 0xFF])
    r.stream.reserved = [(2 ^ 32 - 1, 0)] ∧ ¬ r.stream.ReservesWithin := by
  intro r
  have hr : r.stream.reserved = [(2 ^ 32 - 1, 0)] := by decide
  refine ⟨hr, ?_⟩
  intro hwithin
  exact absurd (hwithin (2 ^ 32 - 1, 0) (by simp [hr])) (by decide)

end EspAcDimmer.Streams
