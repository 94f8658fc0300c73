import EspAcDimmer.Streams.RoundTrip

/-! # What is accepted

The format as a grammar, which the stream has no part in, and the places where a reader tests what
it has read. A decoder of a type without vectors accepts its grammar; what fails a test is refused,
however deep inside the type the reader has come to it.
-/

namespace EspAcDimmer.Streams

open Framing LittleEndian UniqueKeys

variable {α κ ν ι C : Type}

/-! ## The grammar -/

/-- The format is defined for what can be written. -/
def CppType.VectorFree : {α : Type} → CppType α → Prop
  | _, .scalar _ => True
  | _, .string => True
  | _, .vector _ _ => False
  | _, .list item => item.VectorFree
  | _, .set item _ => item.VectorFree
  | _, .map key mapped _ => key.VectorFree ∧ mapped.VectorFree
  | _, .unorderedMap key mapped _ => key.VectorFree ∧ mapped.VectorFree
  | _, .done => True
  | _, .field first rest => first.VectorFree ∧ rest.VectorFree

def Scalar (size : Nat) : Grammar Byte (BitVec (8 * size)) :=
  fun e c => e.length = size ∧ c = BitVec.ofNat (8 * size) (ofBytes e)

/-- The number of the characters, and the characters. -/
def Chars : Grammar Byte (List Byte) :=
  fun e c => c.length < 2 ^ 32 ∧ e = toBytes 4 c.length ++ c

/-- Two parts, one behind the other. -/
def Both (G : Grammar Byte κ) (H : Grammar Byte ν) : Grammar Byte (κ × ν) :=
  fun e p => ∃ e₁ e₂, e = e₁ ++ e₂ ∧ G e₁ p.1 ∧ H e₂ p.2

/-- Bytes of a part, and what becomes of them. -/
def Made (G : Grammar Byte C) (f : C → α) : Grammar Byte α :=
  fun e x => ∃ c, G e c ∧ f c = x

/-- `Item` before each of the parts, and `End`. -/
def Marked (G : Grammar Byte ι) : Grammar Byte (List ι) :=
  Framed SerializationMarker.item SerializationMarker.end_ G

def CppType.Encodes : {α : Type} → (t : CppType α) → Grammar Byte t.Content
  | _, .scalar size => Scalar size
  | _, .string => Chars
  | _, .vector _ _ => fun _ _ => False
  | _, .list item => Marked (Made item.Encodes item.meaning)
  | _, .set item _ => Marked (Made item.Encodes item.meaning)
  | _, .map key mapped _ =>
    Marked (Both (Made key.Encodes key.meaning) (Made mapped.Encodes mapped.meaning))
  | _, .unorderedMap key mapped _ =>
    Marked (Both (Made key.Encodes key.meaning) (Made mapped.Encodes mapped.meaning))
  | _, .done => fun e c => e = [] ∧ c = ()
  | _, .field first rest => Both first.Encodes rest.Encodes

/-! ## Acceptance -/

/-- A scalar is any bytes of its size. -/
theorem decodeScalar_accepts (size bound : Nat) :
    (decodeScalar size).Accepts bound (Scalar size) := by
  refine (Decoder.accepts_take.map (f := fun e => BitVec.ofNat (8 * size) (ofBytes e))).of_iff ?_
  intro e c
  constructor
  · rintro ⟨i, ⟨hlen, hi⟩, hc⟩
    exact ⟨hlen, by rw [← hc, hi]⟩
  · rintro ⟨hlen, hc⟩
    exact ⟨e, ⟨hlen, rfl⟩, hc.symm⟩

/-- Below this bound no string is too long for an `int`. -/
theorem decodeString_accepts : decodeString.Accepts (2 ^ 31) Chars := by
  intro u hu c u'
  constructor
  · intro hrun
    rcases Option.bind_eq_some_iff.mp hrun with ⟨⟨itemsCount, w⟩, hcount, hchars⟩
    rcases (decodeScalar_accepts 4 (2 ^ 31) u hu _ _).mp hcount with ⟨e, he, hlen, hcount⟩
    have hvalue : itemsCount.toNat = ofBytes e := by
      have hlt := ofBytes_lt e
      rw [hlen] at hlt
      rw [hcount, BitVec.toNat_ofNat, Nat.mod_eq_of_lt (by omega)]
    by_cases hint : itemsCount.toNat < 2 ^ 31
    · simp only [if_pos hint, Decoder.take] at hchars
      split at hchars
      · next hle =>
        rcases Prod.mk.inj (Option.some.inj hchars) with ⟨hc, hu'⟩
        have hclen : c.length = itemsCount.toNat := by
          rw [← hc, List.length_take, Nat.min_eq_left hle]
        have hbytes : toBytes 4 c.length = e := by
          rw [hclen, hvalue, ← hlen, toBytes_ofBytes]
        refine ⟨e ++ c, ?_, by omega, by rw [hbytes]⟩
        rw [he, List.append_assoc, ← hc, ← hu', List.take_append_drop]
      · exact absurd hchars (by simp)
    · simp only [if_neg hint, Decoder.fail] at hchars
      exact absurd hchars (by simp)
  · rintro ⟨e, he, hlt, hce⟩
    have hshort : c.length < 2 ^ 31 := by
      rw [he, hce] at hu
      simp only [List.length_append] at hu
      omega
    rw [he, hce]
    exact (decodeString_finds ⟨c, hlt⟩).found hshort u'

/-- The decoder of a type accepts its grammar. -/
theorem CppType.decode_accepts (t : CppType α) (ht : t.VectorFree) :
    t.decode.Accepts (2 ^ 31) t.Encodes := by
  have hne : SerializationMarker.item ≠ SerializationMarker.end_ := by decide
  induction t with
  | scalar size => exact decodeScalar_accepts size _
  | string => exact decodeString_accepts
  | vector item sizeof ih => exact ht.elim
  | list item ih => exact (ih ht).map.items hne
  | set item order ih => exact (ih ht).map.items hne
  | map key mapped order ihk ihm => exact ((ihk ht.1).map.seq (ihm ht.2).map).items hne
  | unorderedMap key mapped eq ihk ihm => exact ((ihk ht.1).map.seq (ihm ht.2).map).items hne
  | done => exact Decoder.accepts_pure
  | field first rest ihf ihr => exact (ihf ht.1).seq (ihr ht.2)

theorem scalar_prefixFree (size : Nat) : PrefixFree (Scalar size) := by
  rintro e₁ e₂ u₁ u₂ - - ⟨h₁, -⟩ ⟨h₂, -⟩ he
  exact (List.append_inj he (h₁.trans h₂.symm)).1

/-- The length says where a string ends. -/
theorem chars_prefixFree : PrefixFree Chars := by
  rintro - - u₁ u₂ c d ⟨hc, rfl⟩ ⟨hd, rfl⟩ he
  rw [List.append_assoc, List.append_assoc] at he
  rcases List.append_inj he (by simp) with ⟨hcount, hchars⟩
  have hlen : c.length = d.length := by
    rw [← ofBytes_toBytes (n := 4) hc, hcount, ofBytes_toBytes (n := 4) hd]
  rw [hcount, (List.append_inj hchars hlen).1]

/-- No encoding goes on where another one ends. -/
theorem CppType.prefixFree (t : CppType α) : PrefixFree t.Encodes := by
  have hne : SerializationMarker.item ≠ SerializationMarker.end_ := by decide
  induction t with
  | scalar size => exact scalar_prefixFree size
  | string => exact chars_prefixFree
  | vector item sizeof ih => exact fun _ _ _ _ _ _ h => h.elim
  | list item ih => exact (ih.map _).framed hne
  | set item order ih => exact (ih.map _).framed hne
  | map key mapped order ihk ihm => exact ((ihk.map _).seq (ihm.map _)).framed hne
  | unorderedMap key mapped eq ihk ihm => exact ((ihk.map _).seq (ihm.map _)).framed hne
  | done =>
    rintro - - u₁ u₂ - - ⟨rfl, -⟩ ⟨rfl, -⟩ -
    rfl
  | field first rest ihf ihr => exact ihf.seq ihr

/-! ## Where a reader tests what it has read -/

inductive Probe where
  | marker
  | length

/-- In a container: before a marker, or inside an item. -/
inductive ItemsCome (d : Decoder Byte ι) (item : List Byte → List Byte → Prop) (atMarker : Prop) :
    List Byte → List Byte → Prop where
  | here {u : List Byte} : atMarker → ItemsCome d item atMarker u u
  | inside {u v : List Byte} :
      item u v → ItemsCome d item atMarker (SerializationMarker.item :: u) v
  | behind {u u' v : List Byte} {i : ι} :
      d.run u = some (i, u') → ItemsCome d item atMarker u' v →
      ItemsCome d item atMarker (SerializationMarker.item :: u) v

/-- In a vector: inside one of the next `n` elements. -/
inductive ElemsCome (d : Decoder Byte C) (item : List Byte → List Byte → Prop) (sizeof : Nat) :
    Nat → List Byte → List Byte → Prop where
  | inside {n : Nat} {u v : List Byte} :
      sizeof ≤ u.length → item u v → ElemsCome d item sizeof (n + 1) u v
  | behind {n : Nat} {u u' v : List Byte} {c : C} :
      sizeof ≤ u.length → d.run u = some (c, u') → ElemsCome d item sizeof n u' v →
      ElemsCome d item sizeof (n + 1) u v

/-- In the first part, or in the second one. -/
def BothCome (d : Decoder Byte ι) (first second : List Byte → List Byte → Prop)
    (u v : List Byte) : Prop :=
  first u v ∨ ∃ i u', d.run u = some (i, u') ∧ second u' v

/-- A reader in front of the bytes `u` comes to a marker, or to the length of a string, in front of
`v`. -/
def CppType.Comes (probe : Probe) : {α : Type} → CppType α → List Byte → List Byte → Prop
  | _, .scalar _ => fun _ _ => False
  | _, .string => fun u v => probe = .length ∧ v = u
  | _, .vector item sizeof => fun u v =>
    ∃ itemsCount u', decodeItemsCount.run u = some (itemsCount, u') ∧
      itemsCount.toNat < 2 ^ 31 ∧ itemsCount.toNat ≤ u'.length ∧
      ElemsCome item.decode (item.Comes probe) sizeof itemsCount.toNat u' v
  | _, .list item => ItemsCome item.decode (item.Comes probe) (probe = .marker)
  | _, .set item _ => ItemsCome item.decode (item.Comes probe) (probe = .marker)
  | _, .map key mapped _ =>
    ItemsCome (key.decode.seq mapped.decode)
      (BothCome key.decode (key.Comes probe) (mapped.Comes probe)) (probe = .marker)
  | _, .unorderedMap key mapped _ =>
    ItemsCome (key.decode.seq mapped.decode)
      (BothCome key.decode (key.Comes probe) (mapped.Comes probe)) (probe = .marker)
  | _, .done => fun _ _ => False
  | _, .field first rest => BothCome first.decode (first.Comes probe) (rest.Comes probe)

/-- What no reader gets past: a marker that is neither of the two, or a string longer than what is
left. -/
def Probe.Fails : Probe → List Byte → Prop
  | marker, v => ∃ m w, v = m :: w ∧ m ≠ SerializationMarker.item ∧ m ≠ SerializationMarker.end_
  | length, v => ∃ n w, v = toBytes 4 n ++ w ∧ n < 2 ^ 32 ∧ w.length < n

/-- A count that was written is the count that is read. -/
theorem decodeItemsCount_run {n : Nat} (hn : n < 2 ^ 32) (w : List Byte) :
    decodeItemsCount.run (toBytes 4 n ++ w) = some (BitVec.ofNat 32 n, w) := by
  have hcount := (decodeScalar_finds 4 (BitVec.ofNat 32 n)).found trivial w
  have hvalue : (BitVec.ofNat 32 n).toNat = n := by
    rw [BitVec.toNat_ofNat, Nat.mod_eq_of_lt hn]
  rw [hvalue] at hcount
  exact hcount

/-- A string that is longer than what is left is refused. -/
theorem Probe.Fails.string {v : List Byte} (h : Probe.length.Fails v) :
    decodeString.run v = none := by
  rcases h with ⟨n, w, hv, hn, hlen⟩
  have hvalue : (BitVec.ofNat 32 n).toNat = n := by
    rw [BitVec.toNat_ofNat, Nat.mod_eq_of_lt hn]
  rw [hv]
  simp only [decodeString, Decoder.bind, decodeItemsCount_run hn, Option.bind_some, hvalue]
  split
  · exact if_neg (by omega)
  · rfl

/-- So is a marker that is neither of the two. -/
theorem Probe.Fails.items {v : List Byte} (h : Probe.marker.Fails v) (d : Decoder Byte ι) :
    (decodeMarked d).run v = none := by
  rcases h with ⟨m, w, hv, hitem, hend⟩
  rw [hv]
  exact Decoder.itemsRun_other hend hitem

section Come

variable {item : List Byte → List Byte → Prop} {atMarker : Prop} {u v : List Byte}

/-- What is refused inside an item, or at a marker, is refused by the container. -/
theorem ItemsCome.refused {d : Decoder Byte C} (h : ItemsCome d item atMarker u v) (f : C → ι)
    (hitem : ∀ u, item u v → d.run u = none)
    (hmarker : atMarker → (decodeMarked (d.map f)).run v = none) :
    (decodeMarked (d.map f)).run u = none := by
  have hne : SerializationMarker.item ≠ SerializationMarker.end_ := by decide
  induction h with
  | here hat => exact hmarker hat
  | inside hin =>
    have hnone : (d.map f).run _ = none := congrArg (Option.map _) (hitem _ hin)
    exact Decoder.itemsRun_more_none hne hnone
  | behind hrun _ ih =>
    have hsome : (d.map f).run _ = some _ := congrArg (Option.map _) hrun
    show Decoder.itemsRun _ _ _ _ = none
    rw [Decoder.itemsRun_more hne hsome]
    exact congrArg (Option.map _) (ih hitem hmarker)

/-- What is refused inside an element is refused by the vector. -/
theorem ElemsCome.refused {d : Decoder Byte C} {overlay : α → C → α} {sizeof n : Nat} {value : α}
    (h : ElemsCome d item sizeof n u v) (hitem : ∀ u, item u v → d.run u = none) :
    (decodeElems d overlay sizeof n value).run u = none := by
  induction h generalizing value with
  | inside _ hin => exact run_decodeElems_none (hitem _ hin)
  | behind hlen hrun _ ih =>
    rw [run_decodeElems_some hlen hrun]
    exact congrArg (Option.map _) (ih hitem)

/-- What is refused in a part is refused by the whole. -/
theorem BothCome.refused {first second : List Byte → List Byte → Prop} {d : Decoder Byte ι}
    {e : Decoder Byte κ} (h : BothCome d first second u v)
    (hfirst : ∀ u, first u v → d.run u = none) (hsecond : ∀ u, second u v → e.run u = none) :
    (d.seq e).run u = none := by
  simp only [Decoder.seq, Decoder.bind, Decoder.map]
  rcases h with h | ⟨i, u', hrun, h⟩
  · rw [hfirst u h]
    rfl
  · simp only [hrun, Option.bind_some, hsecond u' h, Option.map_none]

/-- What fails a test inside a type fails the type: one case for each kind of type. -/
theorem CppType.refused (t : CppType α) {probe : Probe} (hfails : probe.Fails v)
    (h : t.Comes probe u v) : t.decode.run u = none := by
  have hmarker : ∀ {ι : Type} (d : Decoder Byte ι), probe = .marker →
      (decodeMarked d).run v = none := by
    intro ι d hprobe
    rw [hprobe] at hfails
    exact hfails.items d
  induction t generalizing u with
  | scalar size => exact h.elim
  | string =>
    rcases h with ⟨hprobe, rfl⟩
    rw [hprobe] at hfails
    exact hfails.string
  | vector item sizeof ih =>
    rcases h with ⟨itemsCount, u', hrun, hint, hle, helems⟩
    simp only [decode, decodeVector, Decoder.bind, hrun, Option.bind_some, if_pos hint,
      Decoder.ifLeft, if_pos hle]
    exact helems.refused fun _ => ih
  | list item ih => exact h.refused item.meaning (fun _ => ih) (hmarker _)
  | set item order ih => exact h.refused item.meaning (fun _ => ih) (hmarker _)
  | map key mapped order ihk ihm =>
    simp only [decode, Decoder.map_seq]
    exact h.refused _ (fun _ hb => hb.refused (fun _ => ihk) fun _ => ihm) (hmarker _)
  | unorderedMap key mapped eq ihk ihm =>
    simp only [decode, Decoder.map_seq]
    exact h.refused _ (fun _ hb => hb.refused (fun _ => ihk) fun _ => ihm) (hmarker _)
  | done => exact h.elim
  | field first rest ihf ihr => exact BothCome.refused h (fun _ => ihf) fun _ => ihr

end Come

/-! ## What the bytes mean -/

namespace CppType

/-- The order of a list is kept. -/
theorem meaning_list (item : CppType α) (c : (CppType.list item).Content) :
    (CppType.list item).meaning c = c :=
  List.nil_append c

/-- Repeated items of a set are merged. -/
theorem mem_meaning_set (item : CppType α) {order : KeyOrder α} {c : (item.set order).Content}
    (htrans : ∀ a b d : α, order.Equiv a b → order.Equiv b d → order.Equiv a d) {x : α} :
    x ∈ (item.set order).meaning c ↔ FirstOfClass order.Equiv c x :=
  OrderedSet.mem_insertAll_empty fun a b d _ _ _ => htrans a b d

/-- Of a repeated key the first value is kept. -/
theorem mem_meaning_map (key : CppType κ) (mapped : CppType ν) {order : KeyOrder κ}
    {c : (key.map mapped order).Content}
    (htrans : ∀ a b d : κ, order.Equiv a b → order.Equiv b d → order.Equiv a d) {p : κ × ν} :
    p ∈ (key.map mapped order).meaning c ↔ FirstOfClass (order.onKey ν).Equiv c p :=
  OrderedSet.mem_insertAll_empty fun a b d _ _ _ => htrans a.1 b.1 d.1

/-- So it is in an unordered map. -/
theorem mem_meaning_unorderedMap (key : CppType κ) (mapped : CppType ν) {eq : KeyEq κ}
    {c : (key.unorderedMap mapped eq).Content}
    (htrans : ∀ a b d : κ, eq.Equiv a b → eq.Equiv b d → eq.Equiv a d) {p : κ × ν} :
    p ∈ (key.unorderedMap mapped eq).meaning c ↔ FirstOfClass (eq.onKey ν).Equiv c p :=
  UnorderedSet.mem_emplaceAll_empty fun a b d _ _ _ => htrans a.1 b.1 d.1

end CppType

/-! ## Writing what was read -/

/-- Nothing in the type is dropped for its key, and all of it can be written. -/
def CppType.KeyFree : {α : Type} → CppType α → Prop
  | _, .scalar _ => True
  | _, .string => True
  | _, .vector _ _ => False
  | _, .list item => item.KeyFree
  | _, .set _ _ => False
  | _, .map _ _ _ => False
  | _, .unorderedMap _ _ _ => False
  | _, .done => True
  | _, .field first rest => first.KeyFree ∧ rest.KeyFree

/-- Items in the grammar are the encodings of objects, if each item is. -/
theorem Marked.exists_objects {ω : Type} {G : Grammar Byte C} {f : C → α} {value : ω → α}
    {encode : ω → List Byte} (hG : ∀ e c, G e c → ∃ o, value o = f c ∧ encode o = e)
    {e : List Byte} {xs : List α} (h : Marked (Made G f) e xs) :
    ∃ os : List ω, os.map value = xs ∧ encodeMarked (os.map encode) = e := by
  induction h with
  | stop => exact ⟨[], rfl, rfl⟩
  | more hitem _ ih =>
    rcases hitem with ⟨c, hc, hx⟩
    rcases hG _ c hc with ⟨o, hvalue, hencode⟩
    rcases ih with ⟨os, hvalues, hencodes⟩
    refine ⟨o :: os, ?_, ?_⟩
    · rw [List.map_cons, hvalue, hx, hvalues]
    · rw [List.map_cons, encodeMarked_cons, hencode, hencodes]

/-- Bytes in the grammar are the encoding of some object. -/
theorem CppType.exists_object (t : CppType α) (ht : t.KeyFree) {e : List Byte} {c : t.Content}
    (h : t.Encodes e c) : ∃ object, t.value object = t.meaning c ∧ t.encode object = e := by
  induction t generalizing e with
  | scalar size =>
    rcases h with ⟨hlen, hc⟩
    have hlt := ofBytes_lt e
    have hpow : 2 ^ (8 * size) = 256 ^ size := Nat.pow_mul 2 8 size
    refine ⟨c, rfl, ?_⟩
    show toBytes size (BitVec.toNat c) = e
    rw [hc, BitVec.toNat_ofNat, Nat.mod_eq_of_lt (by rw [hpow, ← hlen]; exact hlt), ← hlen,
      toBytes_ofBytes]
  | string => exact ⟨⟨c, h.1⟩, rfl, h.2.symm⟩
  | vector item sizeof ih => exact ht.elim
  | list item ih =>
    rcases Marked.exists_objects (fun e c he => ih ht he) h with ⟨os, hvalues, hencodes⟩
    exact ⟨os, hvalues.trans (item.meaning_list c).symm, hencodes⟩
  | set item order ih => exact ht.elim
  | map key mapped order ihk ihm => exact ht.elim
  | unorderedMap key mapped eq ihk ihm => exact ht.elim
  | done => exact ⟨(), rfl, h.1.symm⟩
  | field first rest ihf ihr =>
    rcases h with ⟨e₁, e₂, he, h₁, h₂⟩
    rcases ihf ht.1 h₁ with ⟨o₁, hvalue₁, hencode₁⟩
    rcases ihr ht.2 h₂ with ⟨o₂, hvalue₂, hencode₂⟩
    refine ⟨(o₁, o₂), Prod.ext hvalue₁ hvalue₂, ?_⟩
    rw [he, ← hencode₁, ← hencode₂]
    rfl

/-- Without keys an object is its value. -/
theorem CppType.value_injective (t : CppType α) (ht : t.KeyFree) :
    Function.Injective t.value := by
  induction t with
  | scalar size => exact fun _ _ h => h
  | string => exact Subtype.val_injective
  | vector item sizeof ih => exact ht.elim
  | list item ih => exact List.map_injective_iff.mpr (ih ht)
  | set item order ih => exact ht.elim
  | map key mapped order ihk ihm => exact ht.elim
  | unorderedMap key mapped eq ihk ihm => exact ht.elim
  | done => exact fun _ _ h => h
  | field first rest ihf ihr => exact (ihf ht.1).prodMap (ihr ht.2)

/-! ## The format -/

/-- What a read into a new object makes of the bytes `b`. -/
structure ReadsFormat (t : CppType α) (b : List Byte) (r : Read α) : Prop where
  ends : r.stream.cutShort = false
  ok_iff : r.ok = true ↔ ∃ e c, e <+: b ∧ t.Encodes e c
  consumed : ∀ e c u, b = e ++ u → t.Encodes e c →
    r.target = t.meaning c ∧ r.stream.unread = u
  truncated : ∀ e c, t.Encodes e c → b <+: e → b ≠ e → r.ok = false
  refused : ∀ probe v, t.Comes probe b v → probe.Fails v → r.ok = false
  written : t.KeyFree → ∀ e c u, b = e ++ u → t.Encodes e c →
    (∃ object, t.value object = r.target) ∧
    ∀ object, t.value object = r.target → ∀ out : ArrayOutputStream,
      e.length ≤ out.freeSpace.toNat →
        (t.write object out).1 = true ∧ (t.write object out).2.writtenSince out = e

/-- What is in the grammar does not begin with what else is in it. -/
theorem CppType.Encodes.eq_of_prefix {t : CppType α} {e e' u : List Byte} {c c' : t.Content}
    (he : t.Encodes e c) (he' : t.Encodes e' c') (h : e' ++ u <+: e) : e' ++ u = e := by
  rcases h with ⟨q, hq⟩
  have hsame : e' = e := by
    refine t.prefixFree e' e (u ++ q) [] c' c he' he ?_
    rw [← List.append_assoc, hq, List.append_nil]
  have hlen := congrArg List.length hq
  rw [hsame] at hlen ⊢
  simp only [List.length_append] at hlen
  have hu : u = [] := List.eq_nil_of_length_eq_zero (by omega)
  rw [hu, List.append_nil]

/-- Without sets and maps, what the bytes mean is written as these bytes. -/
theorem CppType.Encodes.written {t : CppType α} (hkey : t.KeyFree) {e : List Byte} {c : t.Content}
    (he : t.Encodes e c) :
    (∃ object, t.value object = t.meaning c) ∧
      ∀ object, t.value object = t.meaning c → ∀ out : ArrayOutputStream,
        e.length ≤ out.freeSpace.toNat →
          (t.write object out).1 = true ∧ (t.write object out).2.writtenSince out = e := by
  rcases t.exists_object hkey he with ⟨object, hvalue, hencode⟩
  refine ⟨⟨object, hvalue⟩, ?_⟩
  intro object' hvalue' out hfit
  have hsame : object' = object := t.value_injective hkey (hvalue'.trans hvalue.symm)
  have happends := t.write_appends object'
  rw [hsame, hencode] at happends
  rw [hsame]
  have hok : (t.write object out).1 = true := (happends.allOrPrefix out).ok_iff.mpr hfit
  exact ⟨hok, happends.writtenSince hok⟩

/-- The reader accepts exactly its format. -/
theorem reads_format (t : CppType α) (ht : t.VectorFree) (b : List Byte)
    (hb : b.length < 2 ^ 31) : ReadsFormat t b (t.read t.default (.ofArray b)) := by
  obtain ⟨hin, hunread⟩ := ArrayInputStream.inBuffer_ofArray
    (show b.length < 2 ^ 32 by omega)
  have hmeets := t.read_meets t.default _ hin
  rw [hunread] at hmeets
  have hfound : ∀ {c u}, t.decode.run b = some (c, u) →
      (t.read t.default (.ofArray b)).ok = true ∧
        (t.read t.default (.ofArray b)).target = t.meaning c ∧
          (t.read t.default (.ofArray b)).stream.unread = u := by
    intro c u hd
    rw [hd] at hmeets
    exact hmeets
  have hnone : t.decode.run b = none → (t.read t.default (.ofArray b)).ok = false := by
    intro hd
    rw [hd] at hmeets
    exact hmeets
  have haccepts := t.decode_accepts ht b hb
  have hconsumed : ∀ e c u, b = e ++ u → t.Encodes e c →
      (t.read t.default (.ofArray b)).target = t.meaning c ∧
        (t.read t.default (.ofArray b)).stream.unread = u := by
    intro e c u hbe he
    exact (hfound ((haccepts c u).mpr ⟨e, hbe, he⟩)).2
  have hprefix : (t.read t.default (.ofArray b)).ok = true →
      ∃ e c u, b = e ++ u ∧ t.Encodes e c := by
    intro hok
    cases hd : t.decode.run b with
    | none =>
      rw [hnone hd] at hok
      exact absurd hok (by simp)
    | some p =>
      rcases (haccepts p.1 p.2).mp hd with ⟨e, hbe, he⟩
      exact ⟨e, p.1, p.2, hbe, he⟩
  constructor
  case ends => exact t.read_whole _ _
  case ok_iff =>
    constructor
    · intro hok
      rcases hprefix hok with ⟨e, c, u, hbe, he⟩
      exact ⟨e, c, ⟨u, hbe.symm⟩, he⟩
    · rintro ⟨e, c, ⟨u, hbe⟩, he⟩
      exact (hfound ((haccepts c u).mpr ⟨e, hbe.symm, he⟩)).1
  case consumed => exact hconsumed
  case truncated =>
    intro e c he hbe hne
    refine Bool.eq_false_iff.mpr fun hok => hne ?_
    -- what was accepted would be a prefix of `e`
    rcases hprefix hok with ⟨e', c', u, hbe', he'⟩
    rw [hbe'] at hbe ⊢
    exact he.eq_of_prefix he' hbe
  case refused =>
    intro probe v hcomes hfails
    exact hnone (t.refused hfails hcomes)
  case written =>
    intro hkey e c u hbe he
    rw [(hconsumed e c u hbe he).1]
    exact he.written hkey

/-- Two strings, and a byte that is not theirs. -/
theorem reads_format_list :
    ReadsFormat (.list .string) [0, 2, 0, 0, 0, 104, 105, 0, 0, 0, 0, 0, 1, 255]
      ((CppType.list .string).read []
        (.ofArray [0, 2, 0, 0, 0, 104, 105, 0, 0, 0, 0, 0, 1, 255])) :=
  reads_format (.list .string) (by simp [CppType.VectorFree]) _ (by decide)

end EspAcDimmer.Streams
