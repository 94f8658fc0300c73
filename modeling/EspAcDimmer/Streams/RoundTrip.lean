import EspAcDimmer.Streams.Decode
import EspAcDimmer.Streams.Encode

/-! # What is written is read back

The decoder of a type undoes the encoding of its objects, with whatever behind it, as long as the
length of every string is not negative as an `int`. A default-constructed target takes the value of
the object that was written.
-/

namespace EspAcDimmer.Streams

open Framing LittleEndian UniqueKeys

variable {α κ ν : Type}

namespace CppType

/-- What the encoding of an object says. -/
def content : {α : Type} → (t : CppType α) → t.Object → t.Content
  | _, scalar _ => id
  | _, string => Subtype.val
  | _, vector _ _ => nofun
  | _, list item => List.map item.value
  | _, set item _ => fun object => object.1.map item.value
  | _, map key mapped _ => fun object => object.1.map (Prod.map key.value mapped.value)
  | _, unorderedMap key mapped _ => fun object => object.1.map (Prod.map key.value mapped.value)
  | _, done => id
  | _, field first rest => Prod.map first.content rest.content

/-- What an encoding says means the value of its object. -/
theorem meaning_content (t : CppType α) (object : t.Object) :
    t.meaning (t.content object) = t.value object := by
  induction t with
  | scalar size => rfl
  | string => rfl
  | vector item sizeof ih => exact object.elim
  | list item ih => exact List.nil_append _
  | set item order ih => exact OrderedSet.insertAll_empty ⟨_, object.2⟩
  | map key mapped order ihk ihm => exact OrderedSet.insertAll_empty ⟨_, object.2⟩
  | unorderedMap key mapped eq ihk ihm => exact UnorderedSet.emplaceAll_empty rfl object.2
  | done => rfl
  | field first rest ihf ihr => exact Prod.ext (ihf object.1) (ihr object.2)

/-- Every string in the object is shorter than `2 ^ 31`. -/
def Short : {α : Type} → (t : CppType α) → t.Object → Prop
  | _, scalar _ => fun _ => True
  | _, string => fun str => str.1.length < 2 ^ 31
  | _, vector _ _ => nofun
  | _, list item => fun list : List _ => ∀ i ∈ list, item.Short i
  | _, set item _ => fun set => ∀ i ∈ set.1, item.Short i
  | _, map key mapped _ => fun map => ∀ p ∈ map.1, key.Short p.1 ∧ mapped.Short p.2
  | _, unorderedMap key mapped _ => fun map => ∀ p ∈ map.1, key.Short p.1 ∧ mapped.Short p.2
  | _, done => fun _ => True
  | _, field first rest => fun object => first.Short object.1 ∧ rest.Short object.2

end CppType

/-- The bytes of a number are decoded to the number. -/
theorem decodeScalar_finds (size : Nat) (value : BitVec (8 * size)) :
    (decodeScalar size).Finds (toBytes size value.toNat) value True := by
  constructor
  · intro _ u
    have hlt : value.toNat < 256 ^ size := by
      have hpow : 2 ^ (8 * size) = 256 ^ size := Nat.pow_mul 2 8 size
      exact hpow ▸ value.isLt
    have hlen : (toBytes size value.toNat).length = size := length_toBytes _ _
    rw [run_decodeScalar, if_pos (by simp), List.take_left' hlen, List.drop_left' hlen,
      ofBytes_toBytes hlt, BitVec.ofNat_toNat, BitVec.setWidth_eq]
  · intro h
    exact absurd trivial h

/-- A string is found, if its length is not negative as an `int`. -/
theorem decodeString_finds (str : { s : List Byte // s.length < 2 ^ 32 }) :
    decodeString.Finds (toBytes 4 str.1.length ++ str.1) str.1 (str.1.length < 2 ^ 31) := by
  have hlen : (BitVec.ofNat 32 str.1.length).toNat = str.1.length := by
    rw [BitVec.toNat_ofNat, Nat.mod_eq_of_lt str.2]
  have hcount := (decodeScalar_finds 4 (BitVec.ofNat 32 str.1.length)).found trivial
  rw [hlen] at hcount
  constructor
  · intro hshort u
    simp only [decodeString, decodeItemsCount, Decoder.bind, List.append_assoc, hcount,
      Option.bind_some, hlen, if_pos hshort, Decoder.take]
    simp
  · intro hlong u
    simp only [decodeString, decodeItemsCount, Decoder.bind, List.append_assoc, hcount,
      Option.bind_some, hlen, if_neg hlong, Decoder.fail]

theorem decodeMarked_finds {ι C : Type} {d : Decoder Byte C} {e : ι → List Byte} {f : ι → C}
    {P : ι → Prop} (h : ∀ i, d.Finds (e i) (f i) (P i)) (items : List ι) :
    (decodeMarked d).Finds (encodeMarked (items.map e)) (items.map f) (∀ i ∈ items, P i) :=
  Decoder.Finds.items (by decide) h items

/-- Every decoder finds what the encoding of an object says: one case for each kind of type. -/
theorem CppType.decode_finds (t : CppType α) (object : t.Object) :
    t.decode.Finds (t.encode object) (t.content object) (t.Short object) := by
  -- what an element of a container is once it was read
  have hmeaning : ∀ {β : Type} (item : CppType β),
      (∀ o, item.decode.Finds (item.encode o) (item.content o) (item.Short o)) → ∀ o,
      (item.decode.map item.meaning).Finds (item.encode o) (item.value o) (item.Short o) := by
    intro β item ih o
    have h := (ih o).map item.meaning
    rw [item.meaning_content o] at h
    exact h
  induction t with
  | scalar size => exact decodeScalar_finds size object
  | string => exact decodeString_finds object
  | vector item sizeof ih => exact object.elim
  | list item ih => exact decodeMarked_finds (hmeaning item ih) object
  | set item order ih => exact decodeMarked_finds (hmeaning item ih) object.1
  | map key mapped order ihk ihm =>
    exact decodeMarked_finds
      (fun p => (hmeaning key ihk p.1).seq (hmeaning mapped ihm p.2)) object.1
  | unorderedMap key mapped eq ihk ihm =>
    exact decodeMarked_finds
      (fun p => (hmeaning key ihk p.1).seq (hmeaning mapped ihm p.2)) object.1
  | done => exact Decoder.finds_pure
  | field first rest ihf ihr => exact (ihf object.1).seq (ihr object.2)

/-- The bytes that were written since the stream was in the state `before`. -/
def ArrayOutputStream.writtenSince (s before : ArrayOutputStream) : List Byte :=
  s.written.drop before.dataSize.toNat

/-- A write that returned true has put in its whole encoding. -/
theorem Appends.writtenSince {w : ArrayOutputStream → Bool × ArrayOutputStream} {e : List Byte}
    (h : Appends w e) {s : ArrayOutputStream} (hok : (w s).1 = true) :
    (w s).2.writtenSince s = e := by
  have hall := h.allOrPrefix s
  have hfit := hall.ok_iff.mp hok
  unfold ArrayOutputStream.writtenSince
  rw [hall.appended, Nat.min_eq_left hfit, List.take_length]
  exact List.drop_left' (by simp [ArrayOutputStream.written, ArrayOutputStream.dataSize])

/-- Decoding undoes encoding: what a write that returned true has put into its buffer, with any
bytes behind it, is read back into a new object. -/
theorem read_write (t : CppType α) (object : t.Object) (out : ArrayOutputStream)
    (rest : List Byte) (hshort : t.Short object) (hwrite : (t.write object out).1 = true)
    (hbuf : ((t.write object out).2.writtenSince out ++ rest).length < 2 ^ 32) :
    let r := t.read t.default (.ofArray ((t.write object out).2.writtenSince out ++ rest))
    r.ok = true ∧ r.target = t.value object ∧ r.stream.unread = rest := by
  rw [(t.write_appends object).writtenSince hwrite] at hbuf ⊢
  rcases ArrayInputStream.inBuffer_ofArray hbuf with ⟨hin, hunread⟩
  have hdecode := (t.decode_finds object).found hshort rest
  rw [← hunread] at hdecode
  rcases t.read_meets.some t.default hin hdecode with ⟨hok, htarget, hleft⟩
  refine ⟨hok, ?_, hleft⟩
  rw [htarget]
  exact t.meaning_content object

/-- A list of structs, each a string and a number, in a buffer of 64 bytes and in front of a byte
that is not theirs. -/
theorem read_write_list :
    let t := CppType.list (.field .string (.field (.scalar 2) .done))
    let object : t.Object := [(⟨[104, 105], by decide⟩, 7#16, ()), (⟨[], by decide⟩, 515#16, ())]
    let out := ArrayOutputStream.ofArray (fun _ => 0) 64
    let r := t.read t.default (.ofArray ((t.write object out).2.writtenSince out ++ [255]))
    r.ok = true ∧ r.target = t.value object ∧ r.stream.unread = [255] := by
  intro t object out
  have happends := t.write_appends object
  have hwrite : (t.write object out).1 = true := by
    rw [happends out]
    decide
  refine read_write t object out [255] ?_ hwrite ?_
  · intro i hi
    rcases List.mem_cons.mp hi with rfl | hi
    · exact ⟨by simp [CppType.Short], trivial, trivial⟩
    · rw [List.mem_singleton.mp hi]
      exact ⟨by simp [CppType.Short], trivial, trivial⟩
  · rw [happends.writtenSince hwrite]
    decide

end EspAcDimmer.Streams
