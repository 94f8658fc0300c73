import EspAcDimmer.Streams.Types

/-! # The output stream

`OutputStream.h` and `OutputStream.cpp`: `ArrayOutputStream` and the overloads of
`OutputBase::write`. There is none for `std::vector`, so a vector has no object that can be written.
-/

namespace EspAcDimmer.Streams

open LittleEndian UniqueKeys

/-! ## Objects -/

/-- The objects of a C++ type, and the value each of them has. An unordered map has more objects
than values: its elements stand in some order, and `write` goes through them in that order. -/
structure Objects (α : Type) : Type 1 where
  Object : Type
  value : Object → α

namespace CppType

def objects : {α : Type} → CppType α → Objects α
  | _, scalar size => ⟨BitVec (8 * size), id⟩
  | _, string => ⟨{ s : List Byte // s.length < 2 ^ 32 }, Subtype.val⟩
  | _, vector _ _ => ⟨Empty, nofun⟩
  | _, list item => ⟨List item.objects.Object, List.map item.objects.value⟩
  | _, set item order =>
    ⟨{ l : List item.objects.Object //
        (l.map item.objects.value).Pairwise fun a b => order.lt a b = true },
      fun l => ⟨_, l.2⟩⟩
  | _, @map _ ν key mapped order =>
    ⟨{ l : List (key.objects.Object × mapped.objects.Object) //
        (l.map (Prod.map key.objects.value mapped.objects.value)).Pairwise
          fun p q => (order.onKey ν).lt p q = true },
      fun l => ⟨_, l.2⟩⟩
  | _, @unorderedMap _ ν key mapped eq =>
    ⟨{ l : List (key.objects.Object × mapped.objects.Object) //
        (l.map (Prod.map key.objects.value mapped.objects.value)).Pairwise
          fun p q => ¬ (eq.onKey ν).Equiv q p },
      fun l => ⟨_, _, rfl, l.2⟩⟩
  | _, done => ⟨Unit, id⟩
  | _, field first rest =>
    ⟨first.objects.Object × rest.objects.Object,
      Prod.map first.objects.value rest.objects.value⟩

variable {α : Type}

abbrev Object (t : CppType α) : Type := t.objects.Object

def value (t : CppType α) : t.Object → α := t.objects.value

end CppType

/-! ## The stream -/

/-- `ArrayOutputStream`. `buf i` is the byte at `m_buf + i`, inside the buffer or not. -/
structure ArrayOutputStream where
  buf : Nat → Byte
  bufsize : SizeType
  wpos : SizeType
  wpos_le : wpos.toNat ≤ bufsize.toNat

namespace ArrayOutputStream

/-- `ArrayOutputStream( ValueType *buf, SizeType bufSize )`. -/
def ofArray (buf : Nat → Byte) (bufSize : SizeType) : ArrayOutputStream :=
  ⟨buf, bufSize, 0, by simp⟩

def dataSize (s : ArrayOutputStream) : SizeType := s.wpos

def freeSpace (s : ArrayOutputStream) : SizeType := s.bufsize - s.dataSize

/-- The position is inside the buffer, so the subtraction does not wrap. -/
theorem freeSpace_toNat (s : ArrayOutputStream) :
    s.freeSpace.toNat = s.bufsize.toNat - s.wpos.toNat :=
  BitVec.toNat_sub_of_le s.wpos_le

/-- Nor does the addition of what fits. -/
theorem wpos_add_toNat (s : ArrayOutputStream) {n : Nat} (h : n ≤ s.freeSpace.toNat) :
    (s.wpos + BitVec.ofNat 32 n).toNat = s.wpos.toNat + n := by
  have hfree := s.freeSpace_toNat
  have hwpos := s.wpos_le
  have hbufsize := s.bufsize.isLt
  rw [BitVec.toNat_add, BitVec.toNat_ofNat, Nat.mod_eq_of_lt (b := 2 ^ 32) (a := n) (by omega),
    Nat.mod_eq_of_lt (by omega)]

/-- `write( const ValueType *data, const SizeType dataSize )`, with the bytes of an object that is
written. -/
def writeBytes (s : ArrayOutputStream) (data : List Byte) : Nat × ArrayOutputStream :=
  let sizeToWrite := min data.length s.freeSpace.toNat
  (sizeToWrite,
    { buf := fun p =>
        if s.wpos.toNat ≤ p ∧ p < s.wpos.toNat + sizeToWrite then data.getD (p - s.wpos.toNat) 0
        else s.buf p
      bufsize := s.bufsize
      wpos := s.wpos + BitVec.ofNat 32 sizeToWrite
      wpos_le := by
        rw [s.wpos_add_toNat (Nat.min_le_right _ _)]
        have := s.freeSpace_toNat
        have := s.wpos_le
        lia })

end ArrayOutputStream

/-! ## Writers -/

def writeScalar (size : Nat) (value : BitVec (8 * size)) (s : ArrayOutputStream) :
    Bool × ArrayOutputStream :=
  let (written, s') := s.writeBytes (toBytes size value.toNat)
  (size = written, s')

def writeString (str : { s : List Byte // s.length < 2 ^ 32 }) (s : ArrayOutputStream) :
    Bool × ArrayOutputStream :=
  let lenght : SizeType := BitVec.ofNat 32 str.1.length
  let (ok, s') := writeScalar 4 lenght s
  if !ok then (false, s')
  else
    let (written, s'') := s'.writeBytes str.1
    (lenght.toNat = written, s'')

/-- The loop of both container writers, with what it does for one element. -/
def writeItems {ι : Type} (writeItem : ι → ArrayOutputStream → Bool × ArrayOutputStream) :
    List ι → ArrayOutputStream → Bool × ArrayOutputStream
  | [], s => writeScalar 1 SerializationMarker.end_ s
  | item :: items, s =>
    let (ok, s') := writeScalar 1 SerializationMarker.item s
    if !ok then (false, s')
    else
      let (ok, s'') := writeItem item s'
      if !ok then (false, s'') else writeItems writeItem items s''

/-- `write( a ) && write( b )`: key and mapped value, or the fields of a struct. -/
def writeBoth {κ ν : Type} (writeFirst : κ → ArrayOutputStream → Bool × ArrayOutputStream)
    (writeSecond : ν → ArrayOutputStream → Bool × ArrayOutputStream) (p : κ × ν)
    (s : ArrayOutputStream) : Bool × ArrayOutputStream :=
  let (ok, s') := writeFirst p.1 s
  if !ok then (false, s') else writeSecond p.2 s'

def writeListLikeContainer {ι : Type}
    (write : ι → ArrayOutputStream → Bool × ArrayOutputStream) :
    List ι → ArrayOutputStream → Bool × ArrayOutputStream :=
  writeItems write

def writeMapLikeContainer {κ ν : Type}
    (writeKey : κ → ArrayOutputStream → Bool × ArrayOutputStream)
    (writeValue : ν → ArrayOutputStream → Bool × ArrayOutputStream) :
    List (κ × ν) → ArrayOutputStream → Bool × ArrayOutputStream :=
  writeItems (writeBoth writeKey writeValue)

/-- The `write` that the overloads resolve to. -/
def CppType.write : {α : Type} → (t : CppType α) → t.Object → ArrayOutputStream →
    Bool × ArrayOutputStream
  | _, scalar size => writeScalar size
  | _, string => writeString
  | _, vector _ _ => nofun
  | _, list item => writeListLikeContainer item.write
  | _, set item _ => fun object => writeListLikeContainer item.write object.1
  | _, map key mapped _ => fun object => writeMapLikeContainer key.write mapped.write object.1
  | _, unorderedMap key mapped _ => fun object =>
    writeMapLikeContainer key.write mapped.write object.1
  | _, done => fun _ s => (true, s)
  | _, field first rest => writeBoth first.write rest.write

end EspAcDimmer.Streams
