import EspAcDimmer.Streams.Types

/-! # The input stream

`InputStream.h` and `InputStream.cpp`: `ArrayInputStream` and the overloads of `InputBase::read`.
Every `read` takes its target, whatever it holds, and the stream, and leaves both changed; so it is
a function from the two to a `Read`.

Three fields of the stream are history and decide nothing: `copied` (where `memcpy` took its bytes
from), `reserved` (the calls of `std::string::reserve`, each with the `size()` of that moment) and
`cutShort`. The source sets no bound on the rounds of its loops; a loop here has one, and `cutShort`
says that some loop would have gone on.
-/

namespace EspAcDimmer.Streams

open UniqueKeys

/-- `ArrayInputStream`. `buf i` is the byte at `m_buf + i`, inside the buffer or not. -/
structure ArrayInputStream where
  buf : Nat → Byte
  bufsize : SizeType
  rpos : SizeType := 0
  /-- Index and number of the bytes of each copy. -/
  copied : List (Nat × Nat) := []
  /-- Argument of each `reserve`, and the bytes that were left in the stream. -/
  reserved : List (Nat × Nat) := []
  cutShort : Bool := false

namespace ArrayInputStream

/-- A stream over an array of these bytes. -/
def ofArray (bytes : List Byte) : ArrayInputStream where
  buf i := bytes.getD i 0
  bufsize := BitVec.ofNat 32 bytes.length

/-- The subtraction wraps when the position is outside. -/
def size (s : ArrayInputStream) : SizeType := s.bufsize - s.rpos

/-- `read( ValuePtr data, const SizeType dataSize )`: the bytes that went to `data`. Their number
is what it returns. -/
def readBytes (s : ArrayInputStream) (dataSize : SizeType) : List Byte × ArrayInputStream :=
  let sizeToRead := if s.size < dataSize then s.size else dataSize
  ((List.range sizeToRead.toNat).map fun i => s.buf (s.rpos.toNat + i),
    { s with
      rpos := s.rpos + sizeToRead
      copied := s.copied ++ [(s.rpos.toNat, sizeToRead.toNat)] })

def reset (s : ArrayInputStream) (offset : SizeType) : Bool × ArrayInputStream :=
  (true, { s with rpos := offset })

/-- `value.reserve( itemsCount )` in the midst of reading a string. -/
def reserve (s : ArrayInputStream) (itemsCount : SizeType) : ArrayInputStream :=
  { s with reserved := s.reserved ++ [(itemsCount.toNat, s.size.toNat)] }

/-- A loop that would go on stops. -/
def cut (s : ArrayInputStream) : ArrayInputStream := { s with cutShort := true }

end ArrayInputStream

/-- What a call of `read` returns, and what it leaves. -/
structure Read (α : Type) where
  ok : Bool
  target : α
  stream : ArrayInputStream

/-! ## Scalars -/

/-- `memcpy` to an object: the bytes that come replace the first ones it has. -/
def copyInto {size : Nat} (value : BitVec (8 * size)) (data : List Byte) : BitVec (8 * size) :=
  BitVec.ofNat (8 * size) (LittleEndian.ofBytes
    (data ++ (LittleEndian.toBytes size value.toNat).drop data.length))

def readScalar (size : Nat) (value : BitVec (8 * size)) (s : ArrayInputStream) :
    Read (BitVec (8 * size)) :=
  if size > s.size.toNat then ⟨false, value, s⟩
  else
    let (data, s') := s.readBytes (BitVec.ofNat 32 size)
    ⟨size = data.length, copyInto value data, s'⟩

/-! ## Strings and vectors -/

/-- `InputBase::Iterator<ValueType>`; the stream it refers to is passed along. -/
structure Iterator (α : Type) where
  itemsLeft : Int
  value : α

namespace Iterator

variable {α : Type} (read : α → ArrayInputStream → Read α) (sizeof : Nat)

/-- `END_OF_ITERATIONS`. -/
def endOfIterations : Int := -1

/-- `Iterator::operator++`. An element is read over the one before. -/
def next (itr : Iterator α) (s : ArrayInputStream) : Iterator α × ArrayInputStream :=
  if s.size.toNat < sizeof ∨ itr.itemsLeft ≤ 0 then ({ itr with itemsLeft := endOfIterations }, s)
  else
    let r := read itr.value s
    if r.ok then (⟨itr.itemsLeft - 1, r.target⟩, r.stream)
    else (⟨endOfIterations, r.target⟩, r.stream)

/-- `InputBase::begin`; the constructor makes the first step. -/
def begin (value : α) (itemsCount : SizeType) (s : ArrayInputStream) :
    Iterator α × ArrayInputStream :=
  if s.size < itemsCount then next read sizeof ⟨endOfIterations, value⟩ s  -- this is `end`
  else next read sizeof ⟨itemsCount.toInt, value⟩ s  -- the count becomes an `int`

/-- The elements from an iterator to the end, which is where `m_itemsLeft` is that of `end`. No
more than `fuel` of them are taken. -/
def collect : Nat → Iterator α → ArrayInputStream → List α × ArrayInputStream
  | 0, itr, s => ([], if itr.itemsLeft = endOfIterations then s else s.cut)
  | fuel + 1, itr, s =>
    if itr.itemsLeft = endOfIterations then ([], s)
    else
      let (itr', s') := next read sizeof itr s
      let (values, s'') := collect fuel itr' s'
      (itr.value :: values, s'')

/-- `Container( begin, end )`. Each element makes `m_itemsLeft` less by one, so there are no more
than `itemsCount`. -/
def range (value : α) (itemsCount : SizeType) (s : ArrayInputStream) :
    List α × ArrayInputStream :=
  let (itr, s') := begin read sizeof value itemsCount s
  collect read sizeof itemsCount.toNat itr s'

end Iterator

def readChar : Byte → ArrayInputStream → Read Byte := readScalar 1

/-- The local variable `SizeType itemsCount;`, read. -/
def readItemsCount : ArrayInputStream → Read SizeType := readScalar 4 0

def readString (value : List Byte) (s : ArrayInputStream) : Read (List Byte) :=
  let itemsCount := readItemsCount s
  if !itemsCount.ok then ⟨false, value, itemsCount.stream⟩
  else
    let s' := itemsCount.stream.reserve itemsCount.target
    let (chars, s'') := Iterator.range readChar 1 0 itemsCount.target s'
    ⟨chars.length = itemsCount.target.toNat, chars, s''⟩

def readVector {α : Type} (read : α → ArrayInputStream → Read α) (sizeof : Nat) (value : α)
    (vec : List α) (s : ArrayInputStream) : Read (List α) :=
  let itemsCount := readItemsCount s
  if !itemsCount.ok then ⟨false, vec, itemsCount.stream⟩
  else
    let (items, s') := Iterator.range read sizeof value itemsCount.target itemsCount.stream
    ⟨items.length = itemsCount.target.toNat, items, s'⟩

/-! ## Containers with markers -/

/-- `while( read( marker ) )` of all three container readers, `fuel` times round at most; `readItem`
is what stands behind its two tests. -/
def readItems {γ : Type} (readItem : γ → ArrayInputStream → Read γ) :
    Nat → γ → ArrayInputStream → Read γ
  | 0, container, s => ⟨false, container, s.cut⟩
  | fuel + 1, container, s =>
    let marker := readScalar 1 0 s
    if !marker.ok then ⟨false, container, marker.stream⟩
    else if SerializationMarker.end_ = marker.target then ⟨true, container, marker.stream⟩
    else if SerializationMarker.item ≠ marker.target then ⟨false, container, marker.stream⟩
    else
      let item := readItem container marker.stream
      if !item.ok then ⟨false, item.target, item.stream⟩
      else readItems readItem fuel item.target item.stream

/-- The loop of a container reader. Each round takes a marker from the stream, so it goes round
`size()` times, and is left in the next one at the latest. -/
def readMarked {γ : Type} (readItem : γ → ArrayInputStream → Read γ) (container : γ)
    (s : ArrayInputStream) : Read γ :=
  readItems readItem (s.size.toNat + 1) container s

def readListLikeContainer {α : Type} (read : α → ArrayInputStream → Read α) (value : α) :
    List α → ArrayInputStream → Read (List α) :=
  readMarked fun list s =>
    -- the element is in the list before it is read
    let r := read value s
    ⟨r.ok, list ++ [r.target], r.stream⟩

/-- `read( std::set<Value>& )`. -/
def readSet {α γ : Type} (insert : γ → α → γ) (read : α → ArrayInputStream → Read α) (value : α) :
    γ → ArrayInputStream → Read γ :=
  readMarked fun set s =>
    let val := read value s
    if !val.ok then ⟨false, set, val.stream⟩ else ⟨true, insert set val.target, val.stream⟩

def readMapLikeContainer {κ ν γ : Type} (emplace : γ → κ × ν → γ)
    (readKey : κ → ArrayInputStream → Read κ) (key : κ)
    (readValue : ν → ArrayInputStream → Read ν) (value : ν) : γ → ArrayInputStream → Read γ :=
  readMarked fun map s =>
    let k := readKey key s
    if !k.ok then ⟨false, map, k.stream⟩
    else
      let v := readValue value k.stream
      if !v.ok then ⟨false, map, v.stream⟩ else ⟨true, emplace map (k.target, v.target), v.stream⟩

/-! ## Any type -/

/-- `stream.read( first ) && ...`, the body of a struct's `read`. -/
def readFields {α β : Type} (readFirst : α → ArrayInputStream → Read α)
    (readRest : β → ArrayInputStream → Read β) (object : α × β) (s : ArrayInputStream) :
    Read (α × β) :=
  let first := readFirst object.1 s
  if !first.ok then ⟨false, (first.target, object.2), first.stream⟩
  else
    let rest := readRest object.2 first.stream
    ⟨rest.ok, (first.target, rest.target), rest.stream⟩

/-- The `read` that the overloads resolve to. -/
def CppType.read : {α : Type} → CppType α → α → ArrayInputStream → Read α
  | _, scalar size => readScalar size
  | _, string => readString
  | _, vector item sizeof => readVector item.read sizeof item.default
  | _, list item => readListLikeContainer item.read item.default
  | _, set item _ => readSet OrderedSet.insert item.read item.default
  | _, map key mapped _ =>
    readMapLikeContainer OrderedSet.insert key.read key.default mapped.read mapped.default
  | _, unorderedMap key mapped _ =>
    readMapLikeContainer UnorderedSet.emplace key.read key.default mapped.read mapped.default
  | _, done => fun object s => ⟨true, object, s⟩
  | _, field first rest => readFields first.read rest.read

end EspAcDimmer.Streams
