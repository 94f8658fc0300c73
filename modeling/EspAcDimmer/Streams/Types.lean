import EspAcDimmer.Lib.LittleEndian
import EspAcDimmer.Lib.UniqueKeys

/-! # The types the streams know

`InputStream.h` and `OutputStream.h` overload `read` and `write` for scalars, strings and the
containers of the standard library, and call the member functions of every other class. The
overloads are picked by the static type, so a type is a description here: `CppType α` describes the
C++ types whose objects have the values `α`.

* A scalar is its bit pattern, and a `char` is a byte.
* A set or a map is an ordered container of unique keys. The comparison that a program instantiates
  it with is part of the type, and so is the equality of an unordered map.
* A struct is the chain of its fields, in the order in which its `write` and `read` name them.
-/

namespace EspAcDimmer.Streams

open UniqueKeys

abbrev Byte := BitVec 8

/-- `streams::InputBase::SizeType`, and `std::size_t` on this target. -/
abbrev SizeType := BitVec 32

/-- `enum class SerializationMarker : std::uint8_t { Item, End };`, which holds any byte. -/
abbrev SerializationMarker := Byte

def SerializationMarker.item : SerializationMarker := 0

def SerializationMarker.end_ : SerializationMarker := 1

inductive CppType : Type → Type 1 where
  /-- An integral, floating or enum type of `size` bytes. -/
  | scalar (size : Nat) : CppType (BitVec (8 * size))
  | string : CppType (List Byte)
  /-- With the `sizeof` of its elements in memory, padding included. -/
  | vector {α : Type} (item : CppType α) (sizeof : Nat) : CppType (List α)
  | list {α : Type} (item : CppType α) : CppType (List α)
  | set {α : Type} (item : CppType α) (order : KeyOrder α) : CppType (OrderedSet order)
  | map {κ ν : Type} (key : CppType κ) (mapped : CppType ν) (order : KeyOrder κ) :
      CppType (OrderedSet (order.onKey ν))
  | unorderedMap {κ ν : Type} (key : CppType κ) (mapped : CppType ν) (eq : KeyEq κ) :
      CppType (UnorderedSet (eq.onKey ν))
  /-- A struct without fields. -/
  | done : CppType Unit
  /-- A struct's first field, and the others. -/
  | field {α β : Type} (first : CppType α) (rest : CppType β) : CppType (α × β)

namespace CppType

/-- A default-constructed object. A scalar that nobody set is indeterminate in the source; every
read sets it before anything looks at it. -/
def default : {α : Type} → CppType α → α
  | _, scalar _ => 0
  | _, string => []
  | _, vector _ _ => []
  | _, list _ => []
  | _, set _ _ => .empty
  | _, map _ _ _ => .empty
  | _, unorderedMap _ _ _ => .empty
  | _, done => ()
  | _, field first rest => (first.default, rest.default)

/-- What the bytes of a type say: the elements of a container come in the order of the bytes, and
before any of them is dropped for its key. -/
def Content : {α : Type} → CppType α → Type
  | _, scalar size => BitVec (8 * size)
  | _, string => List Byte
  | _, @vector α _ _ => List α
  | _, @list α _ => List α
  | _, @set α _ _ => List α
  | _, @map κ ν _ _ _ => List (κ × ν)
  | _, @unorderedMap κ ν _ _ _ => List (κ × ν)
  | _, done => Unit
  | _, field first rest => first.Content × rest.Content

/-- What an object becomes when such bytes are read into it. -/
def overlay : {α : Type} → (t : CppType α) → α → t.Content → α
  | _, scalar _, _, c => c
  | _, string, _, c => c
  | _, vector _ _, _, c => c
  | _, list _, old, c => List.append old c
  | _, set _ _, old, c => old.insertAll c
  | _, map _ _ _, old, c => old.insertAll c
  | _, unorderedMap _ _ _, old, c => old.emplaceAll c
  | _, done, _, _ => ()
  | _, field first rest, old, c => (first.overlay old.1 c.1, rest.overlay old.2 c.2)

/-- What the bytes mean: what they make of a default-constructed object. -/
def meaning {α : Type} (t : CppType α) (c : t.Content) : α := t.overlay t.default c

end CppType

end EspAcDimmer.Streams
