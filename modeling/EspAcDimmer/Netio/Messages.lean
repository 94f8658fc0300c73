import EspAcDimmer.Netio.UdpSrv
import EspAcDimmer.Streams.Encode

/-! # The messages

`Messages.h`: the structs that are sent, and `messages::create`, which writes one of them behind its
id.
-/

namespace EspAcDimmer.Messages

open Streams

abbrev MsgIdType := BitVec 32

/-- A message struct: its `ID`, and the fields that its `write` and `read` name. -/
structure Msg (α : Type) where
  ID : MsgIdType
  fields : CppType α

def Discovery : Msg (BitVec 32 × Unit) where
  ID := 0x045f0f63
  fields := .field (.scalar 4) .done

/-- A `float` is its bit pattern. -/
def Temperature : Msg (BitVec 64 × BitVec 32 × Unit) where
  ID := 0x3eee0c83
  fields := .field (.scalar 8) (.field (.scalar 4) .done)

variable {α : Type}

/-- `create`, and what the buffer holds afterwards. -/
def create (buf : Nat → Byte) (bufSize : SizeType) (type : Msg α) (msg : type.fields.Object) :
    SizeType × (Nat → Byte) :=
  let ostream := ArrayOutputStream.ofArray buf bufSize
  let (ok, ostream) := writeScalar 4 type.ID ostream
  let (isSuccess, ostream) := if !ok then (false, ostream) else type.fields.write msg ostream
  (if isSuccess then ostream.dataSize else 0, ostream.buf)

/-- The id, and the message behind it. -/
def encode (type : Msg α) (msg : type.fields.Object) : List Byte :=
  LittleEndian.toBytes 4 type.ID.toNat ++ type.fields.encode msg

/-- A message is four bytes longer than its fields. -/
theorem length_encode (type : Msg α) (msg : type.fields.Object) :
    (encode type msg).length = 4 + (type.fields.encode msg).length := by
  simp [encode]

/-- What does not fit is written as far as it goes, but nothing is returned of it. -/
theorem create_eq (buf : Nat → Byte) (bufSize : SizeType) (type : Msg α)
    (msg : type.fields.Object) :
    create buf bufSize type msg =
      let ostream := (ArrayOutputStream.ofArray buf bufSize).append (encode type msg)
      (if (encode type msg).length ≤ bufSize.toNat then ostream.dataSize else 0, ostream.buf) := by
  have hwrite := (writeScalar_appends 4 type.ID).and (type.fields.write_appends msg)
    (.ofArray buf bufSize)
  have hfree : (ArrayOutputStream.ofArray buf bufSize).freeSpace = bufSize :=
    BitVec.sub_zero bufSize
  rw [← encode, hfree] at hwrite
  unfold create
  simp only [hwrite, decide_eq_true_eq]

/-- The position behind an append that fits the buffer. -/
theorem wpos_created (buf : Nat → Byte) (bufSize : SizeType) {e : List Byte}
    (h : e.length ≤ bufSize.toNat) :
    ((ArrayOutputStream.ofArray buf bufSize).append e).wpos.toNat = e.length := by
  have hfree : (ArrayOutputStream.ofArray buf bufSize).freeSpace = bufSize :=
    BitVec.sub_zero bufSize
  rw [ArrayOutputStream.wpos_append, hfree, Nat.min_eq_left h]
  exact Nat.zero_add _

/-- `create` returns the length of the encoding, or 0 if that does not fit. -/
theorem create_fst (buf : Nat → Byte) (bufSize : SizeType) (type : Msg α)
    (msg : type.fields.Object) :
    (create buf bufSize type msg).1.toNat =
      if (encode type msg).length ≤ bufSize.toNat then (encode type msg).length else 0 := by
  rw [create_eq]
  simp only
  split
  · next hfit => exact wpos_created buf bufSize hfit
  · rfl

/-- The discovery message that `sendDiscoveryMessage` sends always fits its buffer. -/
theorem create_discovery (buf : Nat → Byte) (msg : Discovery.fields.Object) :
    (create buf (BitVec.ofNat 32 bufferSize) Discovery msg).1.toNat = discoveryMessageLength := by
  rw [create_fst, length_encode]
  rfl

/-- A write never puts in a part of what follows a part that did not fit. -/
theorem write_all_or_prefix :
    (∀ {α : Type} (t : CppType α) (object : t.Object) (s : ArrayOutputStream),
      AllOrPrefix s (t.encode object) (t.write object s)) ∧
    ∀ {α : Type} (type : Msg α) (msg : type.fields.Object) (buf : Nat → Byte) (bufSize : SizeType),
      (create buf bufSize type msg).1.toNat =
        if 4 + (type.fields.encode msg).length ≤ bufSize.toNat then
          4 + (type.fields.encode msg).length
        else 0 := by
  constructor
  · intro α t object s
    exact (t.write_appends object).allOrPrefix s
  · intro α type msg buf bufSize
    rw [create_fst, length_encode]

end EspAcDimmer.Messages
