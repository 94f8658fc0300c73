import EspAcDimmer.Streams.OutputStream
import Mathlib.Data.List.GetD

/-! # What a write appends

An object has an encoding that the stream has no part in. Every write appends as much of it as the
buffer holds, and returns true iff that is all: a write that comes up short stops everything behind
it.
-/

namespace EspAcDimmer.Streams

open LittleEndian

variable {α ι κ ν : Type}

/-! ## Encodings -/

/-- Items behind their markers, and the end marker. -/
def encodeMarked (items : List (List Byte)) : List Byte :=
  items.flatMap (SerializationMarker.item :: ·) ++ [SerializationMarker.end_]

def CppType.encode : {α : Type} → (t : CppType α) → t.Object → List Byte
  | _, .scalar size => fun value => toBytes size value.toNat
  | _, .string => fun str => toBytes 4 str.1.length ++ str.1
  | _, .vector _ _ => nofun
  | _, .list item => fun list => encodeMarked (List.map item.encode list)
  | _, .set item _ => fun set => encodeMarked (set.1.map item.encode)
  | _, .map key mapped _ => fun map =>
    encodeMarked (map.1.map fun p => key.encode p.1 ++ mapped.encode p.2)
  | _, .unorderedMap key mapped _ => fun map =>
    encodeMarked (map.1.map fun p => key.encode p.1 ++ mapped.encode p.2)
  | _, .done => fun _ => []
  | _, .field first rest => fun object => first.encode object.1 ++ rest.encode object.2

@[simp] theorem encodeMarked_nil : encodeMarked [] = [SerializationMarker.end_] := rfl

@[simp] theorem encodeMarked_cons (e : List Byte) (es : List (List Byte)) :
    encodeMarked (e :: es) = SerializationMarker.item :: (e ++ encodeMarked es) := by
  simp [encodeMarked]

/-! ## Appending -/

namespace ArrayOutputStream

variable {s : ArrayOutputStream} {e e₁ e₂ : List Byte}

/-- The stream after it was offered these bytes. -/
def append (s : ArrayOutputStream) (e : List Byte) : ArrayOutputStream := (s.writeBytes e).2

def written (s : ArrayOutputStream) : List Byte := (List.range s.wpos.toNat).map s.buf

@[simp] theorem wpos_append : (s.append e).wpos.toNat =
    s.wpos.toNat + min e.length s.freeSpace.toNat :=
  s.wpos_add_toNat (Nat.min_le_right _ _)

@[simp] theorem bufsize_append : (s.append e).bufsize = s.bufsize := rfl

@[simp] theorem freeSpace_append : (s.append e).freeSpace.toNat = s.freeSpace.toNat - e.length := by
  rw [freeSpace_toNat, wpos_append, bufsize_append, freeSpace_toNat]
  lia

theorem buf_append (p : Nat) : (s.append e).buf p =
    if s.wpos.toNat ≤ p ∧ p < s.wpos.toNat + min e.length s.freeSpace.toNat then
      e.getD (p - s.wpos.toNat) 0
    else s.buf p := rfl

/-- A stream is its buffer, its size and its position. -/
theorem ext {s t : ArrayOutputStream} (hbuf : ∀ p, s.buf p = t.buf p)
    (hbufsize : s.bufsize = t.bufsize) (hwpos : s.wpos.toNat = t.wpos.toNat) : s = t := by
  have hb : s.buf = t.buf := funext hbuf
  have hw : s.wpos = t.wpos := BitVec.eq_of_toNat_eq hwpos
  cases s
  cases t
  simp only at hb hbufsize hw
  subst hb hbufsize hw
  rfl

/-- Bytes that do not fit keep out all that would follow. -/
theorem append_short (h : s.freeSpace.toNat < e₁.length) : s.append (e₁ ++ e₂) = s.append e₁ := by
  apply ext
  · intro p
    simp only [buf_append, List.length_append]
    rw [Nat.min_eq_right (by lia), Nat.min_eq_right (by lia)]
    split
    · next hp => rw [List.getD_append _ _ _ _ (by lia)]
    · rfl
  · rfl
  · simp only [wpos_append, List.length_append]
    lia

/-- Bytes that fit leave room for what follows. -/
theorem append_append (h : e₁.length ≤ s.freeSpace.toNat) :
    (s.append e₁).append e₂ = s.append (e₁ ++ e₂) := by
  apply ext
  · intro p
    simp only [buf_append, wpos_append, freeSpace_append, List.length_append]
    rw [Nat.min_eq_left h]
    by_cases hfirst : p < s.wpos.toNat + e₁.length
    · rw [if_neg (by lia)]
      by_cases hp : s.wpos.toNat ≤ p
      · rw [if_pos (by lia), if_pos (by lia), List.getD_append _ _ _ _ (by lia)]
      · rw [if_neg (by lia), if_neg (by lia)]
    · by_cases hp : p < s.wpos.toNat + min (e₁.length + e₂.length) s.freeSpace.toNat
      · rw [if_pos (by lia), if_pos (by lia), List.getD_append_right _ _ _ _ (by lia)]
        congr 1
        lia
      · rw [if_neg (by lia), if_neg (by lia), if_neg (by lia)]
  · rfl
  · simp only [wpos_append, freeSpace_append, List.length_append]
    lia

/-- The bytes written before stay, and as many of the new ones follow as there is room for. -/
theorem written_append : (s.append e).written = s.written ++ e.take s.freeSpace.toNat := by
  apply List.ext_getElem
  · simp [written, Nat.min_comm]
  · intro i h₁ h₂
    simp only [written, List.length_map, List.length_range, wpos_append] at h₁
    simp only [written, List.getElem_map, List.getElem_range, buf_append]
    by_cases hi : i < s.wpos.toNat
    · rw [if_neg (by lia), List.getElem_append_left (by simpa using hi)]
      simp
    · rw [if_pos (by lia), List.getElem_append_right (by simpa using hi)]
      have hlt : i - s.wpos.toNat < e.length := by lia
      simp [List.getD_eq_getElem?_getD, hlt]

end ArrayOutputStream

open ArrayOutputStream

/-- A writer that appends these bytes, as far as they fit, and says whether they did. -/
def Appends (write : ArrayOutputStream → Bool × ArrayOutputStream) (e : List Byte) : Prop :=
  ∀ s, write s = (decide (e.length ≤ s.freeSpace.toNat), s.append e)

/-- `&&`: the second writer is called only if the first returned true. -/
theorem Appends.and {w₁ w₂ : ArrayOutputStream → Bool × ArrayOutputStream} {e₁ e₂ : List Byte}
    (h₁ : Appends w₁ e₁) (h₂ : Appends w₂ e₂) :
    Appends (fun s =>
      let (ok, s') := w₁ s
      if !ok then (false, s') else w₂ s') (e₁ ++ e₂) := by
  intro s
  simp only [h₁ s, List.length_append]
  by_cases hfit : e₁.length ≤ s.freeSpace.toNat
  · have hiff : e₂.length ≤ s.freeSpace.toNat - e₁.length ↔
        e₁.length + e₂.length ≤ s.freeSpace.toNat := by lia
    rw [decide_eq_true hfit, h₂, freeSpace_append, append_append hfit, decide_eq_decide.mpr hiff]
    rfl
  · rw [decide_eq_false hfit, append_short (by lia), decide_eq_false (by lia)]
    rfl

/-- Bytes are appended as far as they fit. -/
theorem writeBytes_appends (e : List Byte) :
    Appends (fun s => (decide (e.length = (s.writeBytes e).1), (s.writeBytes e).2)) e := by
  intro s
  have hiff : e.length = (s.writeBytes e).1 ↔ e.length ≤ s.freeSpace.toNat := by
    show e.length = min e.length s.freeSpace.toNat ↔ _
    lia
  simp only [decide_eq_decide.mpr hiff]
  rfl

theorem writeScalar_appends (size : Nat) (value : BitVec (8 * size)) :
    Appends (writeScalar size value) (toBytes size value.toNat) := by
  have h := writeBytes_appends (toBytes size value.toNat)
  rw [length_toBytes] at h
  exact h

/-- A string is its length and its characters. -/
theorem writeString_appends (str : { s : List Byte // s.length < 2 ^ 32 }) :
    Appends (writeString str) (toBytes 4 str.1.length ++ str.1) := by
  have hlen : (BitVec.ofNat 32 str.1.length).toNat = str.1.length := by
    rw [BitVec.toNat_ofNat, Nat.mod_eq_of_lt str.2]
  have hcount := writeScalar_appends 4 (BitVec.ofNat 32 str.1.length)
  have h := hcount.and (writeBytes_appends str.1)
  rw [hlen] at h
  intro s
  rw [← h s]
  unfold writeString
  simp only [hlen]

/-- Two parts, the second behind the first. -/
theorem writeBoth_appends {writeFirst : κ → ArrayOutputStream → Bool × ArrayOutputStream}
    {writeSecond : ν → ArrayOutputStream → Bool × ArrayOutputStream} {e₁ : κ → List Byte}
    {e₂ : ν → List Byte} (h₁ : ∀ a, Appends (writeFirst a) (e₁ a))
    (h₂ : ∀ b, Appends (writeSecond b) (e₂ b)) (p : κ × ν) :
    Appends (writeBoth writeFirst writeSecond p) (e₁ p.1 ++ e₂ p.2) :=
  (h₁ p.1).and (h₂ p.2)

/-- Items behind their markers, by induction on the items. -/
theorem writeItems_appends {writeItem : ι → ArrayOutputStream → Bool × ArrayOutputStream}
    {e : ι → List Byte} (h : ∀ i, Appends (writeItem i) (e i)) (items : List ι) :
    Appends (writeItems writeItem items) (encodeMarked (items.map e)) := by
  induction items with
  | nil => exact writeScalar_appends 1 SerializationMarker.end_
  | cons item items ih =>
    have hmarker := writeScalar_appends 1 SerializationMarker.item
    rw [List.map_cons, encodeMarked_cons]
    exact hmarker.and ((h item).and ih)

/-- Every writer appends the encoding of its object: one case for each kind of type. -/
theorem CppType.write_appends (t : CppType α) (object : t.Object) :
    Appends (t.write object) (t.encode object) := by
  induction t with
  | scalar size => exact writeScalar_appends size object
  | string => exact writeString_appends object
  | vector item sizeof ih => exact object.elim
  | list item ih => exact writeItems_appends ih object
  | set item order ih => exact writeItems_appends ih object.1
  | map key mapped order ihk ihm => exact writeItems_appends (writeBoth_appends ihk ihm) object.1
  | unorderedMap key mapped eq ihk ihm =>
    exact writeItems_appends (writeBoth_appends ihk ihm) object.1
  | done =>
    intro s
    refine Prod.ext rfl (ArrayOutputStream.ext ?_ rfl ?_)
    · intro p
      rw [buf_append, if_neg (by simp [encode])]
      rfl
    · simp [encode, write]
  | field first rest ihf ihr => exact writeBoth_appends ihf ihr object

/-- All or a prefix: what a write of an object with this encoding does to a stream, and returns. -/
structure AllOrPrefix (s : ArrayOutputStream) (e : List Byte) (r : Bool × ArrayOutputStream) :
    Prop where
  ok_iff : r.1 = true ↔ e.length ≤ s.freeSpace.toNat
  appended : r.2.written = s.written ++ e.take (min e.length s.freeSpace.toNat)
  before : ∀ p < s.dataSize.toNat, r.2.buf p = s.buf p
  behind : ∀ p, s.dataSize.toNat + min e.length s.freeSpace.toNat ≤ p → r.2.buf p = s.buf p
  outside : ∀ p, s.bufsize.toNat ≤ p → r.2.buf p = s.buf p
  bufsize : r.2.bufsize = s.bufsize
  space : r.2.dataSize.toNat + r.2.freeSpace.toNat = s.bufsize.toNat
  full : r.1 = false → r.2.freeSpace = 0

/-- A writer that appends puts in all of the bytes, or a prefix of them. -/
theorem Appends.allOrPrefix {w : ArrayOutputStream → Bool × ArrayOutputStream} {e : List Byte}
    (h : Appends w e) (s : ArrayOutputStream) : AllOrPrefix s e (w s) := by
  rw [h s]
  constructor
  case ok_iff => exact decide_eq_true_iff
  case appended =>
    rw [written_append, Nat.min_comm, ← List.take_take, List.take_length]
  case before =>
    intro p hp
    unfold dataSize at hp
    exact if_neg (by lia)
  case behind =>
    intro p hp
    unfold dataSize at hp
    exact if_neg (by lia)
  case outside =>
    intro p hp
    have hfree := s.freeSpace_toNat
    have hwpos := s.wpos_le
    exact if_neg (by lia)
  case bufsize => rfl
  case space =>
    have hle := (s.append e).wpos_le
    have hfree := (s.append e).freeSpace_toNat
    rw [bufsize_append] at hle hfree
    unfold dataSize
    lia
  case full =>
    intro hno
    have hlong : ¬ e.length ≤ s.freeSpace.toNat := decide_eq_false_iff_not.mp hno
    apply BitVec.eq_of_toNat_eq
    rw [freeSpace_append]
    show s.freeSpace.toNat - e.length = 0
    lia

end EspAcDimmer.Streams
