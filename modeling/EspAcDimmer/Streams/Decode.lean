import EspAcDimmer.Lib.Framing
import EspAcDimmer.Streams.Bounds

/-! # What a read makes of the bytes left

The readers change a stream and a target. What they find depends on neither: it is a function of the
bytes that are left, a decoder for each type. A reader meets its decoder if it returns true exactly
where the decoder finds something, leaves the bytes the decoder leaves, and does to its target what
these bytes say.
-/

namespace EspAcDimmer.Streams

open Framing LittleEndian UniqueKeys

variable {α κ ν γ ι C : Type}

/-! ## Decoders -/

def decodeScalar (size : Nat) : Decoder Byte (BitVec (8 * size)) :=
  (Decoder.take Byte size).map fun data => BitVec.ofNat (8 * size) (ofBytes data)

def decodeItemsCount : Decoder Byte SizeType := decodeScalar 4

/-- The count becomes an `int` on its way to the iterator. -/
def decodeString : Decoder Byte (List Byte) :=
  decodeItemsCount.bind fun itemsCount =>
    if itemsCount.toNat < 2 ^ 31 then Decoder.take Byte itemsCount.toNat
    else Decoder.fail Byte (List Byte)

/-- Elements one after the other, each over the one before, as long as the bytes left would hold an
element in memory. -/
def decodeElems (d : Decoder Byte C) (overlay : α → C → α) (sizeof : Nat) :
    Nat → α → Decoder Byte (List α)
  | 0, _ => Decoder.pure Byte []
  | n + 1, value =>
    (d.bind fun c =>
      (decodeElems d overlay sizeof n (overlay value c)).map (overlay value c :: ·)).ifLeft sizeof

def decodeVector (d : Decoder Byte C) (overlay : α → C → α) (sizeof : Nat) (value : α) :
    Decoder Byte (List α) :=
  decodeItemsCount.bind fun itemsCount =>
    if itemsCount.toNat < 2 ^ 31 then
      (decodeElems d overlay sizeof itemsCount.toNat value).ifLeft itemsCount.toNat
    else Decoder.fail Byte (List α)

/-- Items between markers. -/
def decodeMarked (d : Decoder Byte ι) : Decoder Byte (List ι) :=
  d.items SerializationMarker.item SerializationMarker.end_

def CppType.decode : {α : Type} → (t : CppType α) → Decoder Byte t.Content
  | _, .scalar size => decodeScalar size
  | _, .string => decodeString
  | _, .vector item sizeof => decodeVector item.decode item.overlay sizeof item.default
  | _, .list item => decodeMarked (item.decode.map item.meaning)
  | _, .set item _ => decodeMarked (item.decode.map item.meaning)
  | _, .map key mapped _ =>
    decodeMarked ((key.decode.map key.meaning).seq (mapped.decode.map mapped.meaning))
  | _, .unorderedMap key mapped _ =>
    decodeMarked ((key.decode.map key.meaning).seq (mapped.decode.map mapped.meaning))
  | _, .done => Decoder.pure Byte ()
  | _, .field first rest => first.decode.seq rest.decode

/-! ## Bytes left -/

namespace ArrayInputStream

/-- The position is not past the end. -/
def InBuffer (s : ArrayInputStream) : Prop := s.rpos.toNat ≤ s.bufsize.toNat

def unread (s : ArrayInputStream) : List Byte :=
  (List.range s.size.toNat).map fun i => s.buf (s.rpos.toNat + i)

variable {s : ArrayInputStream}

@[simp] theorem length_unread (s : ArrayInputStream) : s.unread.length = s.size.toNat := by
  simp [unread]

@[simp] theorem unread_reserve (itemsCount : SizeType) : (s.reserve itemsCount).unread = s.unread :=
  rfl

theorem InBuffer.inside (hs : s.InBuffer) (h : s.copied = []) : s.Inside s.bufsize :=
  .of_position rfl hs (by simp [h])

/-- A new stream has all its bytes left. -/
theorem inBuffer_ofArray {bytes : List Byte} (h : bytes.length < 2 ^ 32) :
    (ofArray bytes).InBuffer ∧ (ofArray bytes).unread = bytes := by
  have hsize : (ofArray bytes).size.toNat = bytes.length := by
    show (BitVec.ofNat 32 bytes.length - 0#32).toNat = bytes.length
    rw [BitVec.sub_zero, BitVec.toNat_ofNat, Nat.mod_eq_of_lt h]
  refine ⟨Nat.zero_le _, List.ext_getElem (by simp [hsize]) ?_⟩
  intro i h₁ h₂
  simp [unread, ofArray, h₂]

/-- Inside the buffer, `readBytes` takes its bytes off the front of those left. -/
theorem InBuffer.readBytes (hs : s.InBuffer) (dataSize : SizeType) :
    (s.readBytes dataSize).2.InBuffer ∧ (s.readBytes dataSize).1 = s.unread.take dataSize.toNat ∧
      (s.readBytes dataSize).2.unread = s.unread.drop dataSize.toNat := by
  have hsize := s.size_readBytes dataSize
  have hle := s.size_readBytes_le dataSize
  have hmin : (if s.size < dataSize then s.size else dataSize).toNat =
      min dataSize.toNat s.size.toNat := by
    simp only [BitVec.lt_def]
    split <;> omega
  have hleft : s.size.toNat = s.bufsize.toNat - s.rpos.toNat := BitVec.toNat_sub_of_le hs
  unfold unread InBuffer at *
  rw [hsize]
  unfold ArrayInputStream.readBytes
  generalize hn : (if s.size < dataSize then s.size else dataSize) = n at *
  have hrpos : (s.rpos + n).toNat = s.rpos.toNat + n.toNat := by
    rw [BitVec.toNat_add, Nat.mod_eq_of_lt (by have := s.bufsize.isLt; omega)]
  refine ⟨?_, ?_, ?_⟩
  · simp only [hrpos]
    omega
  · dsimp only
    rw [hmin, ← List.map_take, List.take_range]
  · apply List.ext_getElem
    · simp
    · intro i h₁ h₂
      simp only [List.length_map, List.length_range] at h₁
      simp only [List.getElem_map, List.getElem_range, List.getElem_drop, hrpos]
      congr 1
      omega

theorem inBuffer_kept : Kept InBuffer :=
  ⟨fun _ dataSize hs => (hs.readBytes dataSize).1, fun _ _ hs => hs, fun _ hs => hs⟩

end ArrayInputStream

open ArrayInputStream

/-! ## Readers and decoders -/

/-- What a read returned and left, against what the decoder found. -/
def Read.Meets (r : Read α) (found : Option (C × List Byte)) (result : C → α) : Prop :=
  match found with
  | none => r.ok = false
  | some (c, u) => r.ok = true ∧ r.target = result c ∧ r.stream.unread = u

/-- Inside the buffer a reader does to its target what the decoder finds. -/
def Meets (read : α → ArrayInputStream → Read α) (d : Decoder Byte C) (overlay : α → C → α) :
    Prop :=
  ∀ object s, s.InBuffer → (read object s).Meets (d.run s.unread) (overlay object)

/-- A scalar takes its size off the front. -/
theorem run_decodeScalar (size : Nat) (u : List Byte) :
    (decodeScalar size).run u =
      if size ≤ u.length then some (BitVec.ofNat (8 * size) (ofBytes (u.take size)), u.drop size)
      else none := by
  show Option.map _ (if size ≤ u.length then _ else _) = _
  split <;> rfl

/-- A copy of full size leaves nothing of the target. -/
theorem copyInto_of_length {size : Nat} {value : BitVec (8 * size)} {data : List Byte}
    (h : data.length = size) : copyInto value data = BitVec.ofNat (8 * size) (ofBytes data) := by
  unfold copyInto
  rw [List.drop_of_length_le (by rw [length_toBytes, h]), List.append_nil]

/-- A scalar is what its bytes say, whatever it was. -/
theorem readScalar_meets (size : Nat) :
    Meets (readScalar size) (decodeScalar size) fun _ c => c := by
  intro value s hs
  rw [run_decodeScalar, length_unread]
  unfold readScalar
  by_cases h : size > s.size.toNat
  · rw [if_pos h, if_neg (by omega)]
    rfl
  · rw [if_neg h, if_pos (by omega)]
    rcases hs.readBytes (BitVec.ofNat 32 size) with ⟨-, hdata, hleft⟩
    have hsize : (BitVec.ofNat 32 size).toNat = size := by
      rw [BitVec.toNat_ofNat, Nat.mod_eq_of_lt (by have := s.size.isLt; omega)]
    have hlen : (s.unread.take size).length = size := by
      rw [List.length_take, length_unread]
      omega
    rw [hsize] at hdata hleft
    refine ⟨?_, ?_, hleft⟩
    · simp only [hdata, hlen, decide_true]
    · simp only [hdata, copyInto_of_length hlen]

/-- A decoder's value put into another shape. -/
theorem Read.Meets.map {r : Read α} {found : Option (C × List Byte)} {result : C → α}
    (h : r.Meets found result) (f : C → ι) {result' : ι → α} (hf : ∀ c, result' (f c) = result c) :
    r.Meets (found.map fun p => (f p.1, p.2)) result' := by
  cases found with
  | none => exact h
  | some p => exact ⟨h.1, h.2.1.trans (hf p.1).symm, h.2.2⟩

/-- Where the decoder finds nothing, the read returns false. -/
theorem Meets.none {read : α → ArrayInputStream → Read α} {d : Decoder Byte C} {overlay : α → C → α}
    (h : Meets read d overlay) {object : α} {s : ArrayInputStream} (hs : s.InBuffer)
    (hd : d.run s.unread = none) : (read object s).ok = false := by
  have hr := h object s hs
  rw [hd] at hr
  exact hr

/-- Where it finds something, the target becomes what that makes of it. -/
theorem Meets.some {read : α → ArrayInputStream → Read α} {d : Decoder Byte C} {overlay : α → C → α}
    (h : Meets read d overlay) (object : α) {s : ArrayInputStream} (hs : s.InBuffer) {c : C}
    {u : List Byte} (hd : d.run s.unread = some (c, u)) :
    (read object s).ok = true ∧ (read object s).target = overlay object c ∧
      (read object s).stream.unread = u := by
  have hr := h object s hs
  rw [hd] at hr
  exact hr

section Iterator

variable {read : α → ArrayInputStream → Read α} {d : Decoder Byte C} {overlay : α → C → α}
  {sizeof : Nat} {value : α} {u v : List Byte} {n : Nat}

/-- Elements end where the bytes left would not hold one in memory. -/
theorem run_decodeElems_short (h : u.length < sizeof) :
    (decodeElems d overlay sizeof (n + 1) value).run u = none := by
  simp only [decodeElems, Decoder.ifLeft]
  rw [if_neg (by omega)]

theorem run_decodeElems_none (h : d.run u = none) :
    (decodeElems d overlay sizeof (n + 1) value).run u = none := by
  simp only [decodeElems, Decoder.ifLeft, Decoder.bind, h]
  split <;> rfl

/-- The next element is read over the one before. -/
theorem run_decodeElems_some {c : C} (hlen : sizeof ≤ u.length) (h : d.run u = some (c, v)) :
    (decodeElems d overlay sizeof (n + 1) value).run u =
      ((decodeElems d overlay sizeof n (overlay value c)).run v).map fun p =>
        (overlay value c :: p.1, p.2) := by
  simp only [decodeElems, Decoder.ifLeft, Decoder.bind, h]
  rw [if_pos hlen]
  rfl

/-- There are as many as were asked for. -/
theorem length_of_decodeElems {values : List α}
    (h : (decodeElems d overlay sizeof n value).run u = some (values, v)) : values.length = n := by
  induction n generalizing value u values with
  | zero =>
    rcases Prod.mk.inj (Option.some.inj h) with ⟨hv, -⟩
    rw [← hv, List.length_nil]
  | succ n ih =>
    by_cases hlen : u.length < sizeof
    · rw [run_decodeElems_short hlen] at h
      exact absurd h (by simp)
    cases hd : d.run u with
    | none =>
      rw [run_decodeElems_none hd] at h
      exact absurd h (by simp)
    | some p =>
      rw [run_decodeElems_some (Nat.not_lt.mp hlen) hd] at h
      rcases Option.map_eq_some_iff.mp h with ⟨q, hq, he⟩
      rcases Prod.mk.inj he with ⟨hvalues, hv⟩
      have hq' : (decodeElems d overlay sizeof n (overlay value p.1)).run p.2 = some (q.1, v) := by
        rw [hq, ← hv]
      rw [← hvalues, List.length_cons, ih hq']

namespace Iterator

/-- The last step of an iterator. -/
theorem next_end {itr : Iterator α} {s : ArrayInputStream}
    (h : s.size.toNat < sizeof ∨ itr.itemsLeft ≤ 0) :
    itr.next read sizeof s = ({ itr with itemsLeft := endOfIterations }, s) :=
  if_pos h

/-- Every other step reads an element, and ends there if that fails. -/
theorem next_read {itr : Iterator α} {s : ArrayInputStream} (hleft : sizeof ≤ s.size.toNat)
    (hitems : 0 < itr.itemsLeft) :
    itr.next read sizeof s = if (read itr.value s).ok then
      (⟨itr.itemsLeft - 1, (read itr.value s).target⟩, (read itr.value s).stream)
    else (⟨endOfIterations, (read itr.value s).target⟩, (read itr.value s).stream) :=
  if_neg (by omega)

/-- An iterator at its end yields nothing. -/
theorem collect_end {itr : Iterator α} {s : ArrayInputStream}
    (h : itr.itemsLeft = endOfIterations) :
    collect read sizeof n itr s = ([], s) := by
  cases n with
  | zero => simp [collect, h]
  | succ n => exact if_pos h

/-- Any other yields its element and goes on. -/
theorem collect_item {itr : Iterator α} {s : ArrayInputStream}
    (h : itr.itemsLeft ≠ endOfIterations) :
    collect read sizeof (n + 1) itr s =
      let p := itr.next read sizeof s
      let q := collect read sizeof n p.1 p.2
      (itr.value :: q.1, q.2) :=
  if_neg h

variable (sizeof) in
/-- What an iterator in front of `n` elements goes on to yield. -/
theorem collect_meets (hread : Meets read d overlay) (hkeeps : Keeps InBuffer read) (n : Nat)
    (value : α) {s : ArrayInputStream} (hs : s.InBuffer) :
    let p := next read sizeof ⟨n, value⟩ s
    let q := collect read sizeof n p.1 p.2
    match (decodeElems d overlay sizeof n value).run s.unread with
    | none => q.1.length < n
    | some (values, u) => q.1 = values ∧ q.2.unread = u := by
  induction n generalizing value s with
  | zero =>
    rw [next_end (Or.inr (by simp))]
    exact ⟨rfl, rfl⟩
  | succ n ih =>
    by_cases hlen : s.size.toNat < sizeof
    · -- too little is left for an element in memory
      rw [next_end (Or.inl hlen), run_decodeElems_short (by rwa [length_unread])]
      simp only
      rw [collect_end rfl]
      exact Nat.succ_pos n
    have hlen' : sizeof ≤ s.size.toNat := Nat.not_lt.mp hlen
    rw [next_read hlen' (by simp only; omega)]
    cases hd : d.run s.unread with
    | none =>
      rw [run_decodeElems_none hd, hread.none hs hd]
      simp only [Bool.false_eq_true, if_false]
      rw [collect_end rfl]
      exact Nat.succ_pos n
    | some p =>
      rcases p with ⟨c, u⟩
      rcases hread.some value hs hd with ⟨hok, htarget, hunread⟩
      have hitems : ((n + 1 : Nat) : Int) - 1 = n := by omega
      have hrec := ih (overlay value c) (hkeeps value s hs)
      rw [run_decodeElems_some (by rwa [length_unread]) hd, hok, htarget, hitems]
      rw [hunread] at hrec
      simp only [if_true]
      rw [collect_item (by simp only [endOfIterations]; omega)]
      cases he : (decodeElems d overlay sizeof n (overlay value c)).run u with
      | none =>
        simp only [he] at hrec
        simpa using hrec
      | some q =>
        simp only [he] at hrec
        exact ⟨congrArg (overlay value c :: ·) hrec.1, hrec.2⟩

/-- `begin` is before the first of as many elements as the count says. -/
theorem begin_elems {itemsCount : SizeType} {s : ArrayInputStream}
    (hint : itemsCount.toNat < 2 ^ 31) (hle : itemsCount.toNat ≤ s.size.toNat) :
    begin read sizeof value itemsCount s = next read sizeof ⟨itemsCount.toNat, value⟩ s := by
  have htoInt : itemsCount.toInt = (itemsCount.toNat : Int) :=
    BitVec.toInt_eq_toNat_of_lt (by omega)
  unfold begin
  rw [if_neg (by rw [BitVec.lt_def]; omega), htoInt]

/-- `begin` is `end`: the count is more than is left, or not positive as an `int`. -/
theorem begin_end {itemsCount : SizeType} {s : ArrayInputStream}
    (h : ¬ (itemsCount.toNat < 2 ^ 31 ∧ itemsCount.toNat ≤ s.size.toNat)) :
    begin read sizeof value itemsCount s = (⟨endOfIterations, value⟩, s) := by
  unfold begin
  split
  · exact next_end (Or.inr (by simp [endOfIterations]))
  · next hcount =>
    refine next_end (Or.inr ?_)
    have hle := BitVec.lt_def.not.mp hcount
    have htoInt := BitVec.toInt_eq_toNat_cond itemsCount
    have := itemsCount.isLt
    rw [if_neg (by omega)] at htoInt
    simp only
    omega

variable (sizeof) in
/-- The elements of a container built from `begin` and `end`: as many as the count says, or
less. -/
theorem range_meets (hread : Meets read d overlay) (hkeeps : Keeps InBuffer read) (value : α)
    (itemsCount : SizeType) {s : ArrayInputStream} (hs : s.InBuffer) :
    let q := range read sizeof value itemsCount s
    match (if itemsCount.toNat < 2 ^ 31 then
        (decodeElems d overlay sizeof itemsCount.toNat value).ifLeft itemsCount.toNat
      else Decoder.fail Byte (List α)).run s.unread with
    | none => q.1.length ≠ itemsCount.toNat
    | some (values, u) => q.1 = values ∧ q.1.length = itemsCount.toNat ∧ q.2.unread = u := by
  unfold range
  by_cases h : itemsCount.toNat < 2 ^ 31 ∧ itemsCount.toNat ≤ s.size.toNat
  · have hcollect := collect_meets sizeof hread hkeeps itemsCount.toNat value hs
    rw [begin_elems h.1 h.2, if_pos h.1]
    simp only [Decoder.ifLeft, length_unread, if_pos h.2]
    cases he : (decodeElems d overlay sizeof itemsCount.toNat value).run s.unread with
    | none =>
      simp only [he] at hcollect
      exact Nat.ne_of_lt hcollect
    | some p =>
      simp only [he] at hcollect
      refine ⟨hcollect.1, ?_, hcollect.2⟩
      rw [hcollect.1]
      exact length_of_decodeElems he
  · have hnone : (if itemsCount.toNat < 2 ^ 31 then
          (decodeElems d overlay sizeof itemsCount.toNat value).ifLeft itemsCount.toNat
        else Decoder.fail Byte (List α)).run s.unread = none := by
      split
      · next hint => exact if_neg fun hle => h ⟨hint, by rwa [length_unread] at hle⟩
      · rfl
    rw [begin_end h, hnone]
    simp only
    rw [collect_end rfl]
    simp only [List.length_nil]
    intro hzero
    exact h (by omega)

end Iterator

end Iterator

/-! ## Strings and vectors -/

/-- Characters one after the other are that many bytes. -/
theorem run_decodeElems_char (n : Nat) (value : Byte) (u : List Byte) :
    (decodeElems (decodeScalar 1) (fun _ c => c) 1 n value).run u =
      (Decoder.take Byte n).run u := by
  induction n generalizing value u with
  | zero => simp [decodeElems, Decoder.pure, Decoder.take]
  | succ n ih =>
    cases u with
    | nil => simp [run_decodeElems_short, Decoder.take]
    | cons b u =>
      have hd : (decodeScalar 1).run (b :: u) = some (b, u) := by
        simp [run_decodeScalar, ofBytes]
      rw [run_decodeElems_some (by simp) hd, ih]
      simp only [Decoder.take, List.length_cons, Nat.add_le_add_iff_right]
      split <;> simp

/-- The test of the container's size against the count. -/
theorem meets_of_length {items : List α} {itemsCount : Nat} {s : ArrayInputStream}
    {found : Option (List α × List Byte)}
    (h : match found with
      | none => items.length ≠ itemsCount
      | some (values, u) => items = values ∧ items.length = itemsCount ∧ s.unread = u) :
    (⟨items.length = itemsCount, items, s⟩ : Read (List α)).Meets found fun c => c := by
  cases found with
  | none => simpa [Read.Meets] using h
  | some p =>
    rcases h with ⟨hitems, hlen, hunread⟩
    exact ⟨by simpa using hlen, hitems, hunread⟩

/-- A string is the characters behind its count, or nothing. -/
theorem readString_meets : Meets readString decodeString fun _ c => c := by
  intro value s hs
  unfold readString decodeString readItemsCount decodeItemsCount
  have hkeeps := readScalar_keeps inBuffer_kept 4 0 s hs
  cases hd : (decodeScalar 4).run s.unread with
  | none =>
    simp only [(readScalar_meets 4).none hs hd, Decoder.bind, hd]
    rfl
  | some p =>
    rcases p with ⟨itemsCount, u⟩
    rcases (readScalar_meets 4).some 0 hs hd with ⟨hok, htarget, hunread⟩
    have hrange := Iterator.range_meets 1 (readScalar_meets 1)
      (readScalar_keeps inBuffer_kept 1) 0 itemsCount
      (inBuffer_kept.reserve _ itemsCount hkeeps)
    -- the characters are that many bytes
    have hchars : (if itemsCount.toNat < 2 ^ 31 then
          (decodeElems (decodeScalar 1) (fun _ c => c) 1 itemsCount.toNat 0).ifLeft itemsCount.toNat
        else Decoder.fail Byte (List Byte)).run u =
        (if itemsCount.toNat < 2 ^ 31 then Decoder.take Byte itemsCount.toNat
        else Decoder.fail Byte (List Byte)).run u := by
      split
      · simp only [Decoder.ifLeft, run_decodeElems_char, Decoder.take]
        split <;> rfl
      · rfl
    rw [unread_reserve, hunread] at hrange
    simp only [hok, htarget, Decoder.bind, hd, Option.bind_some, ← hchars]
    exact meets_of_length hrange

/-- A vector is the elements behind its count, or nothing. -/
theorem readVector_meets {read : α → ArrayInputStream → Read α} {d : Decoder Byte C}
    {overlay : α → C → α} {sizeof : Nat} {value : α} (hread : Meets read d overlay)
    (hkeeps : Keeps InBuffer read) :
    Meets (readVector read sizeof value) (decodeVector d overlay sizeof value) fun _ c => c := by
  intro vec s hs
  unfold readVector decodeVector readItemsCount decodeItemsCount
  have hin := readScalar_keeps inBuffer_kept 4 0 s hs
  cases hd : (decodeScalar 4).run s.unread with
  | none =>
    simp only [(readScalar_meets 4).none hs hd, Decoder.bind, hd]
    rfl
  | some p =>
    rcases p with ⟨itemsCount, u⟩
    rcases (readScalar_meets 4).some 0 hs hd with ⟨hok, htarget, hunread⟩
    have hrange := Iterator.range_meets sizeof hread hkeeps value itemsCount hin
    rw [hunread] at hrange
    simp only [hok, htarget, Decoder.bind, hd, Option.bind_some]
    exact meets_of_length hrange

/-! ## Containers with markers -/

/-- A loop over items that each meet a decoder adds what the decoder finds, one after the other. -/
theorem readMarked_meets {readItem : γ → ArrayInputStream → Read γ} {d : Decoder Byte ι}
    {add : γ → ι → γ} (hitem : Meets readItem d add)
    (hkeeps : ∀ P, Kept P → Keeps P readItem) :
    Meets (readMarked readItem) (decodeMarked d) fun old is => is.foldl add old := by
  have hne : SerializationMarker.item ≠ SerializationMarker.end_ := by decide
  intro container s hs
  -- on the number of bytes left
  induction hlen : s.size.toNat using Nat.strongRecOn generalizing container s with
  | _ n ih =>
  have hmarker := readScalar_keeps inBuffer_kept 1 0 s hs
  rw [readMarked_eq fun n => hkeeps _ (size_kept n)]
  show Read.Meets _ (d.itemsRun _ _ s.unread) _
  cases hu : s.unread with
  | nil =>
    have hd : (decodeScalar 1).run s.unread = none := by
      rw [hu, run_decodeScalar]
      rfl
    simp only [(readScalar_meets 1).none hs hd]
    rw [Decoder.itemsRun_nil]
    rfl
  | cons m u =>
    have hd : (decodeScalar 1).run s.unread = some (m, u) := by
      rw [hu, run_decodeScalar]
      simp [ofBytes]
    rcases (readScalar_meets 1).some 0 hs hd with ⟨hok, htarget, hunread⟩
    have hless := size_readMarker hok
    simp only [hok, htarget, Bool.not_true, Bool.false_eq_true, if_false]
    by_cases hstop : m = SerializationMarker.end_
    · rw [if_pos hstop.symm, hstop, Decoder.itemsRun_stop]
      exact ⟨rfl, rfl, hunread⟩
    by_cases hmore : m = SerializationMarker.item
    · subst hmore
      rw [if_neg hne.symm, if_neg (not_not.mpr rfl)]
      rw [← hunread]
      cases hi : d.run (readScalar 1 0 s).stream.unread with
      | none =>
        rw [Decoder.itemsRun_more_none hne hi, hitem.none hmarker hi]
        rfl
      | some p =>
        rcases p with ⟨i, w⟩
        rcases hitem.some container hmarker hi with ⟨hiok, hitarget, hiunread⟩
        have hiless : (readItem container (readScalar 1 0 s).stream).stream.size.toNat ≤
            (readScalar 1 0 s).stream.size.toNat :=
          hkeeps _ (size_kept _) container _ (Nat.le_refl _)
        have hin := hkeeps _ inBuffer_kept container _ hmarker
        have hrest := ih _ (by omega) (add container i) _ hin rfl
        rw [Decoder.itemsRun_more hne hi, hiok, hitarget, ← hiunread]
        simp only [Bool.not_true, Bool.false_eq_true, if_false]
        exact hrest.map (i :: ·) fun is => rfl
    · rw [if_neg (Ne.symm hstop), if_pos (Ne.symm hmore), Decoder.itemsRun_other hstop hmore]
      rfl

section Item

variable {read : α → ArrayInputStream → Read α} {value : α} {d : Decoder Byte C}
  {overlay : α → C → α}

/-- A local object read and inserted. -/
theorem insertItem_meets (hread : Meets read d overlay) (insert : γ → α → γ) :
    Meets (fun set s =>
      let val := read value s
      if !val.ok then ⟨false, set, val.stream⟩ else ⟨true, insert set val.target, val.stream⟩)
      (d.map (overlay value)) insert := by
  intro set s hs
  simp only [Decoder.map]
  cases hd : d.run s.unread with
  | none =>
    rw [hread.none hs hd]
    rfl
  | some p =>
    rcases hread.some value hs hd with ⟨hok, htarget, hunread⟩
    simp only [hok, htarget]
    exact ⟨rfl, rfl, hunread⟩

/-- An object put at the end of a list and read there. -/
theorem appendItem_meets (hread : Meets read d overlay) :
    Meets (fun (list : List α) s =>
      let r := read value s
      ⟨r.ok, list ++ [r.target], r.stream⟩)
      (d.map (overlay value)) fun list x => list ++ [x] := by
  intro list s hs
  simp only [Decoder.map]
  cases hd : d.run s.unread with
  | none => exact hread.none hs hd
  | some p =>
    rcases hread.some value hs hd with ⟨hok, htarget, hunread⟩
    exact ⟨hok, by rw [htarget], hunread⟩

/-- A set has the elements inserted one after the other. -/
theorem readSet_meets {insert : γ → α → γ} (hread : Meets read d overlay)
    (hkeeps : ∀ P, Kept P → Keeps P read) :
    Meets (readSet insert read value) (decodeMarked (d.map (overlay value)))
      fun old xs => xs.foldl insert old :=
  readMarked_meets (insertItem_meets hread insert) fun P hP => insertItem_keeps (hkeeps P hP) insert

/-- A list has them at its end. -/
theorem readListLikeContainer_meets (hread : Meets read d overlay)
    (hkeeps : ∀ P, Kept P → Keeps P read) :
    Meets (readListLikeContainer read value) (decodeMarked (d.map (overlay value)))
      fun old xs => old ++ xs := by
  have hfold : (fun old xs : List α => old ++ xs) =
      fun old xs => xs.foldl (fun list x => list ++ [x]) old := by
    funext old xs
    induction xs generalizing old with
    | nil => simp
    | cons x xs ih => rw [List.foldl_cons, ← ih, List.append_assoc, List.singleton_append]
  rw [hfold]
  exact readMarked_meets (appendItem_meets hread) fun P hP list s hs => hkeeps P hP value s hs

end Item

/-! ## Any type -/

/-- A struct is read field by field. -/
theorem readFields_meets {readFirst : κ → ArrayInputStream → Read κ} {d : Decoder Byte C}
    {overlay₁ : κ → C → κ} {readRest : ν → ArrayInputStream → Read ν} {e : Decoder Byte ι}
    {overlay₂ : ν → ι → ν} (hfirst : Meets readFirst d overlay₁) (hrest : Meets readRest e overlay₂)
    (hkeeps : Keeps InBuffer readFirst) :
    Meets (readFields readFirst readRest) (d.seq e)
      fun object c => (overlay₁ object.1 c.1, overlay₂ object.2 c.2) := by
  intro object s hs
  unfold readFields
  simp only [Decoder.seq, Decoder.bind, Decoder.map]
  cases hd : d.run s.unread with
  | none =>
    rw [hfirst.none hs hd]
    rfl
  | some p =>
    rcases p with ⟨c, u⟩
    rcases hfirst.some object.1 hs hd with ⟨hok, htarget, hunread⟩
    have hin := hkeeps object.1 s hs
    simp only [hok, htarget, Bool.not_true, Bool.false_eq_true, if_false, Option.bind_some]
    rw [← hunread]
    cases he : e.run (readFirst object.1 s).stream.unread with
    | none => exact hrest.none hin he
    | some q =>
      rcases hrest.some object.2 hin he with ⟨hok₂, htarget₂, hunread₂⟩
      exact ⟨hok₂, by rw [htarget₂], hunread₂⟩

/-- Key and mapped value, read one after the other and inserted. -/
theorem readMapLikeContainer_meets {emplace : γ → κ × ν → γ} (key : CppType κ) (mapped : CppType ν)
    (hkey : Meets key.read key.decode key.overlay)
    (hmapped : Meets mapped.read mapped.decode mapped.overlay) :
    Meets (readMapLikeContainer emplace key.read key.default mapped.read mapped.default)
      (decodeMarked ((key.decode.map key.meaning).seq (mapped.decode.map mapped.meaning)))
      fun old xs => xs.foldl emplace old := by
  rw [readMapLikeContainer_eq, Decoder.map_seq]
  exact readSet_meets (readFields_meets hkey hmapped (key.read_keeps inBuffer_kept))
    fun P hP => readFields_keeps (key.read_keeps hP) (mapped.read_keeps hP)

/-- Refinement: every read does what its decoder finds in the bytes left. -/
theorem CppType.read_meets (t : CppType α) : Meets t.read t.decode t.overlay := by
  induction t with
  | scalar size => exact readScalar_meets size
  | string => exact readString_meets
  | vector item sizeof ih => exact readVector_meets ih (item.read_keeps inBuffer_kept)
  | list item ih => exact readListLikeContainer_meets ih fun P hP => item.read_keeps hP
  | set item order ih => exact readSet_meets ih fun P hP => item.read_keeps hP
  | map key mapped order ihk ihm => exact readMapLikeContainer_meets key mapped ihk ihm
  | unorderedMap key mapped eq ihk ihm => exact readMapLikeContainer_meets key mapped ihk ihm
  | done => exact fun _ _ _ => ⟨rfl, rfl, rfl⟩
  | field first rest ihf ihr => exact readFields_meets ihf ihr (first.read_keeps inBuffer_kept)

end EspAcDimmer.Streams
