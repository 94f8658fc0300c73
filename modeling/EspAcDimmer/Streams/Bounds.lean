import EspAcDimmer.Lib.Run
import EspAcDimmer.Streams.InputStream

/-! # Staying inside the buffer

The readers touch the stream through `readBytes` and `reserve` only, so whatever these two keep,
every read of every type keeps; and none of their loops is ever cut short. `reset` is the one
operation that moves the position by hand, and it moves it anywhere.
-/

namespace EspAcDimmer.Streams

open UniqueKeys Lts

variable {P : ArrayInputStream → Prop} {α κ ν γ : Type}

/-! ## What every read keeps -/

/-- A property of streams that the two primitives keep, and the end of a loop. -/
structure Kept (P : ArrayInputStream → Prop) : Prop where
  readBytes : ∀ s dataSize, P s → P (s.readBytes dataSize).2
  reserve : ∀ s itemsCount, P s → P (s.reserve itemsCount)
  cut : ∀ s, P s → P s.cut

/-- A reader that keeps it. -/
def Keeps (P : ArrayInputStream → Prop) (read : α → ArrayInputStream → Read α) : Prop :=
  ∀ object s, P s → P (read object s).stream

/-- A scalar is one call of `readBytes`. -/
theorem readScalar_keeps (hP : Kept P) (size : Nat) : Keeps P (readScalar size) := by
  intro value s hs
  unfold readScalar
  split
  · exact hs
  · exact hP.readBytes s _ hs

section Iterator

variable {read : α → ArrayInputStream → Read α} {sizeof : Nat}

/-- An iterator goes on by a read, or not at all. -/
theorem Iterator.next_keeps (hread : Keeps P read) (itr : Iterator α) {s : ArrayInputStream}
    (hs : P s) : P (itr.next read sizeof s).2 := by
  unfold next
  split
  · exact hs
  · have hr := hread itr.value s hs
    simp only
    split <;> exact hr

/-- The loop over an iterator keeps what its steps keep. -/
theorem Iterator.collect_keeps (hcut : ∀ s, P s → P s.cut) (hread : Keeps P read) (fuel : Nat)
    (itr : Iterator α) {s : ArrayInputStream} (hs : P s) :
    P (collect read sizeof fuel itr s).2 := by
  induction fuel generalizing itr s with
  | zero =>
    unfold collect
    split
    · exact hs
    · exact hcut s hs
  | succ fuel ih =>
    unfold collect
    split
    · exact hs
    · exact ih _ (next_keeps hread itr hs)

theorem Iterator.range_keeps (hcut : ∀ s, P s → P s.cut) (hread : Keeps P read) (value : α)
    (itemsCount : SizeType) {s : ArrayInputStream} (hs : P s) :
    P (range read sizeof value itemsCount s).2 := by
  have hbegin : P (begin read sizeof value itemsCount s).2 := by
    unfold begin
    split <;> exact next_keeps hread _ hs
  exact collect_keeps hcut hread _ _ hbegin

end Iterator

theorem readString_keeps (hP : Kept P) : Keeps P readString := by
  intro value s hs
  have hcount := readScalar_keeps hP 4 0 s hs
  unfold readString
  simp only
  split
  · exact hcount
  · exact Iterator.range_keeps hP.cut (readScalar_keeps hP 1) _ _ (hP.reserve _ _ hcount)

theorem readVector_keeps (hP : Kept P) {read : α → ArrayInputStream → Read α} {sizeof : Nat}
    {value : α} (hread : Keeps P read) : Keeps P (readVector read sizeof value) := by
  intro vec s hs
  have hcount := readScalar_keeps hP 4 0 s hs
  unfold readVector
  simp only
  split
  · exact hcount
  · exact Iterator.range_keeps hP.cut hread _ _ hcount

/-- The loop of a container keeps what its items keep. -/
theorem readItems_keeps (hP : Kept P) {readItem : γ → ArrayInputStream → Read γ}
    (hitem : Keeps P readItem) (fuel : Nat) : Keeps P (readItems readItem fuel) := by
  induction fuel with
  | zero => exact fun _ s hs => hP.cut s hs
  | succ fuel ih =>
    intro container s hs
    have hmarker := readScalar_keeps hP 1 0 s hs
    have hread := hitem container _ hmarker
    unfold readItems
    simp only
    split
    · exact hmarker
    split
    · exact hmarker
    split
    · exact hmarker
    split
    · exact hread
    · exact ih _ _ hread

theorem readMarked_keeps (hP : Kept P) {readItem : γ → ArrayInputStream → Read γ}
    (hitem : Keeps P readItem) : Keeps P (readMarked readItem) :=
  fun container s hs => readItems_keeps hP hitem _ container s hs

/-- The second part is read where the first one leaves off. -/
theorem readFields_keeps {readFirst : κ → ArrayInputStream → Read κ}
    {readRest : ν → ArrayInputStream → Read ν} (hfirst : Keeps P readFirst)
    (hrest : Keeps P readRest) : Keeps P (readFields readFirst readRest) := by
  intro object s hs
  have h₁ := hfirst object.1 s hs
  have h₂ := hrest object.2 _ h₁
  unfold readFields
  simp only
  split
  · exact h₁
  · exact h₂

/-- What is made of an element does not touch the stream. -/
theorem insertItem_keeps {read : α → ArrayInputStream → Read α} {value : α} (hread : Keeps P read)
    (insert : γ → α → γ) :
    Keeps P (fun set s =>
      let val := read value s
      if !val.ok then ⟨false, set, val.stream⟩ else ⟨true, insert set val.target, val.stream⟩) := by
  intro set s hs
  have hval := hread value s hs
  simp only
  split <;> exact hval

theorem readSet_keeps (hP : Kept P) {insert : γ → α → γ} {read : α → ArrayInputStream → Read α}
    {value : α} (hread : Keeps P read) : Keeps P (readSet insert read value) :=
  readMarked_keeps hP (insertItem_keeps hread insert)

/-- A map is read like a set of pairs. -/
theorem readMapLikeContainer_eq {emplace : γ → κ × ν → γ}
    {readKey : κ → ArrayInputStream → Read κ} {readValue : ν → ArrayInputStream → Read ν}
    {key : κ} {value : ν} : readMapLikeContainer emplace readKey key readValue value =
      readSet emplace (readFields readKey readValue) (key, value) := by
  unfold readMapLikeContainer readSet readFields
  congr 1
  funext map s
  simp only
  split <;> rfl

/-- The rule: one case for each kind of type. -/
theorem CppType.read_keeps (hP : Kept P) (t : CppType α) : Keeps P t.read := by
  induction t with
  | scalar size => exact readScalar_keeps hP size
  | string => exact readString_keeps hP
  | vector item sizeof ih => exact readVector_keeps hP ih
  | list item ih => exact readMarked_keeps hP fun list s hs => ih item.default s hs
  | set item order ih => exact readSet_keeps hP ih
  | map key mapped order ihk ihm =>
    unfold read
    rw [readMapLikeContainer_eq]
    exact readSet_keeps hP (readFields_keeps ihk ihm)
  | unorderedMap key mapped eq ihk ihm =>
    unfold read
    rw [readMapLikeContainer_eq]
    exact readSet_keeps hP (readFields_keeps ihk ihm)
  | done => exact fun _ _ hs => hs
  | field first rest ihf ihr => exact readFields_keeps ihf ihr

/-! ## The loop of a container reader -/

/-- What is read is not left. -/
theorem ArrayInputStream.size_readBytes (s : ArrayInputStream) (dataSize : SizeType) :
    (s.readBytes dataSize).2.size.toNat = s.size.toNat - dataSize.toNat := by
  unfold ArrayInputStream.readBytes
  have hsize : ∀ n : SizeType, ({ s with
      rpos := s.rpos + n
      copied := s.copied ++ [(s.rpos.toNat, n.toNat)] } : ArrayInputStream).size = s.size - n := by
    intro n
    simp only [ArrayInputStream.size]
    grind
  simp only [hsize]
  split
  · next h =>
    have := BitVec.lt_def.mp h
    simp only [BitVec.sub_self, BitVec.toNat_ofNat]
    omega
  · next h => rw [BitVec.toNat_sub_of_le (BitVec.not_lt.mp h)]

/-- No read makes a stream longer, not even outside its buffer. -/
theorem size_kept (n : Nat) : Kept fun s => s.size.toNat ≤ n := by
  constructor
  · intro s dataSize hs
    simp only [ArrayInputStream.size_readBytes]
    omega
  · exact fun _ _ hs => hs
  · exact fun _ hs => hs

/-- A marker that was read is one byte less to read. -/
theorem size_readMarker {s : ArrayInputStream} (h : (readScalar 1 0 s).ok = true) :
    (readScalar 1 0 s).stream.size.toNat < s.size.toNat := by
  unfold readScalar at h ⊢
  split at h
  · exact absurd h (by simp)
  · next hsize =>
    rw [if_neg hsize]
    simp only [ArrayInputStream.size_readBytes]
    have : (BitVec.ofNat 32 1).toNat = 1 := rfl
    omega

variable {readItem : γ → ArrayInputStream → Read γ}

/-- More rounds than bytes make no difference. -/
theorem readItems_fuel (hitem : ∀ n, Keeps (fun s => s.size.toNat ≤ n) readItem)
    {fuel fuel' : Nat} {container : γ} {s : ArrayInputStream} (h : s.size.toNat < fuel)
    (h' : s.size.toNat < fuel') :
    readItems readItem fuel container s = readItems readItem fuel' container s := by
  induction fuel generalizing fuel' container s with
  | zero => omega
  | succ fuel ih =>
    cases fuel' with
    | zero => omega
    | succ fuel' =>
      simp only [readItems]
      split
      · rfl
      · next hok =>
        have hmarker := size_readMarker (s := s) (by simpa using hok)
        have hread := hitem _ container _ (Nat.le_refl (readScalar 1 0 s).stream.size.toNat)
        have hrest : ∀ c : γ,
            readItems readItem fuel c (readItem container (readScalar 1 0 s).stream).stream =
              readItems readItem fuel' c (readItem container (readScalar 1 0 s).stream).stream :=
          fun c => ih (by omega) (by omega)
        rw [hrest]

/-- The loop's own equation, in which no bound on its rounds appears. -/
theorem readMarked_eq (hitem : ∀ n, Keeps (fun s => s.size.toNat ≤ n) readItem) (container : γ)
    (s : ArrayInputStream) :
    readMarked readItem container s =
      let marker := readScalar 1 0 s
      if !marker.ok then ⟨false, container, marker.stream⟩
      else if SerializationMarker.end_ = marker.target then ⟨true, container, marker.stream⟩
      else if SerializationMarker.item ≠ marker.target then ⟨false, container, marker.stream⟩
      else
        let item := readItem container marker.stream
        if !item.ok then ⟨false, item.target, item.stream⟩
        else readMarked readItem item.target item.stream := by
  unfold readMarked
  rw [readItems]
  simp only
  split
  · rfl
  · next hok =>
    have hmarker := size_readMarker (s := s) (by simpa using hok)
    have hread := hitem _ container _ (Nat.le_refl (readScalar 1 0 s).stream.size.toNat)
    have hrest : ∀ c : γ, readItems readItem s.size.toNat c
          (readItem container (readScalar 1 0 s).stream).stream =
        readItems readItem ((readItem container (readScalar 1 0 s).stream).stream.size.toNat + 1) c
          (readItem container (readScalar 1 0 s).stream).stream :=
      fun c => readItems_fuel hitem (by omega) (Nat.lt_succ_self _)
    rw [hrest]

/-! ## Loops end by themselves -/

/-- A reader that cuts no loop short. -/
def Whole (read : α → ArrayInputStream → Read α) : Prop :=
  ∀ object s, (read object s).stream.cutShort = s.cutShort

theorem readScalar_whole (size : Nat) : Whole (readScalar size) := by
  intro value s
  unfold readScalar
  split <;> rfl

/-- A loop over items takes a byte a round, so its bound is not reached. -/
theorem readItems_whole (hwhole : Whole readItem)
    (hitem : ∀ n, Keeps (fun s => s.size.toNat ≤ n) readItem) {fuel : Nat} {container : γ}
    {s : ArrayInputStream} (h : s.size.toNat < fuel) :
    (readItems readItem fuel container s).stream.cutShort = s.cutShort := by
  induction fuel generalizing container s with
  | zero => omega
  | succ fuel ih =>
    have hmarker := readScalar_whole 1 0 s
    have hread := (hwhole container (readScalar 1 0 s).stream).trans hmarker
    simp only [readItems]
    split
    · exact hmarker
    · next hok =>
      split
      · exact hmarker
      split
      · exact hmarker
      split
      · exact hread
      · have hless := size_readMarker (s := s) (by simpa using hok)
        have hle := hitem _ container _ (Nat.le_refl (readScalar 1 0 s).stream.size.toNat)
        exact (ih (by omega)).trans hread

theorem readMarked_whole (hwhole : Whole readItem)
    (hitem : ∀ n, Keeps (fun s => s.size.toNat ≤ n) readItem) : Whole (readMarked readItem) :=
  fun _ _ => readItems_whole hwhole hitem (Nat.lt_succ_self _)

section Iterator

variable {read : α → ArrayInputStream → Read α} {sizeof : Nat}

namespace Iterator

/-- At the end, or with fewer than `n` elements to come. -/
def Below (n : Nat) (itr : Iterator α) : Prop :=
  itr.itemsLeft = endOfIterations ∨ 0 ≤ itr.itemsLeft ∧ itr.itemsLeft < n

/-- Every step has one element less to come. -/
theorem next_below (itr : Iterator α) (s : ArrayInputStream) {n : Nat} (h : itr.itemsLeft ≤ n) :
    Below n (itr.next read sizeof s).1 := by
  unfold next
  split
  · exact Or.inl rfl
  · simp only
    split
    · refine Or.inr ⟨?_, ?_⟩ <;> simp only <;> omega
    · exact Or.inl rfl

/-- A step of an iterator cuts nothing short. -/
theorem next_whole (hread : Whole read) (itr : Iterator α) (s : ArrayInputStream) :
    (itr.next read sizeof s).2.cutShort = s.cutShort := by
  unfold next
  split
  · rfl
  · simp only
    split <;> exact hread itr.value s

/-- The loop over an iterator has as many steps as there are elements. -/
theorem collect_whole (hread : Whole read) {fuel : Nat} {itr : Iterator α} (h : itr.Below fuel)
    (s : ArrayInputStream) : (collect read sizeof fuel itr s).2.cutShort = s.cutShort := by
  induction fuel generalizing itr s with
  | zero =>
    have hend : itr.itemsLeft = endOfIterations := by
      rcases h with h | h
      · exact h
      · omega
    unfold collect
    rw [if_pos hend]
  | succ fuel ih =>
    unfold collect
    split
    · rfl
    · next hmore =>
      have hle : itr.itemsLeft ≤ fuel := by
        rcases h with h | h
        · exact absurd h hmore
        · omega
      exact (ih (next_below itr s hle) _).trans (next_whole hread itr s)

/-- As an `int` the count is no more than the bound of the loop. -/
theorem range_whole (hread : Whole read) (value : α) (itemsCount : SizeType)
    (s : ArrayInputStream) :
    (range read sizeof value itemsCount s).2.cutShort = s.cutShort := by
  have hbegin : (begin read sizeof value itemsCount s).2.cutShort = s.cutShort := by
    unfold begin
    split <;> exact next_whole hread _ s
  have hbelow : (begin read sizeof value itemsCount s).1.Below itemsCount.toNat := by
    unfold begin
    split
    · exact next_below _ s (by simp only [endOfIterations]; omega)
    · refine next_below _ s ?_
      have := BitVec.toInt_eq_toNat_cond itemsCount
      simp only
      split at this <;> omega
  exact (collect_whole hread hbelow _).trans hbegin

end Iterator

end Iterator

theorem readFields_whole {readFirst : κ → ArrayInputStream → Read κ}
    {readRest : ν → ArrayInputStream → Read ν} (hfirst : Whole readFirst)
    (hrest : Whole readRest) : Whole (readFields readFirst readRest) := by
  intro object s
  have h₁ := hfirst object.1 s
  unfold readFields
  simp only
  split
  · exact h₁
  · exact (hrest object.2 _).trans h₁

theorem readSet_whole {insert : γ → α → γ} {read : α → ArrayInputStream → Read α} {value : α}
    (hread : Whole read) (hsize : ∀ n, Keeps (fun s => s.size.toNat ≤ n) read) :
    Whole (readSet insert read value) := by
  refine readMarked_whole ?_ fun n => insertItem_keeps (hsize n) insert
  intro set s
  have hval := hread value s
  simp only
  split <;> exact hval

theorem readString_whole : Whole readString := by
  intro value s
  have hcount : (readItemsCount s).stream.cutShort = s.cutShort := readScalar_whole 4 0 s
  unfold readString
  simp only
  split
  · exact hcount
  · exact (Iterator.range_whole (readScalar_whole 1) _ _ _).trans hcount

theorem readVector_whole {read : α → ArrayInputStream → Read α} {sizeof : Nat} {value : α}
    (hread : Whole read) : Whole (readVector read sizeof value) := by
  intro vec s
  have hcount : (readItemsCount s).stream.cutShort = s.cutShort := readScalar_whole 4 0 s
  unfold readVector
  simp only
  split
  · exact hcount
  · exact (Iterator.range_whole hread _ _ _).trans hcount

/-- Every read ends: one case for each kind of type. -/
theorem CppType.read_whole (t : CppType α) : Whole t.read := by
  induction t with
  | scalar size => exact readScalar_whole size
  | string => exact readString_whole
  | vector item sizeof ih => exact readVector_whole ih
  | list item ih =>
    exact readMarked_whole (fun list s => ih item.default s)
      fun n list s hs => item.read_keeps (size_kept n) item.default s hs
  | set item order ih => exact readSet_whole ih fun n => item.read_keeps (size_kept n)
  | map key mapped order ihk ihm =>
    unfold read
    rw [readMapLikeContainer_eq]
    exact readSet_whole (readFields_whole ihk ihm) fun n =>
      readFields_keeps (key.read_keeps (size_kept n)) (mapped.read_keeps (size_kept n))
  | unorderedMap key mapped eq ihk ihm =>
    unfold read
    rw [readMapLikeContainer_eq]
    exact readSet_whole (readFields_whole ihk ihm) fun n =>
      readFields_keeps (key.read_keeps (size_kept n)) (mapped.read_keeps (size_kept n))
  | done => exact fun _ _ => rfl
  | field first rest ihf ihr => exact readFields_whole ihf ihr

/-! ## Sequences of operations -/

/-- The public operations that move a stream. -/
inductive StreamOp : Type 1 where
  | readBytes (dataSize : SizeType)
  | read {α : Type} (t : CppType α) (object : α)
  | reset (offset : SizeType)

namespace ArrayInputStream

variable {s : ArrayInputStream} {bufSize : SizeType} {op : StreamOp}

def apply (s : ArrayInputStream) : StreamOp → Option ArrayInputStream
  | .readBytes dataSize => some (s.readBytes dataSize).2
  | .read t object => some (t.read object s).stream
  | .reset offset => some (s.reset offset).2

/-- The position is inside, `size()` is the number of bytes behind it, and no byte was ever copied
from anywhere else. -/
structure Inside (bufSize : SizeType) (s : ArrayInputStream) : Prop where
  bufsize : s.bufsize = bufSize
  position : s.rpos.toNat ≤ bufSize.toNat
  size_eq : s.size.toNat = bufSize.toNat - s.rpos.toNat
  size_le : s.size.toNat ≤ bufSize.toNat
  copied : ∀ c ∈ s.copied, ∀ i < c.2, c.1 + i < bufSize.toNat

/-- A reset to a position outside returns false and leaves the position. -/
def ResetHonoured (s : ArrayInputStream) : StreamOp → Prop
  | .reset offset =>
    s.bufsize < offset → (s.reset offset).1 = false ∧ (s.reset offset).2.rpos = s.rpos
  | _ => True

/-- No reset goes past the end of the buffer. -/
def ResetInside (s : ArrayInputStream) : StreamOp → Prop
  | .reset offset => offset ≤ s.bufsize
  | _ => True

instance (s : ArrayInputStream) : (op : StreamOp) → Decidable (s.ResetInside op)
  | .readBytes _ => inferInstanceAs (Decidable True)
  | .read _ _ => inferInstanceAs (Decidable True)
  | .reset offset => inferInstanceAs (Decidable (offset ≤ s.bufsize))

/-- Of `Inside` the position decides all but the copies. -/
theorem Inside.of_position (hbufsize : s.bufsize = bufSize)
    (hposition : s.rpos.toNat ≤ bufSize.toNat)
    (hcopied : ∀ c ∈ s.copied, ∀ i < c.2, c.1 + i < bufSize.toNat) : s.Inside bufSize := by
  have hsize : s.size.toNat = bufSize.toNat - s.rpos.toNat := by
    unfold size
    rw [hbufsize, BitVec.toNat_sub_of_le (by exact hposition)]
  exact ⟨hbufsize, hposition, hsize, by omega, hcopied⟩

/-- No more is copied than is left. -/
theorem size_readBytes_le (s : ArrayInputStream) (dataSize : SizeType) :
    (if s.size < dataSize then s.size else dataSize).toNat ≤ s.size.toNat := by
  split
  · exact le_rfl
  · next h => simpa [BitVec.lt_def] using h

/-- What is inside stays inside. -/
theorem inside_kept (bufSize : SizeType) : Kept (Inside bufSize) := by
  constructor
  · intro s dataSize hs
    have hle := s.size_readBytes_le dataSize
    have hsize := hs.size_eq
    have hposition := hs.position
    unfold readBytes
    generalize (if s.size < dataSize then s.size else dataSize) = n at hle
    refine .of_position hs.bufsize ?_ ?_
    · -- the bytes taken are bytes that were left, so the sum does not wrap
      simp only [BitVec.toNat_add]
      have := Nat.mod_le (s.rpos.toNat + n.toNat) (2 ^ 32)
      omega
    · intro c hc i hi
      rcases List.mem_append.mp hc with hc | hc
      · exact hs.copied c hc i hi
      · have hce : c = (s.rpos.toNat, n.toNat) := by simpa using hc
        rw [hce] at hi ⊢
        simp only at hi ⊢
        omega
  · intro s itemsCount hs
    exact ⟨hs.bufsize, hs.position, hs.size_eq, hs.size_le, hs.copied⟩
  · intro s hs
    exact ⟨hs.bufsize, hs.position, hs.size_eq, hs.size_le, hs.copied⟩

/-- Step lemma: only a reset past the end leads out of the buffer. -/
theorem Inside.apply {s' : ArrayInputStream} (hs : s.Inside bufSize) (hop : s.ResetInside op)
    (hstep : s.apply op = some s') : s'.Inside bufSize := by
  cases op with
  | readBytes dataSize =>
    obtain rfl := Option.some.inj hstep
    exact (inside_kept bufSize).readBytes s dataSize hs
  | read t object =>
    obtain rfl := Option.some.inj hstep
    exact t.read_keeps (inside_kept bufSize) object s hs
  | reset offset =>
    obtain rfl := Option.some.inj hstep
    have hle : offset ≤ bufSize := by
      rw [← hs.bufsize]
      exact hop
    exact .of_position hs.bufsize hle hs.copied

/-- `reset` never refuses, so it honours what is inside and nothing else. -/
theorem resetHonoured_iff : s.ResetHonoured op ↔ s.ResetInside op := by
  cases op with
  | readBytes dataSize => exact Iff.rfl
  | read t object => exact Iff.rfl
  | reset offset =>
    simp only [ResetHonoured, ResetInside, reset, BitVec.lt_def, BitVec.le_def]
    constructor
    · intro h
      by_contra hout
      exact absurd (h (by omega)).1 (by decide)
    · intro hle hout
      omega

/-- Over every buffer and every sequence of operations: the stream stays inside its buffer, and
refuses what would lead out of it, iff no reset goes past the end. -/
theorem always_inside_iff {buf : Nat → Byte} {tr : List (ArrayInputStream × StreamOp)}
    (hrun : Run apply { buf := buf, bufsize := bufSize } tr s) :
    (Always (Inside bufSize) tr s ∧ EveryStep ResetHonoured tr) ↔ EveryStep ResetInside tr := by
  constructor
  · rintro ⟨-, hhonoured⟩ p hp
    exact resetHonoured_iff.mp (hhonoured p hp)
  · intro hinside
    have hinit : Inside bufSize { buf := buf, bufsize := bufSize } :=
      .of_position rfl (Nat.zero_le _) (by simp)
    have halways := hrun.always hinit (fun _ _ _ hs hop hstep => hs.apply hop hstep) hinside
    exact ⟨halways, fun p hp => resetHonoured_iff.mpr (hinside p hp)⟩

/-- A reset to the end, and a read that finds nothing left. -/
theorem always_inside_iff_end :
    ∃ tr s, Run apply { buf := fun _ => 7, bufsize := 4 } tr s ∧
      tr.map Prod.snd = [.read (.scalar 2) 0, .reset 4, .readBytes 9] ∧
      Always (Inside 4) tr s ∧ EveryStep ResetHonoured tr := by
  have hrun := run_get apply { buf := fun _ => 7, bufsize := 4 }
    [.read (.scalar 2) 0, .reset 4, .readBytes 9] (by decide)
  exact ⟨_, _, hrun, rfl, (always_inside_iff hrun).mpr (by decide)⟩

/-- One byte past the end of four: the position is taken, `size()` wraps, and the next byte is
copied from outside. -/
theorem reset_outside :
    ∃ tr s, Run apply { buf := fun _ => 7, bufsize := 4 } tr s ∧ tr.map Prod.snd = [.reset 5] ∧
      s.size = 0xFFFFFFFF ∧ (s.readBytes 1).2.copied = [(5, 1)] ∧
      ¬ (Always (Inside 4) tr s ∧ EveryStep ResetHonoured tr) := by
  refine ⟨_, _, run_get apply { buf := fun _ => 7, bufsize := 4 } [.reset 5] (by decide), rfl,
    by decide, by decide, ?_⟩
  rintro ⟨⟨-, hlast⟩, -⟩
  exact absurd hlast.position (by decide)

end ArrayInputStream

end EspAcDimmer.Streams
