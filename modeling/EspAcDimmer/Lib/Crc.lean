import Mathlib.Data.Bool.Basic
import Mathlib.Data.List.GetD

/-! # Reflected cyclic redundancy checks

A register of `w` bits is shifted right, one message bit at a time; a 1 that falls out, or comes in,
but not both, adds the polynomial. Messages are lists of bits in the order of transmission, and a
message is valid when it leaves the register at 0.

Everything is linear, so an error pattern is missed iff it is valid by itself.

* `run_bits`: message bits may as well be added to the register first (a table takes it from there);
* `valid_append_bits`: the register, sent behind the message, makes it valid;
* `not_valid_of_odd`, `not_valid_of_burst`, `valid_double_iff`: what is never missed.
-/

namespace Crc

variable {w n : Nat}

/-- One message bit. -/
def shift (poly r : BitVec w) (b : Bool) : BitVec w :=
  if r.getLsbD 0 ^^ b then (r >>> 1) ^^^ poly else r >>> 1

/-- The register after a message. -/
def run (poly r : BitVec w) (message : List Bool) : BitVec w :=
  message.foldl (shift poly) r

def Valid (poly : BitVec w) (message : List Bool) : Prop := run poly 0#w message = 0#w

instance (poly : BitVec w) (message : List Bool) : Decidable (Valid poly message) :=
  inferInstanceAs (Decidable (_ = _))

/-- The bits of a word, lowest first. -/
def bits (x : BitVec n) : List Bool := (List.range n).map x.getLsbD

abbrev zeros (n : Nat) : List Bool := List.replicate n false

variable {poly r s : BitVec w} {as bs : List Bool}

@[simp] theorem length_bits (x : BitVec n) : (bits x).length = n := by
  simp [bits]

@[simp] theorem getElem_bits (x : BitVec n) {i : Nat} (hi : i < (bits x).length) :
    (bits x)[i] = x.getLsbD i := by
  simp [bits]

/-- The register after two messages, one behind the other. -/
theorem run_append : run poly r (as ++ bs) = run poly (run poly r as) bs :=
  List.foldl_append

/-! ## Linearity -/

/-- One bit is linear in the register and in the bit. -/
theorem shift_xor (a b : Bool) :
    shift poly (r ^^^ s) (a ^^ b) = shift poly r a ^^^ shift poly s b := by
  have hbit : ((r ^^^ s).getLsbD 0 ^^ (a ^^ b)) =
      ((r.getLsbD 0 ^^ a) ^^ (s.getLsbD 0 ^^ b)) := by
    rw [BitVec.getLsbD_xor, Bool.xor_assoc, Bool.xor_assoc, Bool.xor_left_comm (s.getLsbD 0)]
  unfold shift
  rw [hbit, BitVec.ushiftRight_xor_distrib]
  -- the polynomial is added on neither side, on one, or on both
  cases r.getLsbD 0 ^^ a <;> cases s.getLsbD 0 ^^ b
  · rfl
  · simp only [Bool.false_xor, if_true, Bool.false_eq_true, if_false]
    ac_rfl
  · simp only [Bool.xor_false, if_true, Bool.false_eq_true, if_false]
    ac_rfl
  · simp only [Bool.xor_self, if_true, Bool.false_eq_true, if_false]
    have hcancel : poly ^^^ poly = 0#w := BitVec.xor_self
    calc r >>> 1 ^^^ s >>> 1 = r >>> 1 ^^^ s >>> 1 ^^^ (poly ^^^ poly) := by
          rw [hcancel, BitVec.xor_zero]
      _ = r >>> 1 ^^^ poly ^^^ (s >>> 1 ^^^ poly) := by ac_rfl

/-- A run is linear in the register and in the message. -/
theorem run_xor (h : as.length = bs.length) :
    run poly (r ^^^ s) (List.zipWith (· ^^ ·) as bs) = run poly r as ^^^ run poly s bs := by
  induction as generalizing bs r s with
  | nil =>
    obtain rfl := List.eq_nil_of_length_eq_zero h.symm
    rfl
  | cons a as ih =>
    cases bs with
    | nil => exact absurd h (by simp)
    | cons b bs =>
      simp only [List.zipWith_cons_cons, run, List.foldl_cons, shift_xor]
      exact ih (Nat.succ.inj h)

@[simp] theorem run_zeros (n : Nat) : run poly 0#w (zeros n) = 0#w := by
  induction n with
  | zero => rfl
  | succ n ih =>
    rw [zeros, List.replicate_succ]
    simpa [run, shift] using ih

/-- Leading zeros do not move an empty register. -/
theorem valid_zeros_append_iff (n : Nat) : Valid poly (zeros n ++ as) ↔ Valid poly as := by
  unfold Valid
  rw [run_append, run_zeros]

/-- An error pattern on a valid message is missed iff it is valid itself. -/
theorem Valid.xor_iff (h : Valid poly as) (hlen : as.length = bs.length) :
    Valid poly (List.zipWith (· ^^ ·) as bs) ↔ Valid poly bs := by
  have hrun : run poly (0#w ^^^ 0#w) _ = _ := run_xor hlen
  rw [BitVec.xor_self, h, BitVec.zero_xor] at hrun
  exact iff_of_eq (congrArg (· = 0#w) hrun)

/-! ## Words -/

/-- A word that is in the register cancels the same word in the message. -/
theorem run_setWidth (x : BitVec n) {k : Nat} (hk : k ≤ w) (hkn : k ≤ n) :
    run poly (x.setWidth w) ((bits x).take k) = x.setWidth w >>> k := by
  induction k with
  | zero => simp [run]
  | succ k ih =>
    have htake : (bits x).take (k + 1) = (bits x).take k ++ [x.getLsbD k] := by
      have hlen : k < (bits x).length := by rwa [length_bits]
      rw [List.take_add_one, List.getElem?_eq_getElem hlen, getElem_bits]
      rfl
    have hlow : (x.setWidth w >>> k).getLsbD 0 = x.getLsbD k := by
      rw [BitVec.getLsbD_ushiftRight, BitVec.getLsbD_setWidth, Nat.add_zero,
        decide_eq_true (Nat.lt_of_succ_le hk), Bool.true_and]
    rw [htake, run_append, ih (Nat.le_of_succ_le hk) (Nat.le_of_succ_le hkn)]
    simp only [run, List.foldl_cons, List.foldl_nil, shift, hlow, Bool.xor_self,
      Bool.false_eq_true, if_false]
    rw [BitVec.shiftRight_add]

/-- The low word comes first. -/
theorem bits_append {m : Nat} (x : BitVec m) (y : BitVec n) : bits (x ++ y) = bits y ++ bits x := by
  refine List.ext_getElem (by simp [Nat.add_comm]) ?_
  intro i h₁ h₂
  rw [getElem_bits, BitVec.getLsbD_append, List.getElem_append]
  by_cases hi : i < n
  · simp [hi]
  · simp [hi]

/-- Message bits may be added to the register instead. -/
theorem run_bits (x : BitVec n) (h : n ≤ w) :
    run poly r (bits x) = run poly (r ^^^ x.setWidth w) (zeros n) := by
  have hcancel : run poly (x.setWidth w) (bits x) = 0#w := by
    have hrun : run poly (x.setWidth w) ((bits x).take n) = x.setWidth w >>> n :=
      run_setWidth x h (Nat.le_refl n)
    rw [List.take_of_length_le (by simp)] at hrun
    rw [hrun]
    apply BitVec.eq_of_getLsbD_eq
    intro i hi
    rw [BitVec.getLsbD_ushiftRight, BitVec.getLsbD_setWidth, BitVec.getLsbD_of_ge _ _ (by omega)]
    simp
  have hzip : List.zipWith (· ^^ ·) (zeros n) (bits x) = bits x := by
    refine List.ext_getElem (by simp) ?_
    intro i h₁ h₂
    simp
  have hrun : run poly (r ^^^ x.setWidth w ^^^ x.setWidth w)
      (List.zipWith (· ^^ ·) (zeros n) (bits x)) =
        run poly (r ^^^ x.setWidth w) (zeros n) ^^^ run poly (x.setWidth w) (bits x) :=
    run_xor (by simp)
  rw [hzip, hcancel, BitVec.xor_assoc, BitVec.xor_self] at hrun
  simpa using hrun

/-- A register whose low bits are 0 is only shifted. -/
theorem run_shiftLeft (n : Nat) (h : ∀ i < n, r.getLsbD i = false) :
    run poly r (zeros n) = r >>> n := by
  induction n generalizing r with
  | zero => simp [run]
  | succ n ih =>
    have hlow : r.getLsbD 0 = false := h 0 (Nat.succ_pos n)
    rw [zeros, List.replicate_succ, run, List.foldl_cons]
    simp only [shift, hlow, Bool.xor_false, Bool.false_eq_true, if_false]
    refine (ih ?_).trans ?_
    · intro i hi
      rw [BitVec.getLsbD_ushiftRight, Nat.add_comm]
      exact h (i + 1) (by omega)
    · rw [← BitVec.shiftRight_add, Nat.add_comm]

/-- A table of the words of `n` bits takes `n` bits at once: the rest of the register is shifted. -/
theorem run_zeros_split (h : n ≤ w) :
    run poly r (zeros n) = run poly ((r.setWidth n).setWidth w) (zeros n) ^^^ r >>> n := by
  have hlow : ∀ i, ((r.setWidth n).setWidth w).getLsbD i = (decide (i < n) && r.getLsbD i) := by
    intro i
    rw [BitVec.getLsbD_setWidth, BitVec.getLsbD_setWidth]
    by_cases hi : i < n
    · rw [decide_eq_true (Nat.lt_of_lt_of_le hi h), Bool.true_and]
    · rw [decide_eq_false hi, Bool.false_and, Bool.and_false]
  have hhigh : run poly (r ^^^ (r.setWidth n).setWidth w) (zeros n) = r >>> n := by
    rw [run_shiftLeft n fun i hi => ?_]
    · apply BitVec.eq_of_getLsbD_eq
      intro i _
      rw [BitVec.getLsbD_ushiftRight, BitVec.getLsbD_xor, hlow, decide_eq_false (by omega),
        Bool.false_and, Bool.xor_false, BitVec.getLsbD_ushiftRight]
    · rw [BitVec.getLsbD_xor, hlow, decide_eq_true hi, Bool.true_and, Bool.xor_self]
  have hrun : run poly ((r.setWidth n).setWidth w ^^^ (r ^^^ (r.setWidth n).setWidth w))
      (List.zipWith (· ^^ ·) (zeros n) (zeros n)) =
        run poly ((r.setWidth n).setWidth w) (zeros n) ^^^
          run poly (r ^^^ (r.setWidth n).setWidth w) (zeros n) :=
    run_xor rfl
  have hzip : List.zipWith (· ^^ ·) (zeros n) (zeros n) = zeros n := by simp
  rwa [hhigh, hzip, BitVec.xor_comm, BitVec.xor_assoc, BitVec.xor_self, BitVec.xor_zero] at hrun

/-! ## Parity -/

/-- Whether the number of ones is odd. -/
def parity : List Bool → Bool
  | [] => false
  | b :: bs => b ^^ parity bs

/-- The parity by counting. -/
theorem parity_eq (bs : List Bool) : parity bs = decide (bs.count true % 2 = 1) := by
  induction bs with
  | nil => rfl
  | cons b bs ih =>
    rw [parity, ih]
    cases b with
    | false => rw [Bool.false_xor, List.count_cons_of_ne (by decide)]
    | true =>
      rw [List.count_cons_self, Bool.true_xor, ← decide_not, decide_eq_decide]
      omega

/-- The parity of two lists, one behind the other. -/
theorem parity_append : parity (as ++ bs) = (parity as ^^ parity bs) := by
  induction as with
  | nil => rw [List.nil_append, parity, Bool.false_xor]
  | cons a as ih => rw [List.cons_append, parity, parity, ih, Bool.xor_assoc]

/-- The parity is linear in the list. -/
theorem parity_zipWith (h : as.length = bs.length) :
    parity (List.zipWith (· ^^ ·) as bs) = (parity as ^^ parity bs) := by
  induction as generalizing bs with
  | nil =>
    obtain rfl := List.eq_nil_of_length_eq_zero h.symm
    rfl
  | cons a as ih =>
    cases bs with
    | nil => exact absurd h (by simp)
    | cons b bs =>
      rw [List.zipWith_cons_cons, parity, parity, parity, ih (Nat.succ.inj h), Bool.xor_assoc,
        Bool.xor_assoc, Bool.xor_left_comm b]

/-- The parity is linear in the word. -/
theorem parity_bits_xor : parity (bits (r ^^^ s)) = (parity (bits r) ^^ parity (bits s)) := by
  rw [← parity_zipWith (by simp)]
  congr 1
  refine List.ext_getElem (by simp) ?_
  intro i h₁ h₂
  simp

/-- A shift loses the lowest bit and nothing else. -/
theorem parity_bits_ushiftRight : (parity (bits (r >>> 1)) ^^ r.getLsbD 0) = parity (bits r) := by
  cases w with
  | zero => simp [bits, parity]
  | succ w =>
    have htail : bits r = r.getLsbD 0 :: (List.range w).map fun i => r.getLsbD (i + 1) := by
      rw [bits, List.range_succ_eq_map, List.map_cons, List.map_map]
      rfl
    have hshift : bits (r >>> 1) = ((List.range w).map fun i => r.getLsbD (i + 1)) ++ [false] := by
      rw [bits, List.range_succ, List.map_append]
      simp [Nat.add_comm]
    rw [htail, hshift, parity_append, parity, parity, parity, Bool.xor_false, Bool.xor_false,
      Bool.xor_comm]

/-- A polynomial of odd weight has the factor `x + 1`: the register keeps the parity. -/
theorem parity_run (hodd : parity (bits poly) = true) :
    parity (bits (run poly r bs)) = (parity (bits r) ^^ parity bs) := by
  induction bs generalizing r with
  | nil => simp [run, parity]
  | cons b bs ih =>
    have hshift : parity (bits (shift poly r b)) = (parity (bits r) ^^ b) := by
      rw [← parity_bits_ushiftRight (r := r)]
      unfold shift
      cases b <;> cases r.getLsbD 0 <;> simp [parity_bits_xor, hodd]
    rw [parity, ← Bool.xor_assoc, ← hshift]
    exact ih

/-- A polynomial with the factor `x + 1` catches every odd number of errors. -/
theorem not_valid_of_odd (hodd : parity (bits poly) = true) (h : bs.count true % 2 = 1) :
    ¬ Valid poly bs := by
  intro hvalid
  have hrun : parity (bits (run poly 0#w bs)) = (parity (bits 0#w) ^^ parity bs) :=
    parity_run hodd
  have hzero : parity (bits 0#w) = false := by
    have hself := parity_bits_xor (r := 0#w) (s := 0#w)
    rwa [BitVec.xor_self, Bool.xor_self] at hself
  rw [hvalid, hzero, Bool.false_xor, parity_eq, decide_eq_true h] at hrun
  exact absurd hrun (by decide)

/-! ## What is never missed -/

section Detects

variable (hpoly : poly.msb = true)
include hpoly

/-- A zero in the message empties no register but the empty one: the polynomial has its top bit. -/
theorem shift_false_eq_zero_iff : shift poly r false = 0#w ↔ r = 0#w := by
  constructor
  · intro h
    have hlow : r.getLsbD 0 = false := by
      by_contra hone
      -- the highest bit could only come from the polynomial
      have htop := congrArg (·.getLsbD (w - 1)) h
      rw [BitVec.msb_eq_getLsbD_last] at hpoly
      have hw : 0 < w := Nat.pos_of_ne_zero fun h0 => by
        subst h0
        simp at hpoly
      simp only [shift, hone, Bool.xor_false, if_true, BitVec.getLsbD_xor, hpoly,
        BitVec.getLsbD_ushiftRight, BitVec.getLsbD_zero] at htop
      rw [BitVec.getLsbD_of_ge _ _ (by omega)] at htop
      exact absurd htop (by decide)
    simp only [shift, hlow, Bool.xor_false, Bool.false_eq_true, if_false] at h
    apply BitVec.eq_of_getLsbD_eq
    intro i _
    rw [BitVec.getLsbD_zero]
    cases i with
    | zero => exact hlow
    | succ i =>
      have hbit := congrArg (·.getLsbD i) h
      simpa [Nat.add_comm] using hbit
  · rintro rfl
    simp [shift]

/-- Trailing zeros change nothing about a message. -/
theorem run_zeros_eq_zero_iff (n : Nat) : run poly r (zeros n) = 0#w ↔ r = 0#w := by
  induction n generalizing r with
  | zero => exact Iff.rfl
  | succ n ih =>
    rw [zeros, List.replicate_succ, run, List.foldl_cons]
    exact ih.trans (shift_false_eq_zero_iff hpoly)

/-- The register behind the message, and nothing else, makes it valid. -/
theorem valid_append_bits {message : List Bool} {c : BitVec w} :
    Valid poly (message ++ bits c) ↔ run poly 0#w message = c := by
  unfold Valid
  rw [run_append, run_bits c (Nat.le_refl w), run_zeros_eq_zero_iff hpoly, BitVec.setWidth_eq,
    BitVec.xor_eq_zero_iff]

/-- Trailing zeros make no message valid, and spoil none. -/
theorem valid_append_zeros_iff (n : Nat) : Valid poly (as ++ zeros n) ↔ Valid poly as := by
  unfold Valid
  rw [run_append, run_zeros_eq_zero_iff hpoly]

/-- A burst no longer than the register. -/
theorem not_valid_of_burst (hlen : as.length ≤ w) (has : true ∈ as) : ¬ Valid poly as := by
  intro h
  rcases List.mem_iff_getElem.mp has with ⟨i, hi, hbit⟩
  have hbits : bits (BitVec.ofBoolListLE as) = as := by
    refine List.ext_getElem (by simp) ?_
    intro j h₁ h₂
    rw [getElem_bits, BitVec.getLsbD_ofBoolListLE, List.getD_eq_getElem _ _ h₂]
  unfold Valid at h
  rw [← hbits, run_bits _ hlen, run_zeros_eq_zero_iff hpoly, BitVec.zero_xor] at h
  have hword := congrArg (·.getLsbD i) h
  simp only [BitVec.getLsbD_setWidth, BitVec.getLsbD_zero, BitVec.getLsbD_ofBoolListLE,
    List.getD_eq_getElem _ _ hi, hbit, Nat.lt_of_lt_of_le hi hlen] at hword
  exact absurd hword (by decide)

/-- Two errors are missed iff their distance brings the register back to 1. -/
theorem valid_double_iff (n : Nat) :
    Valid poly (true :: (zeros n ++ [true])) ↔ run poly 1#w (zeros (n + 1)) = 1#w := by
  have hw : 0 < w := Nat.pos_of_ne_zero fun h0 => by
    subst h0
    simp [BitVec.msb_eq_getLsbD_last] at hpoly
  have hone : (1#w).getLsbD 0 = true := by simp [hw]
  have hfirst : shift poly 0#w true = shift poly 1#w false := by
    simp only [shift, hone, BitVec.getLsbD_zero, Bool.false_xor, Bool.true_xor, Bool.not_false,
      if_true]
    congr 1
    apply BitVec.eq_of_getLsbD_eq
    intro i _
    simp
  have hlast : ∀ r : BitVec w, shift poly r true = 0#w ↔ r = 1#w := by
    intro r
    have hself : shift poly 1#w true = 0#w := by
      simp only [shift, hone, Bool.xor_self, Bool.false_eq_true, if_false]
      apply BitVec.eq_of_getLsbD_eq
      intro i _
      simp
    have hxor : shift poly (r ^^^ 1#w ^^^ 1#w) (false ^^ true) =
        shift poly (r ^^^ 1#w) false ^^^ shift poly 1#w true := shift_xor false true
    rw [BitVec.xor_assoc, BitVec.xor_self, BitVec.xor_zero, hself, BitVec.xor_zero,
      Bool.false_xor] at hxor
    rw [hxor, shift_false_eq_zero_iff hpoly, BitVec.xor_eq_zero_iff]
  have hrun : run poly 0#w (true :: (zeros n ++ [true])) =
      shift poly (run poly 1#w (zeros (n + 1))) true := by
    rw [zeros, zeros, List.replicate_succ]
    simp only [run, List.foldl_cons, List.foldl_append, List.foldl_nil, hfirst]
  unfold Valid
  rw [hrun, hlast]

/-! ## Error patterns -/

omit hpoly in
/-- A list without a one is all zeros. -/
theorem eq_zeros (h : true ∉ bs) : bs = zeros bs.length :=
  List.eq_replicate_of_mem fun b hb => by
    cases b with
    | false => rfl
    | true => exact absurd hb h

/-- All errors are within `w` bits. -/
theorem not_valid_of_window {p : Nat} (hne : true ∈ bs)
    (h : ∀ i, bs[i]? = some true → p ≤ i ∧ i < p + w) : ¬ Valid poly bs := by
  have hbefore : true ∉ bs.take p := by
    intro hmem
    rcases List.mem_iff_getElem?.mp hmem with ⟨i, hi⟩
    rw [List.getElem?_take] at hi
    split at hi
    · next hlt => exact absurd (h i hi).1 (Nat.not_le.mpr hlt)
    · exact absurd hi (by simp)
  have hbehind : true ∉ (bs.drop p).drop w := by
    intro hmem
    rcases List.mem_iff_getElem?.mp hmem with ⟨i, hi⟩
    rw [List.drop_drop, List.getElem?_drop] at hi
    have := (h _ hi).2
    omega
  have hsplit : bs = bs.take p ++ ((bs.drop p).take w ++ (bs.drop p).drop w) := by
    rw [List.take_append_drop, List.take_append_drop]
  have hwindow : true ∈ (bs.drop p).take w := by
    rw [hsplit, List.mem_append, List.mem_append] at hne
    exact (hne.resolve_left hbefore).resolve_right hbehind
  rw [hsplit, eq_zeros hbefore, eq_zeros hbehind, valid_zeros_append_iff,
    valid_append_zeros_iff hpoly]
  exact not_valid_of_burst hpoly (List.length_take_le _ _) hwindow

/-- Two errors, closer than the register takes to come back to 1. -/
theorem not_valid_of_double (hcount : bs.count true = 2)
    (h : ∀ d, 0 < d → d < bs.length → run poly 1#w (zeros d) ≠ 1#w) : ¬ Valid poly bs := by
  have hmem : true ∈ bs := List.count_pos_iff.mp (by omega)
  rcases List.eq_append_cons_of_mem hmem with ⟨before, rest, rfl, hbefore⟩
  have hcount' : rest.count true = 1 := by
    rw [List.count_append, List.count_eq_zero.mpr hbefore, List.count_cons_self] at hcount
    omega
  have hmem' : true ∈ rest := List.count_pos_iff.mp (by omega)
  rcases List.eq_append_cons_of_mem hmem' with ⟨between, behind, rfl, hbetween⟩
  have hbehind : true ∉ behind := by
    rw [List.count_append, List.count_eq_zero.mpr hbetween, List.count_cons_self] at hcount'
    exact List.count_eq_zero.mp (by omega)
  have hassoc : true :: (between ++ true :: behind) = (true :: (between ++ [true])) ++ behind := by
    simp
  rw [eq_zeros hbefore, valid_zeros_append_iff, hassoc, eq_zeros hbehind,
    valid_append_zeros_iff hpoly, eq_zeros hbetween, valid_double_iff hpoly]
  refine h _ (Nat.succ_pos _) ?_
  simp only [List.length_append, List.length_cons]
  omega

end Detects

end Crc
