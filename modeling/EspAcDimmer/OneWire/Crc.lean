import EspAcDimmer.Lib.Crc
import EspAcDimmer.OneWire.Basic

/-! # The checksums of the 1-Wire bus

`crc8`, in both variants that `ONEWIRE_CRC8_TABLE` chooses from, `crc16` and `check_crc16`. A buffer
and its length are the list of its first bytes, which are never more than the length's type can say.

Each of them is a cyclic redundancy check of the bits in the order in which the bus sends them: the
polynomials are `x^8 + x^5 + x^4 + 1` and `x^16 + x^15 + x^2 + 1`.
-/

namespace EspAcDimmer

open Crc

/-- The bits of these bytes on the wire: byte by byte, each from its lowest bit. -/
def transmitted (bytes : List (BitVec 8)) : List Bool := bytes.flatMap bits

/-- The polynomial of `crc8`, lowest power in the highest bit. -/
def crc8Poly : BitVec 8 := 0x8C

/-- The polynomial of the Dallas CRC-16, lowest power in the highest bit. -/
def crc16Poly : BitVec 16 := 0xA001

/-! ## `crc8` -/

/-- `for (uint8_t i = 8; i; i--)`, with `i` rounds to go. -/
def crc8Bits : Nat → BitVec 8 → BitVec 8 → BitVec 8
  | 0, crc, _ => crc
  | i + 1, crc, inbyte =>
    let mix := (crc ^^^ inbyte) &&& 0x01
    let crc := crc >>> 1
    crc8Bits i (if mix ≠ 0 then crc ^^^ 0x8C else crc) (inbyte >>> 1)

/-- `crc8`, bit by bit. -/
def crc8 (addr : List (BitVec 8)) : BitVec 8 :=
  addr.foldl (fun crc inbyte => crc8Bits 8 crc inbyte) 0

def dscrc2x16Table : List (BitVec 8) := [
  0x00, 0x5E, 0xBC, 0xE2, 0x61, 0x3F, 0xDD, 0x83,
  0xC2, 0x9C, 0x7E, 0x20, 0xA3, 0xFD, 0x1F, 0x41,
  0x00, 0x9D, 0x23, 0xBE, 0x46, 0xDB, 0x65, 0xF8,
  0x8C, 0x11, 0xAF, 0x32, 0xCA, 0x57, 0xE9, 0x74]

/-- `pgm_read_byte`, a plain load from the table. -/
def pgmReadByte (offset : Nat) : BitVec 8 := dscrc2x16Table.getD offset 0

/-- `crc8` under `ONEWIRE_CRC8_TABLE`. -/
def crc8Table (addr : List (BitVec 8)) : BitVec 8 :=
  addr.foldl
    (fun crc byte =>
      let crc := byte ^^^ crc
      pgmReadByte (crc &&& 0x0f).toNat ^^^ pgmReadByte (16 + ((crc >>> 4) &&& 0x0f).toNat))
    0

/-- `RegisterNumber`, a union of eight bytes and their names. -/
structure RegisterNumber where
  romData : RomNo

namespace RegisterNumber

def calcCrc (n : RegisterNumber) : BitVec 8 := crc8 ((List.ofFn n.romData).take 7)

def isCrcValid (n : RegisterNumber) : Bool := n.romData.crc = n.calcCrc

end RegisterNumber

/-! ## `crc16` -/

def oddparity : List (BitVec 8) := [0, 1, 1, 0, 1, 0, 0, 1, 1, 0, 0, 1, 0, 1, 1, 0]

/-- The body of the loop of `crc16`. -/
def crc16Byte (crc : BitVec 16) (input : BitVec 8) : BitVec 16 :=
  let cdata := (input.setWidth 16 ^^^ crc) &&& 0xff
  let crc := crc >>> 8
  let crc :=
    if oddparity.getD (cdata &&& 0x0F).toNat 0 ^^^ oddparity.getD (cdata >>> 4).toNat 0 ≠ 0 then
      crc ^^^ 0xC001
    else crc
  let cdata := cdata <<< 6
  let crc := crc ^^^ cdata
  let cdata := cdata <<< 1
  crc ^^^ cdata

def crc16 (input : List (BitVec 8)) (crc : BitVec 16 := 0) : BitVec 16 :=
  input.foldl crc16Byte crc

/-- `check_crc16`, with the two bytes at `inverted_crc`. The complement and the comparisons are of
`int`, which has 32 bits. -/
def checkCrc16 (input : List (BitVec 8)) (invertedCrc : BitVec 8 × BitVec 8)
    (crc : BitVec 16 := 0) : Bool :=
  let crc := (~~~((crc16 input crc).setWidth 32)).setWidth 16
  crc.setWidth 32 &&& 0xFF = invertedCrc.1.setWidth 32 ∧
    crc.setWidth 32 >>> 8 = invertedCrc.2.setWidth 32

/-! ## Bit by bit -/

theorem bits_ne_nil (b : BitVec 8) : bits b ≠ [] :=
  List.ne_nil_of_length_pos (by simp)

@[simp] theorem transmitted_nil : transmitted [] = [] := rfl

@[simp] theorem transmitted_cons (b : BitVec 8) (bytes : List (BitVec 8)) :
    transmitted (b :: bytes) = bits b ++ transmitted bytes := rfl

theorem transmitted_append (bytes bytes' : List (BitVec 8)) :
    transmitted (bytes ++ bytes') = transmitted bytes ++ transmitted bytes' :=
  List.flatMap_append

theorem length_transmitted (bytes : List (BitVec 8)) :
    (transmitted bytes).length = 8 * bytes.length := by
  induction bytes with
  | nil => rfl
  | cons b bytes ih =>
    rw [transmitted_cons, List.length_append, length_bits, ih, List.length_cons]
    omega

/-- The rounds on a byte are those of the check, a bit each. -/
theorem crc8Bits_eq (n : Nat) (crc inbyte : BitVec 8) :
    crc8Bits n crc inbyte = run crc8Poly crc ((List.range n).map inbyte.getLsbD) := by
  induction n generalizing crc inbyte with
  | zero => rfl
  | succ n ih =>
    have hmix : (crc ^^^ inbyte) &&& 0x01 ≠ 0 ↔ (crc.getLsbD 0 ^^ inbyte.getLsbD 0) = true := by
      rw [← BitVec.getLsbD_xor]
      generalize crc ^^^ inbyte = x
      revert x
      decide +kernel
    have hrest : (List.range n).map (inbyte >>> 1).getLsbD =
        (List.range n).map fun i => inbyte.getLsbD (i + 1) := by
      apply List.map_congr_left
      intro i _
      rw [BitVec.getLsbD_ushiftRight, Nat.add_comm]
    rw [crc8Bits, ih, hrest, List.range_succ_eq_map, List.map_cons, List.map_map]
    simp only [hmix]
    rfl

/-- A byte at a time is a bit at a time. -/
theorem foldl_transmitted {w : Nat} {poly : BitVec w} {step : BitVec w → BitVec 8 → BitVec w}
    (h : ∀ crc b, step crc b = run poly crc (bits b)) (bytes : List (BitVec 8)) (crc : BitVec w) :
    bytes.foldl step crc = run poly crc (transmitted bytes) := by
  induction bytes generalizing crc with
  | nil => rfl
  | cons b bytes ih => rw [List.foldl_cons, ih, h, transmitted_cons, run_append]

/-- `crc8` is the check of the bits on the wire. -/
theorem crc8_eq (addr : List (BitVec 8)) : crc8 addr = run crc8Poly 0 (transmitted addr) :=
  foldl_transmitted (fun crc b => crc8Bits_eq 8 crc b) addr 0

/-- The table holds what eight zero bits make of the low half byte, and of the high one. -/
theorem run_crc8_table (x : BitVec 8) : run crc8Poly x (zeros 8) =
    pgmReadByte (x &&& 0x0f).toNat ^^^ pgmReadByte (16 + ((x >>> 4) &&& 0x0f).toNat) := by
  revert x
  decide +kernel

/-- The two build variants of `crc8` compute the same. -/
theorem crc8Table_eq_crc8 (addr : List (BitVec 8)) : crc8Table addr = crc8 addr := by
  rw [crc8_eq]
  refine foldl_transmitted ?_ addr 0
  intro crc b
  rw [run_bits b (Nat.le_refl 8), BitVec.setWidth_eq, BitVec.xor_comm crc b, run_crc8_table]

/-- The parities and shifts make of a byte what eight zero bits do. -/
theorem run_crc16_parity (x : BitVec 8) :
    run crc16Poly (x.setWidth 16) (zeros 8) =
      (if oddparity.getD (x.setWidth 16 &&& 0x0F).toNat 0 ^^^
          oddparity.getD (x.setWidth 16 >>> 4).toNat 0 ≠ 0 then 0xC001#16 else 0#16) ^^^
        x.setWidth 16 <<< 6 ^^^ x.setWidth 16 <<< 6 <<< 1 := by
  revert x
  decide +kernel

/-- The low byte of a word, by its mask. -/
theorem and_ff {w : Nat} (x : BitVec w) :
    x &&& BitVec.ofNat w 0xff = (x.setWidth 8).setWidth w := by
  have hff : ∀ i, (0xff : Nat).testBit i = decide (i < 8) := fun i => by
    rw [show (0xff : Nat) = 2 ^ 8 - 1 from rfl, Nat.testBit_two_pow_sub_one]
  apply BitVec.eq_of_getLsbD_eq
  intro i hi
  rw [BitVec.getLsbD_and, BitVec.getLsbD_ofNat, hff, BitVec.getLsbD_setWidth,
    BitVec.getLsbD_setWidth, decide_eq_true hi, Bool.true_and, Bool.true_and, Bool.and_comm]

/-- Nothing is lost in a wider type. -/
theorem setWidth_inj {n w : Nat} {x y : BitVec n} (h : n ≤ w) :
    x.setWidth w = y.setWidth w ↔ x = y := by
  refine ⟨?_, congrArg _⟩
  intro he
  have hback := congrArg (·.setWidth n) he
  simpa [BitVec.setWidth_setWidth_of_le _ h] using hback

/-- A byte of `crc16` is eight bits of the check. -/
theorem crc16Byte_eq (crc : BitVec 16) (input : BitVec 8) :
    crc16Byte crc input = run crc16Poly crc (bits input) := by
  have hcdata : (input.setWidth 16 ^^^ crc) &&& 0xff =
      ((crc ^^^ input.setWidth 16).setWidth 8).setWidth 16 := by
    rw [BitVec.xor_comm]
    exact and_ff _
  have hinput : (crc ^^^ input.setWidth 16) >>> 8 = crc >>> 8 := by
    have hzero : input.setWidth 16 >>> 8 = 0#16 := by
      apply BitVec.eq_of_getLsbD_eq
      intro i _
      rw [BitVec.getLsbD_ushiftRight, BitVec.getLsbD_setWidth, BitVec.getLsbD_of_ge _ _ (by omega),
        Bool.and_false, BitVec.getLsbD_zero]
    rw [BitVec.ushiftRight_xor_distrib, hzero, BitVec.xor_zero]
  rw [run_bits input (by decide), run_zeros_split (by decide), run_crc16_parity, hinput]
  unfold crc16Byte
  simp only [hcdata]
  split
  · ac_rfl
  · rw [BitVec.zero_xor]
    ac_rfl

/-- The first byte that `check_crc16` compares. -/
theorem low_byte (v : BitVec 16) :
    v.setWidth 32 &&& 0xFF = (v.setWidth 8).setWidth 32 := by
  rw [← BitVec.setWidth_setWidth_of_le (l := 32) v (by decide)]
  exact and_ff _

/-- The second one, which has nothing above it. -/
theorem high_byte (v : BitVec 16) :
    v.setWidth 32 >>> 8 = ((v >>> 8).setWidth 8).setWidth 32 := by
  apply BitVec.eq_of_getLsbD_eq
  intro i hi
  rw [BitVec.getLsbD_ushiftRight, BitVec.getLsbD_setWidth, BitVec.getLsbD_setWidth,
    BitVec.getLsbD_setWidth, BitVec.getLsbD_ushiftRight, decide_eq_true hi, Bool.true_and]
  by_cases h : i < 8
  · rw [decide_eq_true h, decide_eq_true (by omega), Bool.true_and]
  · rw [decide_eq_false h, BitVec.getLsbD_of_ge _ _ (by omega), Bool.false_and, Bool.and_false]

/-- `crc16` is the Dallas CRC-16, and `check_crc16` compares its complement, low byte first. -/
theorem crc16_dallas (input : List (BitVec 8)) (crc : BitVec 16) :
    crc16 input crc = run crc16Poly crc (transmitted input) ∧
      ∀ invertedCrc, checkCrc16 input invertedCrc crc = true ↔
        invertedCrc = ((~~~run crc16Poly crc (transmitted input)).setWidth 8,
          (~~~run crc16Poly crc (transmitted input) >>> 8).setWidth 8) := by
  have hcrc : crc16 input crc = run crc16Poly crc (transmitted input) :=
    foldl_transmitted crc16Byte_eq input crc
  refine ⟨hcrc, ?_⟩
  intro invertedCrc
  unfold checkCrc16
  rw [hcrc, BitVec.setWidth_not (by decide), BitVec.setWidth_setWidth_of_le _ (by decide),
    BitVec.setWidth_eq]
  generalize ~~~run crc16Poly crc (transmitted input) = v
  simp only
  rw [low_byte, high_byte, decide_eq_true_eq, Prod.ext_iff, setWidth_inj (by decide),
    setWidth_inj (by decide)]
  exact and_congr eq_comm eq_comm

end EspAcDimmer
