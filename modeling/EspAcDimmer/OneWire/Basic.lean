import Mathlib.Data.Finset.Filter
import Mathlib.Data.Finset.Fold
import Mathlib.Data.Fintype.Basic

/-! # The 1-Wire master

`onewire.cpp` over an abstract wire: `reset`, `write_bit` and `read_bit` are what the devices answer
to, everything above them is the code's. The pin modes, delays and interrupt switches inside the
time slots, and the `power` argument of `write`, which only sets the pin mode afterwards, are below
this level: `Pins` models them, and is one of the wires.
-/

namespace EspAcDimmer

/-- `unsigned char ROM_NO[8]`. -/
abbrev RomNo := Fin 8 → BitVec 8

/-- Bit `k` of a ROM code: least significant bit first, from byte 0. -/
def RomNo.bit (rom : RomNo) (k : Nat) : Bool :=
  (rom (Fin.ofNat 8 (k / 8))).getLsbD (k % 8)

/-- `ROM_NO[0]`: the devices of a family have it in common. -/
abbrev RomNo.familyCode (rom : RomNo) : BitVec 8 := rom 0

/-- The last byte of a ROM code, its checksum. -/
abbrev RomNo.crc (rom : RomNo) : BitVec 8 := rom 7

/-- The time slots of the bus: a reset pulse and its answer, a bit written, a bit read. -/
structure Wire (β : Type) where
  reset : β → Bool × β
  writeBit : β → Bool → β
  readBit : β → Bool × β

/-- The search state of `OneWire`. -/
structure OneWire where
  romNo : RomNo
  lastDiscrepancy : Nat
  lastFamilyDiscrepancy : Nat
  lastDeviceFlag : Bool
deriving DecidableEq

/-- The local variables of `search`, with the members and the bus its loop changes. -/
structure SearchLoop (β : Type) where
  idBitNumber : Nat
  lastZero : Nat
  romByteNumber : Nat
  romByteMask : BitVec 8
  romNo : RomNo
  lastFamilyDiscrepancy : Nat
  bus : β

namespace OneWire

variable {β : Type}

/-- The values of `bitMask` in `for (bitMask = 0x01; bitMask; bitMask <<= 1)`. -/
def bitMasks : List (BitVec 8) :=
  [0x01, 0x02, 0x04, 0x08, 0x10, 0x20, 0x40, 0x80]

def write (w : Wire β) (v : BitVec 8) (bus : β) : β :=
  bitMasks.foldl (fun bus bitMask => w.writeBit bus (bitMask &&& v ≠ 0)) bus

def read (w : Wire β) (bus : β) : BitVec 8 × β :=
  bitMasks.foldl
    (fun (r, bus) bitMask =>
      let (bit, bus) := w.readBit bus
      (if bit then r ||| bitMask else r, bus))
    (0, bus)

def select (w : Wire β) (rom : RomNo) (bus : β) : β :=
  (List.finRange 8).foldl (fun bus i => write w (rom i) bus) (write w 0x55 bus)

def skip (w : Wire β) (bus : β) : β :=
  write w 0xCC bus

/-- The assignments that make the next `search` like a first one. -/
def resetCounters (ow : OneWire) : OneWire :=
  { ow with lastDiscrepancy := 0, lastDeviceFlag := false, lastFamilyDiscrepancy := 0 }

/-- `OneWire::reset_search`, which `begin` and so the constructor call. -/
def resetSearch (ow : OneWire) : OneWire :=
  { ow.resetCounters with romNo := fun _ => 0 }

/-- `OneWire::target_search`. -/
def targetSearch (familyCode : BitVec 8) : OneWire where
  romNo i := if i = 0 then familyCode else 0
  lastDiscrepancy := 64
  lastFamilyDiscrepancy := 0
  lastDeviceFlag := false

/-- The bit to write, when the two bits read are not both 1. -/
def searchDirection (lastDiscrepancy : Nat) (idBit cmpIdBit : Bool) (s : SearchLoop β) : Bool :=
  if idBit ≠ cmpIdBit then idBit  -- all devices coupled have 0 or 1
  else if s.idBitNumber < lastDiscrepancy then
    -- the same as last time; at the last discrepancy 1, behind it 0
    s.romNo (Fin.ofNat 8 s.romByteNumber) &&& s.romByteMask > 0
  else s.idBitNumber = lastDiscrepancy

/-- The rest of the loop's body: the direction is recorded and written. -/
def searchBit (w : Wire β) (lastDiscrepancy : Nat) (idBit cmpIdBit : Bool) (s : SearchLoop β) :
    SearchLoop β :=
  let direction := searchDirection lastDiscrepancy idBit cmpIdBit s
  let zeroPicked := idBit = cmpIdBit ∧ direction = false
  let lastZero := if zeroPicked then s.idBitNumber else s.lastZero
  let byte := s.romNo (Fin.ofNat 8 s.romByteNumber)
  let mask := s.romByteMask <<< 1
  { idBitNumber := s.idBitNumber + 1
    lastZero := lastZero
    romByteNumber := if mask = 0 then s.romByteNumber + 1 else s.romByteNumber
    romByteMask := if mask = 0 then 1 else mask
    romNo := Function.update s.romNo (Fin.ofNat 8 s.romByteNumber)
      (if direction then byte ||| s.romByteMask else byte &&& ~~~s.romByteMask)
    lastFamilyDiscrepancy :=
      if zeroPicked ∧ lastZero < 9 then lastZero else s.lastFamilyDiscrepancy
    bus := w.writeBit s.bus direction }

/-- The loop of `search`, at most `fuel` times round; `none` if that does not end it. -/
def searchLoop (w : Wire β) (lastDiscrepancy : Nat) : Nat → SearchLoop β → Option (SearchLoop β)
  | 0, _ => none
  | fuel + 1, s =>
    let (idBit, bus) := w.readBit s.bus
    let (cmpIdBit, bus) := w.readBit bus
    if idBit ∧ cmpIdBit then some { s with bus := bus }  -- no devices on the wire: break
    else
      let s' := searchBit w lastDiscrepancy idBit cmpIdBit { s with bus := bus }
      if s'.romByteNumber < 8 then searchLoop w lastDiscrepancy fuel s' else some s'

/-- `OneWire::search`: what was stored in `newAddr` if it returned true, `none` if it returned
false, and the state left. The loop goes round 64 times at most. -/
def search (w : Wire β) (searchMode : Bool) (ow : OneWire) (bus : β) :
    Option (Option RomNo × OneWire × β) :=
  if ow.lastDeviceFlag then some (none, ow.resetCounters, bus)  -- the last call was the last one
  else
    let (presence, bus) := w.reset bus
    if presence then
      let bus := write w (if searchMode then 0xF0 else 0xEC) bus
      (searchLoop w ow.lastDiscrepancy 64
          ⟨1, 0, 0, 1, ow.romNo, ow.lastFamilyDiscrepancy, bus⟩).map fun s =>
        let ow := { ow with romNo := s.romNo, lastFamilyDiscrepancy := s.lastFamilyDiscrepancy }
        if s.idBitNumber < 65 then (none, ow.resetCounters, s.bus)  -- the loop was left by break
        else
          -- a walk without a 0 picked at a discrepancy was the last one
          let ow := { ow with
            lastDiscrepancy := s.lastZero
            lastDeviceFlag := if s.lastZero = 0 then true else ow.lastDeviceFlag }
          if ow.romNo 0 = 0 then (none, ow.resetCounters, s.bus)
          else (some ow.romNo, ow, s.bus)
    else some (none, ow.resetCounters, bus)

end OneWire

/-! ## Calls on one object -/

/-- The calls a client of the object makes between and besides its searches. -/
inductive Call where
  | reset
  | select (rom : RomNo)
  | skip
  | write (v : BitVec 8)
  | read
  | depower
  | search
deriving DecidableEq

/-- The object, the bus, and what the searches returned so far. -/
structure Session (β : Type) where
  ow : OneWire
  bus : β
  found : List (Option RomNo) := []

namespace Session

variable {β : Type}

/-- Only `search` touches the search state. -/
def call (w : Wire β) (s : Session β) : Call → Option (Session β)
  | .reset => some { s with bus := (w.reset s.bus).2 }
  | .select rom => some { s with bus := OneWire.select w rom s.bus }
  | .skip => some { s with bus := OneWire.skip w s.bus }
  | .write v => some { s with bus := OneWire.write w v s.bus }
  | .read => some { s with bus := (OneWire.read w s.bus).2 }
  | .depower => some s
  | .search =>
    (s.ow.search w true s.bus).map fun r => ⟨r.2.1, r.2.2, s.found ++ [r.1]⟩

def run (w : Wire β) (s : Session β) (calls : List Call) : Option (Session β) :=
  calls.foldlM (call w) s

end Session

/-! ## A bus of devices -/

/-- What is read when all devices of `sel` send a bit: a single 0 pulls the line down. -/
def andOf (sel : Finset RomNo) (sent : RomNo → Bool) : Bool :=
  sel.fold (· && ·) true sent

/-- The wire is low when one device pulls it low. -/
theorem andOf_eq_false {sel : Finset RomNo} {sent : RomNo → Bool} :
    andOf sel sent = false ↔ ∃ rom ∈ sel, sent rom = false := by
  unfold andOf
  induction sel using Finset.induction_on with
  | empty => simp
  | insert rom sel hnew ih =>
    rw [Finset.fold_insert hnew, Finset.exists_mem_insert, ← ih, Bool.and_eq_false_iff]

/-- The devices of `S` on a wired-AND bus. `selected sel k` says of a state of the bus that the
devices `sel` have followed a search through `k` bits and are about to send the next one. -/
structure WiredAnd {β : Type} (w : Wire β) (S : Finset RomNo) where
  selected : Finset RomNo → Nat → β → Prop
  presence : ∀ bus, (w.reset bus).1 = decide S.Nonempty
  start : ∀ bus, selected S 0 (OneWire.write w 0xF0 (w.reset bus).2)
  idBit : ∀ sel bus, ∀ k < 64, selected sel k bus →
    (w.readBit bus).1 = andOf sel fun rom => rom.bit k
  cmpIdBit : ∀ sel bus, ∀ k < 64, selected sel k bus →
    (w.readBit (w.readBit bus).2).1 = andOf sel fun rom => !rom.bit k
  dropOut : ∀ sel bus, ∀ k < 64, ∀ v, selected sel k bus →
    selected (sel.filter fun rom => rom.bit k = v) (k + 1)
      (w.writeBit (w.readBit (w.readBit bus).2).2 v)

/-- Where devices that know the search command and no other stand. -/
inductive NetState where
  /-- After a reset; the bits of a command come in. -/
  | command (received : List Bool)
  | sendIdBit (sel : Finset RomNo) (k : Nat)
  | sendCmpIdBit (sel : Finset RomNo) (k : Nat)
  | readDirection (sel : Finset RomNo) (k : Nat)
  | silent

/-- The bus of the devices `S`. -/
def netWire (S : Finset RomNo) : Wire NetState where
  reset _ := (decide S.Nonempty, .command [])
  readBit
    | .sendIdBit sel k => (andOf sel fun rom => rom.bit k, .sendCmpIdBit sel k)
    | .sendCmpIdBit sel k => (andOf sel fun rom => !rom.bit k, .readDirection sel k)
    | _ => (true, .silent)
  writeBit
    | .command received, v =>
      let received := received ++ [v]
      -- a command has eight bits, and these devices answer to one only
      if received.length < 8 then .command received
      else if received = (List.range 8).map (0xF0#8).getLsbD then .sendIdBit S 0
      else .silent
    | .readDirection sel k, v => .sendIdBit (sel.filter fun rom => rom.bit k = v) (k + 1)
    | _, _ => .silent

/-- Such a bus is a wired AND. -/
def netWire_wiredAnd (S : Finset RomNo) : WiredAnd (netWire S) S where
  selected sel k bus := bus = .sendIdBit sel k
  presence _ := rfl
  start _ := rfl
  idBit := by
    rintro sel bus k - rfl
    rfl
  cmpIdBit := by
    rintro sel bus k - rfl
    rfl
  dropOut := by
    rintro sel bus k - v rfl
    rfl

end EspAcDimmer
