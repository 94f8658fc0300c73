import EspAcDimmer.OneWire.Crc
import EspAcDimmer.OneWire.Pins
import EspAcDimmer.OneWire.Recovery

/-! # Power on the wire

What is written is what a device at the other end makes of the times for which the wire is held low.
Behind the bits, `write` lets the wire go unless `power` is set. `write_bytes` takes the same
argument and does the same, but writes its bytes one by one without it: after the last of them the
wire is let go, whatever `power` says.
-/

namespace EspAcDimmer

/-! ## The line -/

/-- The wire as it is driven: the pin, for how long it has been low, and how long it was low each
time before. -/
structure Line where
  mode : PinMode
  value : Bool
  low : Nat := 0
  pulses : List Nat := []
deriving DecidableEq

namespace Line

def isLow (l : Line) : Bool := l.mode = .output ∧ l.value = false

/-- A pulse ends when the wire is driven high or let go. -/
def set (l : Line) (mode : PinMode) (value : Bool) : Line :=
  if l.isLow ∧ ¬ (Line.mk mode value 0 []).isLow then ⟨mode, value, 0, l.pulses ++ [l.low]⟩
  else { l with mode := mode, value := value }

def call (l : Line) : Callback → Line
  | .setPinMode mode => l.set mode l.value
  | .setPinValue value => l.set l.mode value
  | .delayMsec time => if l.isLow then { l with low := l.low + time } else l
  | .readPinValue _ | .setIntrMode _ => l

/-- A device samples the wire 15 to 60 us after it went low: what it has read when the wire was low
for so long. -/
def slotBit (us : Nat) : Option Bool :=
  if us ≤ 15 then some true else if 60 ≤ us ∧ us ≤ 120 then some false else none

end Line

namespace Pins

variable {p q r : Pins} {bs cs : List Bool}

/-- The pulses that the calls since `p` made of the wire. From a start with the pin `OUTPUT` and
low, the time for which the wire was low before is not counted: the first pulse begins with these
calls. -/
def pulses (p q : Pins) : List Nat :=
  ((q.calls.drop p.calls.length).foldl Line.call ⟨p.pinMode, p.pinValue, 0, []⟩).pulses

/-! ## Bits on the wire -/

/-- The calls since `p` put these bits on the wire, one pulse each, and leave it high behind
them. -/
def Puts (p q : Pins) (bs : List Bool) : Prop :=
  ∃ calls, q.calls = p.calls ++ calls ∧ ∀ l : Line, l.low = 0 →
    (calls.foldl Line.call l).low = 0 ∧
      (bs ≠ [] ∨ l.isLow = false → (calls.foldl Line.call l).isLow = false) ∧
      (calls.foldl Line.call l).pulses.map Line.slotBit =
        l.pulses.map Line.slotBit ++ bs.map some

theorem Puts.refl (p : Pins) : Puts p p [] :=
  ⟨[], (List.append_nil _).symm, fun _ h =>
    ⟨h, fun hhigh => hhigh.resolve_left (by simp), (List.append_nil _).symm⟩⟩

/-- The bits of two calls, one behind the other. -/
theorem Puts.trans (h : Puts p q bs) (h' : Puts q r cs) : Puts p r (bs ++ cs) := by
  rcases h with ⟨calls, hcalls, hbits⟩
  rcases h' with ⟨calls', hcalls', hbits'⟩
  refine ⟨calls ++ calls', by rw [hcalls', hcalls, List.append_assoc], ?_⟩
  intro l hl
  rcases hbits l hl with ⟨hlow, hhigh, hpulses⟩
  rcases hbits' _ hlow with ⟨hlow', hhigh', hpulses'⟩
  rw [List.foldl_append]
  refine ⟨hlow', fun hstart => hhigh' ?_, by rw [hpulses', hpulses, List.map_append,
    List.append_assoc]⟩
  by_cases hcs : cs = []
  · exact Or.inr (hhigh (by simpa [hcs] using hstart))
  · exact Or.inl hcs

/-- A device reads the bits off the pulses. -/
theorem Puts.pulses (h : Puts p q bs) : (p.pulses q).map Line.slotBit = bs.map some := by
  rcases h with ⟨calls, hcalls, hbits⟩
  unfold Pins.pulses
  rw [hcalls, List.drop_left]
  simpa using (hbits ⟨p.pinMode, p.pinValue, 0, []⟩ rfl).2.2

/-- What `write_bit` calls, with the times for which the wire is low and then high. -/
def slotCalls (low high : Nat) : List Callback := [.setIntrMode .intrOff, .setPinValue false,
  .setPinMode .output, .delayMsec low, .setPinValue true, .setIntrMode .intrOn, .delayMsec high]

/-- Whatever the pin was before, a slot is one pulse, and leaves the wire driven high. -/
theorem foldl_slotCalls {l : Line} (h : l.low = 0) (low high : Nat) :
    (slotCalls low high).foldl Line.call l = ⟨.output, true, 0, l.pulses ++ [low]⟩ := by
  rcases l with ⟨mode, value, _, pulses⟩
  obtain rfl : _ = 0 := h
  cases mode <;> cases value <;> simp [slotCalls, Line.call, Line.set, Line.isLow]

/-- A bit written is that bit on the wire. -/
theorem writeBit_puts (p : Pins) (b : Bool) : Puts p (p.writeBit (if b then 1 else 0)) [b] := by
  cases b with
  | true =>
    refine ⟨slotCalls 10 55, ?_, ?_⟩
    · simp [writeBit, slotCalls, noInterrupts, setPinValue, setPinMode, delayMsec, interrupts]
    · intro l hl
      simp [foldl_slotCalls hl, Line.isLow, Line.slotBit]
  | false =>
    refine ⟨slotCalls 65 5, ?_, ?_⟩
    · simp [writeBit, slotCalls, noInterrupts, setPinValue, setPinMode, delayMsec, interrupts]
    · intro l hl
      simp [foldl_slotCalls hl, Line.isLow, Line.slotBit]

/-- Letting go of the wire when it is high is no pulse. -/
theorem Puts.release (h : Puts p q bs) (hbs : bs ≠ []) : Puts p q.release bs := by
  rcases h with ⟨calls, hcalls, hbits⟩
  refine ⟨calls ++ [.setIntrMode .intrOff, .setPinMode .input, .setPinValue false,
    .setIntrMode .intrOn], ?_, fun l hl => ?_⟩
  · simp [Pins.release, noInterrupts, setPinMode, setPinValue, interrupts, hcalls]
  · rcases hbits l hl with ⟨hlow, hhigh, hpulses⟩
    rw [List.foldl_append]
    have hend := hhigh (Or.inl hbs)
    generalize calls.foldl Line.call l = l' at hlow hpulses hend ⊢
    have hset : [.setIntrMode .intrOff, .setPinMode .input, .setPinValue false,
        .setIntrMode .intrOn].foldl Line.call l' = ⟨.input, false, 0, l'.pulses⟩ := by
      rcases l' with ⟨mode, value, low, pulses⟩
      obtain rfl : low = 0 := hlow
      cases mode <;> cases value
      case output.false => exact absurd hend (by simp [Line.isLow])
      all_goals simp [Line.call, Line.set, Line.isLow]
    rw [hset]
    exact ⟨rfl, fun _ => rfl, hpulses⟩

/-- A byte written is its eight bits. -/
theorem writeByte_puts (p : Pins) (v : BitVec 8) :
    Puts p (OneWire.write slots v p) (Crc.bits v) := by
  rw [show Crc.bits v = byteBits v from rfl, ← bitMasks_bits]
  unfold OneWire.write
  induction OneWire.bitMasks generalizing p with
  | nil => exact Puts.refl p
  | cons mask masks ih => exact (writeBit_puts p _).trans (ih _)

/-- Whether power is kept makes no difference to the bits. -/
theorem write_puts (p : Pins) (v power : BitVec 8) : Puts p (p.write v power) (Crc.bits v) := by
  unfold write
  simp only
  split
  · exact (writeByte_puts p v).release (bits_ne_nil v)
  · exact writeByte_puts p v

/-- The bytes of a buffer. -/
theorem foldl_write_puts (p : Pins) (buf : List (BitVec 8)) :
    Puts p (buf.foldl (fun p b => p.write b) p) (transmitted buf) := by
  induction buf generalizing p with
  | nil => exact Puts.refl p
  | cons b buf ih => exact (write_puts p b 0).trans (ih _)

/-- `write_bytes` puts the bytes of its buffer on the wire. -/
theorem writeBytes_puts (p : Pins) {buf : List (BitVec 8)} (h : buf ≠ []) (power : Bool) :
    Puts p (p.writeBytes buf power) (transmitted buf) := by
  unfold writeBytes
  simp only
  split
  · exact foldl_write_puts p buf
  · refine (foldl_write_puts p buf).release (List.ne_nil_of_length_pos ?_)
    have hlen := List.length_pos_iff.mpr h
    rw [length_transmitted]
    omega

/-! ## The pin behind the bits -/

/-- `power` set or not. -/
def Powered (p : Pins) (power : Bool) : Prop :=
  p.pinMode = (if power then .output else .input) ∧ p.pinValue = power

instance (p : Pins) (power : Bool) : Decidable (p.Powered power) :=
  inferInstanceAs (Decidable (_ ∧ _))

/-- Behind a bit the wire is driven high. -/
theorem writeBit_powered (p : Pins) (v : BitVec 8) : (p.writeBit v).Powered true := by
  unfold writeBit
  split <;> simp [Powered]

theorem release_powered (p : Pins) : p.release.Powered false := by
  simp [Powered, release]

/-- A byte written is a bit written, and the wire let go unless `power` is set. -/
theorem write_powered (p : Pins) (v power : BitVec 8) :
    (p.write v power).Powered (decide (power ≠ 0)) := by
  have hbyte : (OneWire.write slots v p).Powered true := writeBit_powered _ _
  unfold write
  simp only
  split
  · next h => simpa [h] using release_powered _
  · next h =>
    rw [decide_eq_true h]
    exact hbyte

/-- A pin that was let go is let go behind any number of bytes. -/
theorem foldl_write_powered {p : Pins} (h : p.Powered false) (buf : List (BitVec 8)) :
    (buf.foldl (fun p b => p.write b) p).Powered false := by
  induction buf generalizing p with
  | nil => exact h
  | cons b buf ih => exact ih (write_powered p b 0)

/-- Behind a buffer the wire is let go in any case. -/
theorem writeBytes_powered (p : Pins) {buf : List (BitVec 8)} (h : buf ≠ []) (power : Bool) :
    (p.writeBytes buf power).Powered false := by
  rcases List.exists_cons_of_ne_nil h with ⟨b, buf, rfl⟩
  unfold writeBytes
  simp only
  split
  · exact foldl_write_powered (write_powered p b 0) buf
  · exact release_powered _

end Pins

/-! ## Calls -/

/-- A byte or a buffer to write, with the argument `power`. -/
inductive WriteCall where
  | write (v power : BitVec 8)
  | writeBytes (buf : List (BitVec 8)) (power : Bool)

namespace WriteCall

def bytes : WriteCall → List (BitVec 8)
  | .write v _ => [v]
  | .writeBytes buf _ => buf

def power : WriteCall → Bool
  | .write _ power => power ≠ 0
  | .writeBytes _ power => power

def run (p : Pins) : WriteCall → Pins
  | .write v power => p.write v power
  | .writeBytes buf power => p.writeBytes buf power

/-- The bits on the wire are those of the bytes, and `power` decides what is left of the wire. -/
def PowerDecides (p : Pins) (call : WriteCall) : Prop :=
  (p.pulses (call.run p)).map Line.slotBit = (transmitted call.bytes).map some ∧
    (call.run p).Powered call.power

instance (p : Pins) (call : WriteCall) : Decidable (call.PowerDecides p) :=
  inferInstanceAs (Decidable (_ ∧ _))

/-- For every starting state of the pin: the bits are right always, and `power` decides unless it is
set for a buffer. -/
theorem powerDecides_iff (p : Pins) (call : WriteCall) (h : call.bytes ≠ []) :
    call.PowerDecides p ↔ (∃ v power, call = .write v power) ∨ call.power = false := by
  cases call with
  | write v power =>
    refine iff_of_true ⟨?_, p.write_powered v power⟩ (Or.inl ⟨v, power, rfl⟩)
    simpa [bytes, run] using (p.write_puts v power).pulses
  | writeBytes buf power =>
    have hbits := (p.writeBytes_puts h power).pulses
    have hleft : (p.writeBytes buf power).Powered false := p.writeBytes_powered h power
    cases power with
    | false => exact iff_of_true ⟨hbits, hleft⟩ (Or.inr rfl)
    | true =>
      refine iff_of_false ?_ (by simp [power])
      intro hdecides
      have hright : (p.writeBytes buf true).Powered true := hdecides.2
      exact absurd (hleft.2.symm.trans hright.2) (by simp)

/-- A new alarm range for all devices, from a pin that is driven low: the bits are right and the
wire is let go if `power` is not set, and it is let go as well if `power` is set. -/
theorem powerDecides_iff_range :
    [0xCC#8, 0x4E, 0x1E, 0x0A] ≠ [] ∧
      (WriteCall.writeBytes [0xCC, 0x4E, 0x1E, 0x0A] false).PowerDecides
        ⟨fun _ => true, 0, [.setPinMode .output]⟩ ∧
      ¬ (WriteCall.writeBytes [0xCC, 0x4E, 0x1E, 0x0A] true).PowerDecides
        ⟨fun _ => true, 0, [.setPinMode .output]⟩ := by
  have hbytes : [0xCC#8, 0x4E, 0x1E, 0x0A] ≠ [] := by decide
  have hdecides := fun power => powerDecides_iff ⟨fun _ => true, 0, [.setPinMode .output]⟩
    (.writeBytes [0xCC, 0x4E, 0x1E, 0x0A] power) hbytes
  refine ⟨hbytes, (hdecides false).mpr (Or.inr rfl), ?_⟩
  intro h
  rcases (hdecides true).mp h with ⟨v, power, hwrite⟩ | hpower
  · cases hwrite
  · cases hpower

/-- The conversion command to a device that takes its power from the wire: the wire is let go. -/
theorem writeBytes_unpowered :
    [0x44#8] ≠ [] ∧
      ¬ (WriteCall.writeBytes [0x44] true).PowerDecides { samples := fun _ => true } := by
  decide +kernel

end WriteCall

end EspAcDimmer
