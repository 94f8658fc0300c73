import EspAcDimmer.OneWire.Simulation

/-! # A search on a noisy wire

No wire is assumed here: a slot may read anything. A search still ends, within its bounds, and the
code it returns is what it wrote. When it returns false, what it leaves in `ROM_NO` is never looked
at again: the next search starts anew, and so do all that follow.
-/

namespace EspAcDimmer

variable {β γ : Type} {w : Wire β} {v : Wire γ} {d k : Nat}

/-! ## What is written -/

/-- The wire, with a record of the bits written. -/
def Wire.logged (w : Wire β) : Wire (β × List Bool) where
  reset bus := ((w.reset bus.1).1, (w.reset bus.1).2, bus.2)
  writeBit bus v := (w.writeBit bus.1 v, bus.2 ++ [v])
  readBit bus := ((w.readBit bus.1).1, (w.readBit bus.1).2, bus.2)

/-- A wire with a record answers like the wire itself. -/
theorem logged_sim (w : Wire β) : WireSim w.logged w fun a b => a.1 = b where
  reset := by
    rintro a - rfl
    exact ⟨rfl, rfl⟩
  writeBit := by
    rintro a - x rfl
    rfl
  readBit := by
    rintro a - rfl
    exact ⟨rfl, rfl⟩

/-- A byte as it is written, least significant bit first. -/
def byteBits (b : BitVec 8) : List Bool := (List.range 8).map b.getLsbD

/-- The masks of `write` go through the bits from the lowest. -/
theorem bitMasks_bits (b : BitVec 8) :
    OneWire.bitMasks.map (fun mask => decide (mask &&& b ≠ 0)) = byteBits b := by
  revert b
  decide +kernel

/-- A byte is written bit by bit. -/
theorem write_eq_foldl (w : Wire β) (b : BitVec 8) (bus : β) :
    OneWire.write w b bus = (byteBits b).foldl w.writeBit bus := by
  rw [← bitMasks_bits, List.foldl_map]
  rfl

/-- A byte is eight bits on record. -/
theorem write_logged (b : BitVec 8) (bus : β × List Bool) :
    (OneWire.write w.logged b bus).2 = bus.2 ++ byteBits b := by
  rw [write_eq_foldl]
  induction byteBits b generalizing bus with
  | nil => simp
  | cons v bs ih =>
    rw [List.foldl_cons, ih]
    simp [Wire.logged]

/-! ## The loop -/

/-- The loop after `k` bits: the counters are within their bounds, and the bits it has written,
behind what was written before, are the first ones of `ROM_NO`. -/
structure Recorded (before : List Bool) (k : Nat) (s : SearchLoop (β × List Bool)) : Prop where
  counted : Counted k s
  lastZero_le : s.lastZero ≤ k
  lastFamilyDiscrepancy_le : s.lastFamilyDiscrepancy ≤ 64
  written : s.bus.2 = before ++ (List.range k).map s.romNo.bit

/-- Step lemma: a round writes its direction and puts it into `ROM_NO`. -/
theorem Recorded.next {before : List Bool} {s : SearchLoop (β × List Bool)}
    (h : Recorded before k s) (hk : k < 64) (idBit cmpIdBit : Bool) :
    Recorded before (k + 1) (OneWire.searchBit w.logged d idBit cmpIdBit s) := by
  have hid := h.counted.idBitNumber
  have hzero := h.lastZero_le
  have hfamily := h.lastFamilyDiscrepancy_le
  constructor
  case counted => exact h.counted.next
  case lastZero_le =>
    simp only [OneWire.searchBit, hid]
    split <;> omega
  case lastFamilyDiscrepancy_le =>
    simp only [OneWire.searchBit, hid]
    split
    · split <;> omega
    · split <;> omega
  case written =>
    have hbits : (List.range (k + 1)).map
        (OneWire.searchBit w.logged d idBit cmpIdBit s).romNo.bit =
          (List.range k).map s.romNo.bit ++ [OneWire.searchDirection d idBit cmpIdBit s] := by
      rw [List.range_succ, List.map_append, List.map_singleton, h.counted.bit hk hk, if_pos rfl]
      congr 1
      apply List.map_congr_left
      intro j hj
      have hlt : j < k := List.mem_range.mp hj
      rw [h.counted.bit (by omega) hk, if_neg (by omega)]
    rw [hbits, ← List.append_assoc, ← h.written]
    rfl

/-- The loop in front of its first round, its second one and so on: no bound on the number of
rounds appears. -/
inductive Round (w : Wire β) (d : Nat) (start : SearchLoop β) : Nat → SearchLoop β → Prop where
  | first : Round w d start 0 start
  | again {n : Nat} {s s' : SearchLoop β} {idBit cmpIdBit : Bool} {bus₁ bus₂ : β} :
      Round w d start n s → w.readBit s.bus = (idBit, bus₁) → w.readBit bus₁ = (cmpIdBit, bus₂) →
      ¬ (idBit = true ∧ cmpIdBit = true) →
      s' = OneWire.searchBit w d idBit cmpIdBit { s with bus := bus₂ } → s'.romByteNumber < 8 →
      Round w d start (n + 1) s'

/-- Run lemma: a round has the number of its bit, so there is no 65th. -/
theorem Round.counted {start s : SearchLoop β} {n : Nat} (h : Round w d start n s)
    (hstart : Counted 0 start) : n < 64 ∧ Counted n s := by
  induction h with
  | first => exact ⟨by decide, hstart⟩
  | @again n s s' idBit cmpIdBit bus₁ bus₂ _ _ _ _ hs' hlt ih =>
    have hnext : Counted (n + 1) s' := by
      rw [hs']
      exact (ih.2.setBus bus₂).next
    rw [hnext.romByteNumber] at hlt
    exact ⟨by omega, hnext⟩

/-- Every index into `ROM_NO` is below 8, and there are 64 rounds at most. -/
theorem Round.inside {start s : SearchLoop β} {n : Nat} (h : Round w d start n s)
    (hstart : Counted 0 start) : n < 64 ∧ s.romByteNumber < 8 := by
  rcases h.counted hstart with ⟨hn, hcounted⟩
  rw [hcounted.romByteNumber]
  exact ⟨hn, by omega⟩

namespace OneWire

/-! ## Calls -/

/-- What the calls of the search functions make of a new object, on whatever wires. -/
inductive Reachable : OneWire → Prop where
  | begin (ow : OneWire) : Reachable ow.resetSearch
  | resetSearch {ow : OneWire} : Reachable ow → Reachable ow.resetSearch
  | targetSearch {ow : OneWire} (familyCode : BitVec 8) :
      Reachable ow → Reachable (.targetSearch familyCode)
  | search {ow ow' : OneWire} {β : Type} (w : Wire β) (searchMode : Bool) {bus bus' : β}
      {found : Option RomNo} : Reachable ow →
      ow.search w searchMode bus = some (found, ow', bus') → Reachable ow'

/-- The counters are numbers of bits. -/
structure CountersFit (ow : OneWire) : Prop where
  lastDiscrepancy : ow.lastDiscrepancy ≤ 64
  lastFamilyDiscrepancy : ow.lastFamilyDiscrepancy ≤ 64

/-- What a search returns and writes, on whatever wire, from a state whose counters fit. -/
theorem search_recorded {ow : OneWire} (how : ow.CountersFit) (w : Wire β) (searchMode : Bool)
    (bus : β × List Bool) :
    ∃ found ow' bus', ow.search w.logged searchMode bus = some (found, ow', bus') ∧
      ow'.CountersFit ∧
      (bus'.2 = bus.2 ∨ ∃ n ≤ 64, ∃ rom : RomNo,
        bus'.2 = bus.2 ++ byteBits (searchCommand searchMode) ++ (List.range n).map rom.bit) ∧
      ∀ rom, found = some rom → rom 0 ≠ 0 ∧
        bus'.2 = bus.2 ++ byteBits (searchCommand searchMode) ++ (List.range 64).map rom.bit := by
  have hreset : ∀ ow : OneWire, ow.resetCounters.CountersFit :=
    fun ow => ⟨Nat.zero_le 64, Nat.zero_le 64⟩
  rw [search_eq]
  split
  · exact ⟨_, _, _, rfl, hreset ow, Or.inl rfl, nofun⟩
  split
  · have hwritten := write_logged (w := w) (searchCommand searchMode) (w.logged.reset bus).2
    generalize write w.logged (searchCommand searchMode) (w.logged.reset bus).2 = bus₁
      at hwritten ⊢
    have hstart : Recorded bus₁.2 0
        ⟨1, 0, 0, 1, ow.romNo, ow.lastFamilyDiscrepancy, bus₁⟩ :=
      ⟨counted_start _ _ _, Nat.le_refl 0, how.lastFamilyDiscrepancy, by simp⟩
    obtain ⟨n, s, hn, hs, hend⟩ := searchLoop_invariant (w := w.logged)
      (d := ow.lastDiscrepancy) (fun _ _ h => h.counted)
      (fun _ _ h => ⟨h.counted.setBus _, h.lastZero_le, h.lastFamilyDiscrepancy_le, h.written⟩)
      (fun _ _ idBit cmpIdBit hk h => h.next hk idBit cmpIdBit) hstart (by decide)
      (Nat.le_refl 64)
    have hbus : s.bus.2 = bus.2 ++ byteBits (searchCommand searchMode) ++
        (List.range n).map s.romNo.bit := by
      rw [hend.written, hwritten]
      rfl
    have hzero := hend.lastZero_le
    have hfamily := hend.lastFamilyDiscrepancy_le
    unfold searchWalk
    rw [hs]
    simp only [Option.map_some]
    split
    · exact ⟨_, _, _, rfl, hreset _, Or.inr ⟨n, hn, s.romNo, hbus⟩, nofun⟩
    · next hall =>
      have h64 : n = 64 := by
        rw [hend.counted.idBitNumber] at hall
        omega
      split
      · exact ⟨_, _, _, rfl, hreset _, Or.inr ⟨n, hn, s.romNo, hbus⟩, nofun⟩
      · next hfirst =>
        refine ⟨_, _, _, rfl, ⟨by simp only; omega, hfamily⟩, Or.inr ⟨n, hn, s.romNo, hbus⟩, ?_⟩
        intro rom hrom
        obtain rfl := Option.some.inj hrom
        exact ⟨hfirst, h64 ▸ hbus⟩
  · exact ⟨_, _, _, rfl, hreset ow, Or.inl rfl, nofun⟩

theorem Same.refl (ow : OneWire) : Same (fun _ => True) ow ow := ⟨rfl, rfl, rfl, fun _ _ _ => rfl⟩

/-- The record changes nothing. -/
theorem search_logged (ow : OneWire) (w : Wire β) (searchMode : Bool) (bus : β × List Bool) :
    ∃ found ow' bus', ow.search w.logged searchMode bus = some (found, ow', bus') ∧
      ow.search w searchMode bus.1 = some (found, ow', bus'.1) ∧ (found = none → ow'.Fresh) := by
  obtain ⟨r, r', hr, hr', hend⟩ :=
    search_alike (logged_sim w) (Same.refl ow) (fun _ _ => trivial) searchMode (x := bus) rfl
  refine ⟨r.1, r.2.1, r.2.2, hr, ?_, fun hno => (hend.fresh hno).1⟩
  rw [hr', hend.found, hend.same.eq, hend.bus]

/-- No call lets a counter grow beyond 64. -/
theorem Reachable.countersFit {ow : OneWire} (h : Reachable ow) : ow.CountersFit := by
  induction h with
  | begin ow => exact ⟨Nat.zero_le 64, Nat.zero_le 64⟩
  | resetSearch _ _ => exact ⟨Nat.zero_le 64, Nat.zero_le 64⟩
  | targetSearch _ _ _ => exact ⟨Nat.le_refl 64, Nat.zero_le 64⟩
  | @search ow ow' β w searchMode bus bus' found _ hsearch ih =>
    rcases search_recorded ih w searchMode (bus, []) with ⟨f, o, b, hlogged, hfit, -⟩
    rcases search_logged ow w searchMode (bus, []) with ⟨f', o', b', hlogged', hsearch', -⟩
    simp only [hlogged, hsearch', Option.some.injEq, Prod.mk.injEq] at hlogged' hsearch
    exact hsearch.2.1 ▸ hlogged'.2.1 ▸ hfit

/-- Searches one after the other: what each of them returned, and left of the wire. -/
def searches (w : Wire β) : List Bool → OneWire → β → Option (List (Option RomNo × β))
  | [], _, _ => some []
  | searchMode :: searchModes, ow, bus =>
    (ow.search w searchMode bus).bind fun r =>
      (searches w searchModes r.2.1 r.2.2).map ((r.1, r.2.2) :: ·)

/-- From states that start anew all searches are the same, whatever `ROM_NO` holds. -/
theorem searches_fresh (w : Wire β) {a b : OneWire} (ha : a.Fresh) (hb : b.Fresh)
    (searchModes : List Bool) (bus : β) :
    searches w searchModes a bus = searches w searchModes b bus := by
  have hsim : WireSim w w Eq := by
    constructor
    · rintro x - rfl
      exact ⟨rfl, rfl⟩
    · rintro x - v rfl
      rfl
    · rintro x - rfl
      exact ⟨rfl, rfl⟩
  induction searchModes generalizing a b bus with
  | nil => rfl
  | cons searchMode searchModes ih =>
    have hsame : Same (fun _ => False) a b :=
      ⟨ha.lastDiscrepancy.trans hb.lastDiscrepancy.symm,
        ha.lastFamilyDiscrepancy.trans hb.lastFamilyDiscrepancy.symm,
        ha.lastDeviceFlag.trans hb.lastDeviceFlag.symm, nofun⟩
    have hno : ∀ j, j + 1 < a.lastDiscrepancy → False := by
      intro j hj
      rw [ha.lastDiscrepancy] at hj
      exact Nat.not_lt_zero _ hj
    rcases search_alike hsim hsame hno searchMode (rfl : bus = bus) with ⟨r, r', hr, hr', hend⟩
    have hrest : searches w searchModes r.2.1 r'.2.2 = searches w searchModes r'.2.1 r'.2.2 := by
      by_cases hfound : r.1 = none
      · rcases hend.fresh hfound with ⟨hfresh, hfresh'⟩
        exact ih hfresh hfresh' _
      · rw [hend.eq hfound]
    simp only [searches, hr, hr', Option.bind_some, hend.found, hend.bus]
    rw [hrest]

/-- What a call of `search` does, when `written` are the bits it writes. -/
structure Survives (w : Wire β) (searchMode : Bool) (ow : OneWire) (result : Option RomNo)
    (ow' : OneWire) (written : List Bool) : Prop where
  rounds : ∀ bus n s, Round w ow.lastDiscrepancy
    ⟨1, 0, 0, 1, ow.romNo, ow.lastFamilyDiscrepancy, bus⟩ n s → n < 64 ∧ s.romByteNumber < 8
  steps : written = [] ∨ ∃ directions : List Bool, directions.length ≤ 64 ∧
    written = byteBits (searchCommand searchMode) ++ directions
  counters : ow'.CountersFit
  found : ∀ newAddr, result = some newAddr → newAddr 0 ≠ 0 ∧
    written = byteBits (searchCommand searchMode) ++ (List.range 64).map newAddr.bit
  recovers : result = none → ∀ {γ : Type} (v : Wire γ) (searchModes : List Bool) (bus : γ),
    searches v searchModes ow' bus = searches v searchModes ow'.resetSearch bus

/-- From every reachable state and on every wire: `search` ends, returns what it wrote, and recovers
from what it could not finish. -/
theorem search_survives {ow : OneWire} (how : Reachable ow) (w : Wire β) (searchMode : Bool)
    (bus : β) :
    ∃ found ow' bus' written, ow.search w searchMode bus = some (found, ow', bus') ∧
      ow.search w.logged searchMode (bus, []) = some (found, ow', bus', written) ∧
      Survives w searchMode ow found ow' written := by
  rcases search_logged ow w searchMode (bus, []) with ⟨found, ow', bus', hlogged, hsearch, hfresh⟩
  obtain ⟨f, o, b, hrecorded, hfit, hsteps, hfound⟩ :=
    search_recorded how.countersFit w searchMode (bus, [])
  rw [hlogged] at hrecorded
  obtain ⟨rfl, rfl, rfl⟩ : found = f ∧ ow' = o ∧ bus' = b := by simpa using hrecorded
  refine ⟨found, ow', bus'.1, bus'.2, hsearch, hlogged, ?_⟩
  constructor
  case rounds =>
    intro bus n s h
    exact h.inside (counted_start _ _ _)
  case steps =>
    rcases hsteps with h | ⟨n, hn, rom, h⟩
    · exact Or.inl h
    · exact Or.inr ⟨(List.range n).map rom.bit, by simpa using hn, h⟩
  case counters => exact hfit
  case found => exact hfound
  case recovers =>
    intro hno γ v searchModes bus
    exact searches_fresh v (hfresh hno) (fresh_resetSearch ow') searchModes bus

/-- A wire on which a device answers to 20 bits of a search, all of them 1, and then no more. The
state is the number of slots read since the reset. -/
def fadingWire : Wire Nat where
  reset _ := (true, 0)
  writeBit n _ := n
  readBit n := (decide (n < 40 → n % 2 = 0), n + 1)

/-- A search for a family that ends with the 21st bit: it returns false, has written over 20 bits of
`ROM_NO`, and recovers. -/
theorem search_survives_fading :
    ((OneWire.targetSearch 0x28).search fadingWire true 0).map
      (fun r => (r.1, r.2.1.romNo 0, r.2.1.romNo 2, r.2.2)) = some (none, 0xFF, 0x0F, 42) ∧
    ∃ found ow' bus' written,
      (OneWire.targetSearch 0x28).search fadingWire true 0 = some (found, ow', bus') ∧
      (OneWire.targetSearch 0x28).search fadingWire.logged true (0, []) =
        some (found, ow', bus', written) ∧
      Survives fadingWire true (.targetSearch 0x28) found ow' written :=
  ⟨by decide +kernel,
    search_survives (.targetSearch 0x28 (.begin (.targetSearch 0))) fadingWire true 0⟩

end OneWire

end EspAcDimmer
