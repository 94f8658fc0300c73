import EspAcDimmer.OneWire.Search

/-! # Two searches side by side

What a search does depends on the values it reads, on its counters, and on the bits of `ROM_NO`
before the last discrepancy. Two searches that have these in common write the same directions and
return the same, on two wires that answer alike.
-/

namespace EspAcDimmer

variable {β γ : Type} {w : Wire β} {v : Wire γ} {R : β → γ → Prop} {K : Nat → Prop} {d k : Nat}

/-- Wires that answer alike to the same time slots. -/
structure WireSim (w : Wire β) (v : Wire γ) (R : β → γ → Prop) : Prop where
  reset : ∀ a b, R a b → (w.reset a).1 = (v.reset b).1 ∧ R (w.reset a).2 (v.reset b).2
  writeBit : ∀ a b x, R a b → R (w.writeBit a x) (v.writeBit b x)
  readBit : ∀ a b, R a b → (w.readBit a).1 = (v.readBit b).1 ∧ R (w.readBit a).2 (v.readBit b).2

/-- A byte written to both wires. -/
theorem WireSim.write (h : WireSim w v R) {a : β} {b : γ} (hab : R a b) (byte : BitVec 8) :
    R (OneWire.write w byte a) (OneWire.write v byte b) := by
  unfold OneWire.write
  induction OneWire.bitMasks generalizing a b with
  | nil => exact hab
  | cons mask masks ih => exact ih (h.writeBit _ _ _ hab)

/-! ## The loop -/

/-- Two loops after `k` bits, which have the bits `K` of the two `ROM_NO` in common. -/
structure Alike (R : β → γ → Prop) (K : Nat → Prop) (k : Nat) (s : SearchLoop β)
    (t : SearchLoop γ) : Prop where
  left : Counted k s
  right : Counted k t
  lastZero : s.lastZero = t.lastZero
  lastFamilyDiscrepancy : s.lastFamilyDiscrepancy = t.lastFamilyDiscrepancy
  bits : ∀ j < 64, j < k ∨ K j → s.romNo.bit j = t.romNo.bit j
  bus : R s.bus t.bus

/-- The bit of `ROM_NO` that the loop looks at after `k` bits. -/
theorem Counted.romBit {s : SearchLoop β} (h : Counted k s) :
    decide (s.romNo (Fin.ofNat 8 s.romByteNumber) &&& s.romByteMask > 0) = s.romNo.bit k := by
  rw [h.romByteNumber, h.romByteMask, RomNo.and_maskOf_pos]
  rfl

/-- Both loops pick the same direction. -/
theorem Alike.direction {s : SearchLoop β} {t : SearchLoop γ} (h : Alike R K k s t) (hk : k < 64)
    (hK : ∀ j, j + 1 < d → K j) (idBit cmpIdBit : Bool) :
    OneWire.searchDirection d idBit cmpIdBit s = OneWire.searchDirection d idBit cmpIdBit t := by
  unfold OneWire.searchDirection
  rw [h.left.romBit, h.right.romBit, h.left.idBitNumber, h.right.idBitNumber]
  by_cases hlast : k + 1 < d
  · rw [h.bits k hk (Or.inr (hK k hlast))]
  · simp only [if_neg hlast]

/-- Step lemma: a round keeps them alike. -/
theorem Alike.next {s : SearchLoop β} {t : SearchLoop γ} (h : Alike R K k s t) (hk : k < 64)
    (hsim : WireSim w v R) (hK : ∀ j, j + 1 < d → K j) (idBit cmpIdBit : Bool) :
    Alike R K (k + 1) (OneWire.searchBit w d idBit cmpIdBit s)
      (OneWire.searchBit v d idBit cmpIdBit t) := by
  have hdir := h.direction hk hK idBit cmpIdBit
  have hid : s.idBitNumber = t.idBitNumber := h.left.idBitNumber.trans h.right.idBitNumber.symm
  constructor
  case left => exact h.left.next
  case right => exact h.right.next
  case lastZero => simp only [OneWire.searchBit, hdir, hid, h.lastZero]
  case lastFamilyDiscrepancy =>
    simp only [OneWire.searchBit, hdir, hid, h.lastZero, h.lastFamilyDiscrepancy]
  case bits =>
    intro j hj hcommon
    rw [h.left.bit hj hk, h.right.bit hj hk, hdir]
    split
    · rfl
    · refine h.bits j hj (hcommon.imp_left ?_)
      intro hlt
      omega
  case bus =>
    simp only [OneWire.searchBit, hdir]
    exact hsim.writeBit _ _ _ h.bus

theorem Alike.setBus {s : SearchLoop β} {t : SearchLoop γ} (h : Alike R K k s t) {a : β} {b : γ}
    (hab : R a b) : Alike R K k { s with bus := a } { t with bus := b } :=
  ⟨h.left.setBus a, h.right.setBus b, h.lastZero, h.lastFamilyDiscrepancy, h.bits, hab⟩

/-- Run lemma: two loops end alike, by break or with all bits. -/
theorem searchLoop_alike (hsim : WireSim w v R) (hK : ∀ j, j + 1 < d → K j) {fuel k : Nat}
    {s : SearchLoop β} {t : SearchLoop γ} (h : Alike R K k s t) (hk : k < 64)
    (hfuel : 64 ≤ fuel + k) :
    ∃ n s' t', n ≤ 64 ∧ OneWire.searchLoop w d fuel s = some s' ∧
      OneWire.searchLoop v d fuel t = some t' ∧ Alike R K n s' t' := by
  induction fuel generalizing k s t with
  | zero => omega
  | succ fuel ih =>
    rcases hsim.readBit _ _ h.bus with ⟨hid, hbus₁⟩
    rcases hsim.readBit _ _ hbus₁ with ⟨hcmp, hbus₂⟩
    simp only [OneWire.searchLoop, ← hid, ← hcmp]
    split
    · exact ⟨k, _, _, by omega, rfl, rfl, h.setBus hbus₂⟩
    · have hnext := (h.setBus hbus₂).next hk hsim hK (w.readBit s.bus).1
        (w.readBit (w.readBit s.bus).2).1
      rw [hnext.left.romByteNumber, hnext.right.romByteNumber]
      by_cases hlt : (k + 1) / 8 < 8
      · rw [if_pos hlt, if_pos hlt]
        exact ih hnext (by omega) (by omega)
      · rw [if_neg hlt, if_neg hlt]
        exact ⟨k + 1, _, _, by omega, rfl, rfl, hnext⟩

/-! ## The search -/

namespace OneWire

/-- The loop of a search, and what stands behind it. -/
def searchWalk (w : Wire β) (ow : OneWire) (bus : β) : Option (Option RomNo × OneWire × β) :=
  (searchLoop w ow.lastDiscrepancy 64
      ⟨1, 0, 0, 1, ow.romNo, ow.lastFamilyDiscrepancy, bus⟩).map fun s =>
    let ow := { ow with romNo := s.romNo, lastFamilyDiscrepancy := s.lastFamilyDiscrepancy }
    if s.idBitNumber < 65 then (none, ow.resetCounters, s.bus)
    else
      let ow := { ow with
        lastDiscrepancy := s.lastZero
        lastDeviceFlag := if s.lastZero = 0 then true else ow.lastDeviceFlag }
      if ow.romNo.familyCode = 0 then (none, ow.resetCounters, s.bus)
      else (some ow.romNo, ow, s.bus)

def searchCommand (searchMode : Bool) : BitVec 8 := if searchMode then 0xF0 else 0xEC

/-- A search is the end of the bus, a wire without devices, or a walk. -/
theorem search_eq (w : Wire β) (searchMode : Bool) (ow : OneWire) (bus : β) :
    search w searchMode ow bus =
      if ow.lastDeviceFlag then some (none, ow.resetCounters, bus)
      else if (w.reset bus).1 then
        searchWalk w ow (write w (searchCommand searchMode) (w.reset bus).2)
      else some (none, ow.resetCounters, (w.reset bus).2) := rfl

/-- A state from which a search starts anew. -/
structure Fresh (ow : OneWire) : Prop where
  lastDiscrepancy : ow.lastDiscrepancy = 0
  lastFamilyDiscrepancy : ow.lastFamilyDiscrepancy = 0
  lastDeviceFlag : ow.lastDeviceFlag = false

theorem fresh_resetCounters (ow : OneWire) : ow.resetCounters.Fresh := ⟨rfl, rfl, rfl⟩

theorem fresh_resetSearch (ow : OneWire) : ow.resetSearch.Fresh := ⟨rfl, rfl, rfl⟩

/-- States with the same counters, and the bits `K` of `ROM_NO` in common. -/
structure Same (K : Nat → Prop) (a b : OneWire) : Prop where
  lastDiscrepancy : a.lastDiscrepancy = b.lastDiscrepancy
  lastFamilyDiscrepancy : a.lastFamilyDiscrepancy = b.lastFamilyDiscrepancy
  lastDeviceFlag : a.lastDeviceFlag = b.lastDeviceFlag
  bits : ∀ j < 64, K j → a.romNo.bit j = b.romNo.bit j

theorem Same.eq {a b : OneWire} (h : Same (fun _ => True) a b) : a = b := by
  have hrom : a.romNo = b.romNo := RomNo.ext_bit fun j hj => h.bits j hj trivial
  cases a
  cases b
  simpa using ⟨hrom, h.lastDiscrepancy, h.lastFamilyDiscrepancy, h.lastDeviceFlag⟩

/-- What two searches that end alike have in common. -/
structure EndAlike (R : β → γ → Prop) (K : Nat → Prop) (x : Option RomNo × OneWire × β)
    (y : Option RomNo × OneWire × γ) : Prop where
  found : x.1 = y.1
  bus : R x.2.2 y.2.2
  same : Same K x.2.1 y.2.1
  eq : x.1 ≠ none → x.2.1 = y.2.1
  fresh : x.1 = none → x.2.1.Fresh ∧ y.2.1.Fresh

/-- Two walks end alike: with the same code, or both in a state that is fresh. -/
theorem searchWalk_alike (hsim : WireSim w v R) {a b : OneWire} (hab : Same K a b)
    (hK : ∀ j, j + 1 < a.lastDiscrepancy → K j) {x : β} {y : γ} (hxy : R x y) :
    ∃ r r', searchWalk w a x = some r ∧ searchWalk v b y = some r' ∧ EndAlike R K r r' := by
  have hstart : Alike R K 0 ⟨1, 0, 0, 1, a.romNo, a.lastFamilyDiscrepancy, x⟩
      ⟨1, 0, 0, 1, b.romNo, b.lastFamilyDiscrepancy, y⟩ :=
    ⟨counted_start _ _ _, counted_start _ _ _, rfl, hab.lastFamilyDiscrepancy,
      fun j hj hcommon => hab.bits j hj (hcommon.resolve_left (Nat.not_lt_zero j)), hxy⟩
  obtain ⟨n, s, t, hn, hs, ht, hend⟩ := searchLoop_alike hsim hK hstart (by decide)
    (Nat.le_refl 64)
  unfold searchWalk
  rw [← hab.lastDiscrepancy, hs, ht]
  simp only [Option.map_some, hend.left.idBitNumber, hend.right.idBitNumber]
  have hbits : ∀ j < 64, K j → s.romNo.bit j = t.romNo.bit j :=
    fun j hj hKj => hend.bits j hj (Or.inr hKj)
  by_cases hbreak : n + 1 < 65
  · rw [if_pos hbreak, if_pos hbreak]
    exact ⟨_, _, rfl, rfl, rfl, hend.bus, ⟨rfl, rfl, rfl, hbits⟩, nofun,
      fun _ => ⟨fresh_resetCounters _, fresh_resetCounters _⟩⟩
  · -- all bits were written, the same in both
    have hrom : s.romNo = t.romNo := by
      refine RomNo.ext_bit fun j hj => hend.bits j hj (Or.inl ?_)
      omega
    rw [if_neg hbreak, if_neg hbreak, hrom, hend.lastZero, hab.lastDeviceFlag,
      hend.lastFamilyDiscrepancy]
    by_cases hfamily : t.romNo 0 = 0
    · rw [if_pos hfamily, if_pos hfamily]
      exact ⟨_, _, rfl, rfl, rfl, hend.bus, ⟨rfl, rfl, rfl, fun _ _ _ => rfl⟩, nofun,
        fun _ => ⟨fresh_resetCounters _, fresh_resetCounters _⟩⟩
    · rw [if_neg hfamily, if_neg hfamily]
      exact ⟨_, _, rfl, rfl, rfl, hend.bus, ⟨rfl, rfl, rfl, fun _ _ _ => rfl⟩, fun _ => rfl, nofun⟩

/-- Two searches from states that have what matters in common end alike. -/
theorem search_alike (hsim : WireSim w v R) {a b : OneWire} (hab : Same K a b)
    (hK : ∀ j, j + 1 < a.lastDiscrepancy → K j) (searchMode : Bool) {x : β} {y : γ} (hxy : R x y) :
    ∃ r r', search w searchMode a x = some r ∧ search v searchMode b y = some r' ∧
      EndAlike R K r r' := by
  rw [search_eq, search_eq, ← hab.lastDeviceFlag]
  rcases hsim.reset _ _ hxy with ⟨hpresence, hreset⟩
  split
  · exact ⟨_, _, rfl, rfl, rfl, hxy, ⟨rfl, rfl, rfl, hab.bits⟩, nofun,
      fun _ => ⟨fresh_resetCounters _, fresh_resetCounters _⟩⟩
  · rw [← hpresence]
    split
    · exact searchWalk_alike hsim hab hK (hsim.write hreset _)
    · exact ⟨_, _, rfl, rfl, rfl, hreset, ⟨rfl, rfl, rfl, hab.bits⟩, nofun,
        fun _ => ⟨fresh_resetCounters _, fresh_resetCounters _⟩⟩

end OneWire

end EspAcDimmer
