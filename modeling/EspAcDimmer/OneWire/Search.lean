import EspAcDimmer.Lib.BitTrie
import EspAcDimmer.OneWire.Basic

/-! # The search enumerates the bus

One call of `search` is one walk down the trie of the codes on the bus, and `ROM_NO` with
`LastDiscrepancy` is what the walk needs to find the next code: between two calls they are the code
found last and its last branch. So the calls go through the sorted list of the codes and, one call
later, start again.
-/

namespace EspAcDimmer

open BitTrie

variable {β : Type} {w : Wire β} {S : Finset RomNo} {d : Nat} {r t : RomNo}

/-! ## Bits of a ROM code -/

namespace RomNo

/-- A byte is its bits. -/
theorem byte_eq {a b : RomNo} {k : Nat} (h : Agree bit k a b) (i : Fin 8) (hi : 8 * (i + 1) ≤ k) :
    a i = b i := by
  apply BitVec.eq_of_getLsbD_eq
  intro j hj
  have hbit := h (8 * i + j) (by omega)
  have hdiv : (8 * (i : Nat) + j) / 8 = i := by omega
  have hmod : (8 * (i : Nat) + j) % 8 = j := by omega
  simpa [bit, hdiv, hmod] using hbit

theorem ext_bit {a b : RomNo} (h : Agree bit 64 a b) : a = b :=
  funext fun i => byte_eq h i (by omega)

/-- The mask of a bit. -/
def maskOf (k : Nat) : BitVec 8 :=
  1#8 <<< (k % 8)

/-- The mask has one bit. -/
theorem getLsbD_maskOf {j k : Nat} (hj : j < 8) : (maskOf k).getLsbD j = decide (j = k % 8) := by
  have hk : k % 8 < 8 := Nat.mod_lt k (by decide)
  unfold maskOf
  generalize k % 8 = i at hk
  revert i j
  decide

/-- It picks that bit of a byte. -/
theorem and_maskOf_pos (b : BitVec 8) (k : Nat) :
    decide (b &&& maskOf k > 0) = b.getLsbD (k % 8) := by
  have hk : k % 8 < 8 := Nat.mod_lt k (by decide)
  unfold maskOf
  generalize k % 8 = i at hk
  revert i b
  decide +kernel

/-- Setting or clearing the bit of a mask changes no other. -/
theorem getLsbD_masked (b : BitVec 8) {j : Nat} (hj : j < 8) (k : Nat) (v : Bool) :
    (if v then b ||| maskOf k else b &&& ~~~maskOf k).getLsbD j =
      if j = k % 8 then v else b.getLsbD j := by
  cases v with
  | false =>
    rw [if_neg Bool.false_ne_true, BitVec.getLsbD_and, BitVec.getLsbD_not, getLsbD_maskOf hj]
    by_cases h : j = k % 8
    · rw [decide_eq_true h, if_pos h]
      simp
    · rw [decide_eq_false h, if_neg h, decide_eq_true hj]
      simp
  | true =>
    rw [if_pos rfl, BitVec.getLsbD_or, getLsbD_maskOf hj]
    by_cases h : j = k % 8
    · rw [decide_eq_true h, if_pos h, Bool.or_true]
    · rw [decide_eq_false h, if_neg h, Bool.or_false]

/-- Nor does setting one that was clear, when it is to be set. -/
theorem getLsbD_set {b : BitVec 8} {j k : Nat} (hj : j < 8) (hk : k < 8)
    (hclear : b.getLsbD k = false) (v : Bool) :
    (if v then b ||| maskOf k else b).getLsbD j = if j = k then v else b.getLsbD j := by
  cases v with
  | false =>
    rw [if_neg Bool.false_ne_true]
    split
    · next h => rw [h, hclear]
    · rfl
  | true =>
    have hmasked := getLsbD_masked b hj k true
    rwa [Nat.mod_eq_of_lt hk] at hmasked

/-- A round writes one bit of `ROM_NO`. -/
theorem bit_update (rom : RomNo) {j k : Nat} (hj : j < 64) (hk : k < 64) (v : Bool) :
    bit (Function.update rom (Fin.ofNat 8 (k / 8))
      (if v then rom (Fin.ofNat 8 (k / 8)) ||| maskOf k
        else rom (Fin.ofNat 8 (k / 8)) &&& ~~~maskOf k)) j = if j = k then v else bit rom j := by
  unfold bit
  by_cases hbyte : j / 8 = k / 8
  · have hjk : j % 8 = k % 8 ↔ j = k := by omega
    rw [hbyte, Function.update_self, getLsbD_masked _ (Nat.mod_lt j (by decide))]
    simp only [hjk]
  · have hne : Fin.ofNat 8 (j / 8) ≠ Fin.ofNat 8 (k / 8) := by
      intro he
      have hval : j / 8 % 8 = k / 8 % 8 := congrArg Fin.val he
      omega
    have hjk : j ≠ k := fun he => hbyte (by rw [he])
    rw [Function.update_of_ne hne, if_neg hjk]

end RomNo

/-! ## The loop ends -/

/-- The counters of the loop after `k` bits. -/
structure Counted (k : Nat) (s : SearchLoop β) : Prop where
  idBitNumber : s.idBitNumber = k + 1
  romByteNumber : s.romByteNumber = k / 8
  romByteMask : s.romByteMask = RomNo.maskOf k

theorem counted_start (rom : RomNo) (lastFamilyDiscrepancy : Nat) (bus : β) :
    Counted 0 ⟨1, 0, 0, 1, rom, lastFamilyDiscrepancy, bus⟩ :=
  ⟨rfl, rfl, rfl⟩

/-- A shift goes on to the next bit, and to 0 behind the last one of a byte. -/
theorem maskOf_shift (k : Nat) :
    (RomNo.maskOf k <<< 1 = 0 ↔ (k + 1) % 8 = 0) ∧
      ((k + 1) % 8 ≠ 0 → RomNo.maskOf k <<< 1 = RomNo.maskOf (k + 1)) := by
  have hk : k % 8 < 8 := Nat.mod_lt k (by decide)
  have hsucc : (k + 1) % 8 = (k % 8 + 1) % 8 := by omega
  unfold RomNo.maskOf
  rw [hsucc]
  generalize k % 8 = i at hk
  revert i
  decide

/-- The counters go on by one bit, and by a byte after eight. -/
theorem Counted.next {k : Nat} {s : SearchLoop β} (h : Counted k s) {idBit cmpIdBit : Bool} :
    Counted (k + 1) (OneWire.searchBit w d idBit cmpIdBit s) := by
  rcases h with ⟨h₁, h₂, h₃⟩
  rcases maskOf_shift k with ⟨hzero, hshift⟩
  refine ⟨by simp [OneWire.searchBit, h₁], ?_, ?_⟩
  · simp only [OneWire.searchBit, h₂, h₃, hzero]
    split <;> omega
  · simp only [OneWire.searchBit, h₃, hzero]
    split
    · next he => simp [RomNo.maskOf, he]
    · next hne => exact hshift hne

theorem Counted.setBus {k : Nat} {s : SearchLoop β} (h : Counted k s) (bus : β) :
    Counted k { s with bus := bus } :=
  ⟨h.idBitNumber, h.romByteNumber, h.romByteMask⟩

/-- A round records the direction as its bit, and changes no other. -/
theorem Counted.bit {j k : Nat} {s : SearchLoop β} (h : Counted k s) (hj : j < 64) (hk : k < 64)
    (idBit cmpIdBit : Bool) :
    (OneWire.searchBit w d idBit cmpIdBit s).romNo.bit j =
      if j = k then OneWire.searchDirection d idBit cmpIdBit s else s.romNo.bit j := by
  simp only [OneWire.searchBit, h.romByteNumber, h.romByteMask]
  exact RomNo.bit_update _ hj hk _

/-- Invariant rule: 64 rounds are enough on any wire, and what each of them keeps, the loop ends
with. -/
theorem searchLoop_invariant {I : Nat → SearchLoop β → Prop}
    (hcounted : ∀ k s, I k s → Counted k s)
    (hread : ∀ k s, I k s → I k { s with bus := (w.readBit (w.readBit s.bus).2).2 })
    (hnext : ∀ k s idBit cmpIdBit, k < 64 → I k s →
      I (k + 1) (OneWire.searchBit w d idBit cmpIdBit s))
    {fuel k : Nat} {s : SearchLoop β} (h : I k s) (hk : k < 64) (hfuel : 64 ≤ fuel + k) :
    ∃ n s', n ≤ 64 ∧ OneWire.searchLoop w d fuel s = some s' ∧ I n s' := by
  induction fuel generalizing k s with
  | zero => omega
  | succ fuel ih =>
    simp only [OneWire.searchLoop]
    split
    · exact ⟨k, _, by omega, rfl, hread k s h⟩
    · have hstep := hnext k _ (w.readBit s.bus).1 (w.readBit (w.readBit s.bus).2).1 hk (hread k s h)
      rw [(hcounted _ _ hstep).romByteNumber]
      split
      · exact ih hstep (by omega) (by omega)
      · exact ⟨k + 1, _, by omega, rfl, hstep⟩

/-- `search` returns, whatever is on the wire. -/
theorem search_isSome (ow : OneWire) (searchMode : Bool) (bus : β) :
    (OneWire.search w searchMode ow bus).isSome = true := by
  unfold OneWire.search
  split
  · rfl
  · simp only
    split
    · obtain ⟨n, s', -, hs, -⟩ := searchLoop_invariant (w := w) (I := Counted) (k := 0)
        (fun _ _ h => h) (fun _ _ h => h.setBus _) (fun _ _ _ _ _ h => h.next)
        (counted_start ow.romNo ow.lastFamilyDiscrepancy _) (by omega) (Nat.le_refl 64)
      rw [Option.isSome_map, hs]
      rfl
    · rfl

/-! ## One walk -/

/-- After `k` bits the walk towards `t`, which started from `r`, has found the first `k` bits of
`t`, and the devices that have them are still selected. -/
structure Walked (bus : WiredAnd w S) (r t : RomNo) (k : Nat) (s : SearchLoop β) : Prop where
  counted : Counted k s
  done : Agree RomNo.bit k s.romNo t
  rest : ∀ j < 64, k ≤ j → s.romNo.bit j = r.bit j
  lastZero : s.lastZero = lastBranch RomNo.bit S t k
  selected : bus.selected (S.filter fun rom => Agree RomNo.bit k rom t) k s.bus

theorem agree_succ {k : Nat} {a b : RomNo} :
    Agree RomNo.bit (k + 1) a b ↔ Agree RomNo.bit k a b ∧ a.bit k = b.bit k :=
  ⟨fun h => ⟨h.mono (Nat.le_succ k), h k (Nat.lt_succ_self k)⟩, fun h => h.1.succ h.2⟩

/-- The two bits read say which ways the selected devices go. -/
theorem Walked.bits {bus : WiredAnd w S} {k : Nat} {s : SearchLoop β} (h : Walked bus r t k s)
    (hk : k < 64) :
    ((w.readBit s.bus).1 = false ↔ ∃ x ∈ S, Agree RomNo.bit k x t ∧ x.bit k = false) ∧
      ((w.readBit (w.readBit s.bus).2).1 = false ↔
        ∃ x ∈ S, Agree RomNo.bit k x t ∧ x.bit k = true) := by
  rw [bus.idBit _ _ k hk h.selected, bus.cmpIdBit _ _ k hk h.selected, andOf_eq_false,
    andOf_eq_false]
  simp [and_assoc]

/-- The direction picked is that of the target. -/
theorem Walked.direction {bus : WiredAnd w S} (hleads : Leads RomNo.bit 64 S d r t) {k : Nat}
    {s : SearchLoop β} (h : Walked bus r t k s) (hk : k < 64) (bus' : β) :
    OneWire.searchDirection d (w.readBit s.bus).1 (w.readBit (w.readBit s.bus).2).1
      { s with bus := bus' } = t.bit k := by
  rcases h.bits hk with ⟨hid, hcmp⟩
  have ht : Agree RomNo.bit k t t := fun _ _ => rfl
  unfold OneWire.searchDirection
  split
  · next hne =>
    cases htk : t.bit k with
    | false => exact hid.mpr ⟨t, hleads.mem, ht, htk⟩
    | true =>
      have hcmpFalse := hcmp.mpr ⟨t, hleads.mem, ht, htk⟩
      simpa [hcmpFalse] using hne
  · next heq =>
    have heq := Classical.not_not.mp heq
    -- both bits are 0: the devices go both ways
    have hidFalse : (w.readBit s.bus).1 = false := by
      cases htk : t.bit k with
      | false => exact hid.mpr ⟨t, hleads.mem, ht, htk⟩
      | true => exact heq.trans (hcmp.mpr ⟨t, hleads.mem, ht, htk⟩)
    have hboth := hleads.direction k hk (hid.mp hidFalse) (hcmp.mp (heq ▸ hidFalse))
    rw [← hboth, ← h.rest k hk (Nat.le_refl k)]
    simp only [h.counted.idBitNumber, h.counted.romByteNumber, h.counted.romByteMask,
      RomNo.and_maskOf_pos, RomNo.bit]

/-- Step lemma: one round of the loop takes the walk one bit further. -/
theorem Walked.next {bus : WiredAnd w S} (hleads : Leads RomNo.bit 64 S d r t) {k : Nat}
    {s : SearchLoop β} (h : Walked bus r t k s) (hk : k < 64) :
    ¬ ((w.readBit s.bus).1 = true ∧ (w.readBit (w.readBit s.bus).2).1 = true) ∧
      Walked bus r t (k + 1) (OneWire.searchBit w d (w.readBit s.bus).1
        (w.readBit (w.readBit s.bus).2).1 { s with bus := (w.readBit (w.readBit s.bus).2).2 }) := by
  rcases h.bits hk with ⟨hid, hcmp⟩
  have hdir := h.direction hleads hk (w.readBit (w.readBit s.bus).2).2
  have ht : Agree RomNo.bit k t t := fun _ _ => rfl
  -- the target itself is selected, so somebody pulls one of the two bits down
  have hone : ¬ ((w.readBit s.bus).1 = true ∧ (w.readBit (w.readBit s.bus).2).1 = true) := by
    rintro ⟨hidTrue, hcmpTrue⟩
    cases htk : t.bit k with
    | false => simp [hid.mpr ⟨t, hleads.mem, ht, htk⟩] at hidTrue
    | true => simp [hcmp.mpr ⟨t, hleads.mem, ht, htk⟩] at hcmpTrue
  -- a 0 is picked at a discrepancy exactly where the target branches
  have hzero : ((w.readBit s.bus).1 = (w.readBit (w.readBit s.bus).2).1 ∧ t.bit k = false) ↔
      Branches RomNo.bit S t k := by
    constructor
    · rintro ⟨heq, htk⟩
      have hidFalse := hid.mpr ⟨t, hleads.mem, ht, htk⟩
      exact ⟨htk, hcmp.mp (heq ▸ hidFalse)⟩
    · rintro ⟨htk, hright⟩
      exact ⟨(hid.mpr ⟨t, hleads.mem, ht, htk⟩).trans (hcmp.mpr hright).symm, htk⟩
  have hcounted := h.counted.setBus (w.readBit (w.readBit s.bus).2).2
  refine ⟨hone, hcounted.next, ?_, ?_, ?_, ?_⟩
  · intro j hj
    rw [hcounted.bit (by omega) hk, hdir]
    split
    · next he => rw [he]
    · exact h.done j (by omega)
  · intro j hj hkj
    rw [hcounted.bit hj hk, if_neg (by omega)]
    exact h.rest j hj (by omega)
  · simp only [OneWire.searchBit, hdir, hzero]
    simp only [h.lastZero, h.counted.idBitNumber, lastBranch]
  · have hnext := bus.dropOut _ _ k hk (t.bit k) h.selected
    rw [Finset.filter_filter] at hnext
    simp only [← agree_succ] at hnext
    simpa only [OneWire.searchBit, hdir] using hnext

/-- Run lemma: the loop goes through to the end and finds the target. -/
theorem searchLoop_walks {bus : WiredAnd w S} (hleads : Leads RomNo.bit 64 S d r t) :
    ∀ {fuel k : Nat} {s : SearchLoop β}, Walked bus r t k s → k < 64 → 64 ≤ fuel + k →
      ∃ s', OneWire.searchLoop w d fuel s = some s' ∧ Walked bus r t 64 s'
  | 0, _, _, _, _, _ => by omega
  | fuel + 1, k, s, h, hk, hfuel => by
    rcases h.next hleads hk with ⟨hone, hnext⟩
    simp only [OneWire.searchLoop, if_neg hone]
    split
    · next hlt =>
      rw [hnext.counted.romByteNumber] at hlt
      exact searchLoop_walks hleads hnext (by omega) (by omega)
    · next hge =>
      rw [hnext.counted.romByteNumber] at hge
      -- the byte counter reaches 8 with the last bit of the last byte
      obtain rfl : k = 63 := by omega
      exact ⟨_, rfl, hnext⟩

/-- One call finds the code that the state left by the last one leads to. -/
theorem search_finds (bus : WiredAnd w S) (hfamily : ∀ rom ∈ S, rom 0 ≠ 0) {ow : OneWire}
    (hleads : Leads RomNo.bit 64 S ow.lastDiscrepancy ow.romNo t)
    (hflag : ow.lastDeviceFlag = false) (b : β) :
    ∃ ow' b', OneWire.search w true ow b = some (some t, ow', b') ∧ ow'.romNo = t ∧
      ow'.lastDiscrepancy = lastBranch RomNo.bit S t 64 ∧
      (ow'.lastDeviceFlag = true ↔ lastBranch RomNo.bit S t 64 = 0) := by
  have hpresence : (w.reset b).1 = true := by
    rw [bus.presence, decide_eq_true_eq]
    exact ⟨t, hleads.mem⟩
  have hstart : Walked bus ow.romNo t 0 ⟨1, 0, 0, 1, ow.romNo, ow.lastFamilyDiscrepancy,
      OneWire.write w 0xF0 (w.reset b).2⟩ := by
    refine ⟨counted_start _ _ _, by simp [Agree], fun _ _ _ => rfl, rfl, ?_⟩
    have hall : (S.filter fun rom => Agree RomNo.bit 0 rom t) = S :=
      Finset.filter_true_of_mem fun _ _ _ hj => absurd hj (Nat.not_lt_zero _)
    rw [hall]
    exact bus.start b
  obtain ⟨s, hloop, hend⟩ : ∃ s', OneWire.searchLoop w ow.lastDiscrepancy 64 _ = some s' ∧
      Walked bus ow.romNo t 64 s' := searchLoop_walks hleads hstart (by omega) (by omega)
  have hrom : s.romNo = t := RomNo.ext_bit hend.done
  have hdone : ¬ s.idBitNumber < 65 := by rw [hend.counted.idBitNumber]; omega
  have hfam : ¬ t 0 = 0 := hfamily t hleads.mem
  refine ⟨⟨t, s.lastZero, s.lastFamilyDiscrepancy, if s.lastZero = 0 then true else false⟩, s.bus,
    ?_, rfl, hend.lastZero, ?_⟩
  · simp only [OneWire.search, hflag, hpresence, if_true, Bool.false_eq_true, if_false, hloop,
      Option.map_some, if_neg hdone, hrom, if_neg hfam]
  · rw [hend.lastZero]
    split <;> simp_all

/-! ## Any number of calls -/

/-- The search state when the next call is to return the `i`th entry of the enumeration `L`, or
false behind its end. -/
inductive Stage (L : List RomNo) : Nat → OneWire → Prop where
  | fresh {ow : OneWire} (hzero : ow.lastDiscrepancy = 0) (hflag : ow.lastDeviceFlag = false) :
      Stage L 0 ow
  | after {i : Nat} {ow : OneWire} (hi : i < L.length) (hrom : ow.romNo = L[i])
      (hlast : ow.lastDiscrepancy = lastBranch RomNo.bit L.toFinset L[i] 64)
      (hflag : ow.lastDeviceFlag = true ↔ i + 1 = L.length) : Stage L (i + 1) ow

/-- The next call of `search` returns the `i`th entry, and the ones behind it go on from there. -/
def Returns (w : Wire β) (L : List RomNo) (i : Nat) (ow : OneWire) : Prop :=
  ∀ b, ∃ ow' b', OneWire.search w true ow b = some (L[i]?, ow', b') ∧
    Stage L (if i = L.length then 0 else i + 1) ow'

/-- A state that leads to an entry has it returned. -/
theorem returns_of_leads {L : List RomNo} (hsorted : L.Pairwise (BitsLt RomNo.bit 64))
    (bus : WiredAnd w L.toFinset) (hfamily : ∀ rom ∈ L, rom 0 ≠ 0) {i : Nat} {ow : OneWire}
    (hi : i < L.length) (hflag : ow.lastDeviceFlag = false)
    (hleads : Leads RomNo.bit 64 L.toFinset ow.lastDiscrepancy ow.romNo L[i]) :
    Returns w L i ow := by
  intro b
  obtain ⟨ow', b', hsearch, hrom, hlast, hflag'⟩ :=
    search_finds bus (by simpa using hfamily) hleads hflag b
  rw [if_neg (by omega), List.getElem?_eq_getElem hi]
  exact ⟨ow', b', hsearch, .after hi hrom hlast (hflag'.trans (sorted_lastBranch hsorted hi))⟩

/-- Step lemma: a call of `search` returns the next code, or false behind the last one. -/
theorem Stage.search {L : List RomNo} (hsorted : L.Pairwise (BitsLt RomNo.bit 64))
    (bus : WiredAnd w L.toFinset) (hfamily : ∀ rom ∈ L, rom 0 ≠ 0) {i : Nat} {ow : OneWire}
    (h : Stage L i ow) : Returns w L i ow := by
  cases h with
  | fresh hzero hflag =>
    by_cases hL : 0 < L.length
    · refine returns_of_leads hsorted bus hfamily hL hflag ?_
      rw [hzero]
      exact (sorted_target_first hsorted hL).leads
    · obtain rfl : L = [] := List.eq_nil_of_length_eq_zero (by omega)
      intro b
      have hpresence : (w.reset b).1 = false := by
        rw [bus.presence]
        simp
      refine ⟨ow.resetCounters, (w.reset b).2, ?_, .fresh rfl rfl⟩
      simp [OneWire.search, hflag, hpresence]
  | @after j ow hj hrom hlast hflag =>
    by_cases hend : j + 1 = L.length
    · have hset : ow.lastDeviceFlag = true := hflag.mpr hend
      intro b
      rw [if_pos hend, hend, List.getElem?_eq_none (Nat.le_refl _)]
      exact ⟨ow.resetCounters, b, by simp [OneWire.search, hset], .fresh rfl rfl⟩
    · have hclear : ow.lastDeviceFlag = false := by
        rw [Bool.eq_false_iff]
        exact fun he => hend (hflag.mp he)
      refine returns_of_leads hsorted bus hfamily (by omega) hclear ?_
      rw [hrom, hlast]
      exact (sorted_target_next hsorted (by omega)).leads

/-- What the first `n` calls of `search` return: the codes in order, then false, and so on. -/
def enumeration (L : List RomNo) (n : Nat) : List (Option RomNo) :=
  (List.range n).map fun i => L[i % (L.length + 1)]?

/-- Behind the last entry comes false, and behind that the first one. -/
theorem stage_succ (L : List RomNo) (n : Nat) :
    (if n % (L.length + 1) = L.length then 0 else n % (L.length + 1) + 1) =
      (n + 1) % (L.length + 1) := by
  have hlt : n % (L.length + 1) < L.length + 1 := Nat.mod_lt _ (Nat.succ_pos _)
  rw [← Nat.mod_add_mod n (L.length + 1) 1]
  split
  · next h => rw [h, Nat.mod_self]
  · exact (Nat.mod_eq_of_lt (by omega)).symm

/-- Run lemma: whatever is called in between, the searches go through the enumeration. -/
theorem Session.run_enumerates {L : List RomNo} (hsorted : L.Pairwise (BitsLt RomNo.bit 64))
    (bus : WiredAnd w L.toFinset) (hfamily : ∀ rom ∈ L, rom 0 ≠ 0) : ∀ (calls : List Call)
    {s : Session β} {n : Nat}, Returns w L (n % (L.length + 1)) s.ow →
    ∃ s', Session.run w s calls = some s' ∧ s'.found = s.found ++
      (List.range' n (calls.count .search)).map fun i => L[i % (L.length + 1)]?
  | [], s, n, _ => ⟨s, rfl, by simp⟩
  | call :: calls, s, n, hreturns => by
    -- every other call leaves the search state alone
    have hother : ∀ b, call ≠ .search → Session.call w s call = some { s with bus := b } →
        ∃ s', Session.run w s (call :: calls) = some s' ∧ s'.found = s.found ++
          (List.range' n ((call :: calls).count .search)).map fun i =>
            L[i % (L.length + 1)]? := by
      intro b hne hcall
      obtain ⟨s', hrun, hs'⟩ := run_enumerates hsorted bus hfamily calls
        (s := { s with bus := b }) hreturns
      refine ⟨s', ?_, by rw [hs', List.count_cons_of_ne hne]⟩
      simpa [Session.run, hcall] using hrun
    cases call with
    | search =>
      rcases hreturns s.bus with ⟨ow', b', hsearch, hstage'⟩
      rw [stage_succ] at hstage'
      obtain ⟨s', hrun, hs'⟩ := run_enumerates hsorted bus hfamily calls
        (s := ⟨ow', b', s.found ++ [L[n % (L.length + 1)]?]⟩) (n := n + 1)
        (hstage'.search hsorted bus hfamily)
      refine ⟨s', ?_, ?_⟩
      · simpa [Session.run, Session.call, hsearch] using hrun
      · rw [hs', List.count_cons_self, List.range'_succ, List.map_cons, List.append_assoc]
        rfl
    | reset => exact hother _ (by simp) rfl
    | select rom => exact hother _ (by simp) rfl
    | skip => exact hother _ (by simp) rfl
    | write v => exact hother _ (by simp) rfl
    | read => exact hother _ (by simp) rfl
    | depower => exact hother s.bus (by simp) rfl

/-- From the state left by `reset_search`, on a bus on which no family code is 0 and with any other
calls in between, the calls of `search` return every code on the bus once, in increasing order of
its bits, then false, then the same again. -/
theorem search_enumerates (bus : WiredAnd w S) (hfamily : ∀ rom ∈ S, rom 0 ≠ 0) :
    ∃ L : List RomNo, L.toFinset = S ∧ L.length = S.card ∧ L.Pairwise (BitsLt RomNo.bit 64) ∧
      ∀ (ow : OneWire) (b : β) (calls : List Call),
        ∃ s, Session.run w { ow := ow.resetSearch, bus := b } calls = some s ∧
          s.found = enumeration L (calls.count .search) := by
  rcases exists_sorted (fun _ _ => RomNo.ext_bit) S with ⟨L, rfl, hsorted⟩
  have hnodup : L.Nodup := hsorted.imp fun h he => by
    subst he
    exact h.asymm h
  refine ⟨L, rfl, (List.toFinset_card_of_nodup hnodup).symm, hsorted, ?_⟩
  intro ow b calls
  have hfamily' : ∀ rom ∈ L, rom 0 ≠ 0 := by simpa using hfamily
  have hstart : Stage L 0 ow.resetSearch := .fresh rfl rfl
  obtain ⟨s, hrun, hfound⟩ := Session.run_enumerates hsorted bus hfamily' calls
    (s := { ow := ow.resetSearch, bus := b }) (n := 0) (by
      rw [Nat.zero_mod]
      exact hstart.search hsorted bus hfamily')
  refine ⟨s, hrun, ?_⟩
  rw [hfound, List.nil_append, enumeration, List.range_eq_range']

/-- Two thermometers. -/
def thermometers : Finset RomNo :=
  {fun i => if i.val = 0 then 0x28 else 0, fun i => if i.val = 0 then 0x10 else 0}

/-- Two thermometers, with any calls in between. -/
theorem search_enumerates_thermometers :
    ∃ L : List RomNo, L.toFinset = thermometers ∧ L.length = 2 ∧
      L.Pairwise (BitsLt RomNo.bit 64) ∧ ∀ (ow : OneWire) (b : NetState) (calls : List Call),
        ∃ s, Session.run (netWire thermometers) { ow := ow.resetSearch, bus := b } calls = some s ∧
          s.found = enumeration L (calls.count .search) := by
  have hcard : thermometers.card = 2 := by decide +kernel
  have hfamily : ∀ rom ∈ thermometers, rom 0 ≠ 0 := by simp [thermometers]
  rw [← hcard]
  exact search_enumerates (netWire_wiredAnd thermometers) hfamily

end EspAcDimmer
