import EspAcDimmer.OneWire.Crc
import EspAcDimmer.OneWire.Search

/-! # The search for a family

`target_search` makes up a search state that no search leaves: a last discrepancy behind the last
bit, and a code of nothing but the family. It leads to the first device of the family all the same,
and from there the search goes on as ever.
-/

namespace EspAcDimmer

open BitTrie

variable {β : Type} {w : Wire β} {S : Finset RomNo} {L : List RomNo} {f : BitVec 8} {t : RomNo}

/-! ## Codes that begin alike -/

theorem RomNo.bit_familyCode (a : RomNo) {k : Nat} (hk : k < 8) :
    a.bit k = a.familyCode.getLsbD k := by
  have hdiv : k / 8 = 0 := by omega
  simp [bit, hdiv, Nat.mod_eq_of_lt hk]

/-- The codes of a family are those with its eight bits. -/
theorem RomNo.agree_iff_familyCode {a b : RomNo} :
    Agree bit 8 a b ↔ a.familyCode = b.familyCode := by
  constructor
  · intro h
    exact byte_eq h 0 (by decide)
  · intro h k hk
    rw [bit_familyCode a hk, bit_familyCode b hk, h]

/-- The checksum leaves the last bit no choice. -/
theorem RegisterNumber.eq_of_agree {a b : RomNo} (ha : (RegisterNumber.mk a).isCrcValid = true)
    (hb : (RegisterNumber.mk b).isCrcValid = true) (h : Agree RomNo.bit 63 a b) : a = b := by
  have hbytes : ∀ i : Fin 8, (i : Nat) < 7 → a i = b i := fun i hi => RomNo.byte_eq h i (by omega)
  have htake : (List.ofFn a).take 7 = (List.ofFn b).take 7 := by
    refine List.ext_getElem (by simp) ?_
    intro i h₁ h₂
    have hi : i < 7 := by simpa using h₁
    rw [List.getElem_take, List.getElem_take, List.getElem_ofFn, List.getElem_ofFn]
    exact hbytes _ hi
  have hcrc : a.crc = b.crc := by
    have ha' : a.crc = crc8 ((List.ofFn a).take 7) := of_decide_eq_true ha
    have hb' : b.crc = crc8 ((List.ofFn b).take 7) := of_decide_eq_true hb
    rw [ha', hb', htake]
  funext i
  by_cases hi : (i : Nat) < 7
  · exact hbytes i hi
  · obtain rfl : i = 7 := by omega
    exact hcrc

/-! ## The state made up -/

/-- Behind the family there are zeros. -/
theorem bit_targetSearch {k : Nat} (hk : k < 64) :
    (OneWire.targetSearch f).romNo.bit k = if k < 8 then f.getLsbD k else false := by
  unfold RomNo.bit OneWire.targetSearch
  by_cases hlow : k < 8
  · have hdiv : k / 8 = 0 := by omega
    simp [hlow, hdiv, Nat.mod_eq_of_lt hlow]
  · have hne : Fin.ofNat 8 (k / 8) ≠ 0 := by
      intro he
      have hval : k / 8 % 8 = 0 := congrArg Fin.val he
      omega
    simp only [if_neg hne, if_neg hlow]
    exact BitVec.getLsbD_zero

/-- It leads to the first device of the family: through the bits of the family, and then to the
left. No devices of a family go both ways at the last bit, where the way would be to the right. -/
theorem targetSearch_leads (hcrc : ∀ rom ∈ S, (RegisterNumber.mk rom).isCrcValid = true)
    (ht : t ∈ S) (hf : t.familyCode = f)
    (hfirst : ∀ x ∈ S, x.familyCode = f → ¬ BitsLt RomNo.bit 64 x t) :
    Leads RomNo.bit 64 S (OneWire.targetSearch f).lastDiscrepancy (OneWire.targetSearch f).romNo
      t := by
  have hlast : (OneWire.targetSearch f).lastDiscrepancy = 64 := rfl
  refine ⟨ht, ?_⟩
  intro k hk hleft hright
  rcases hleft with ⟨x, hx, hxt, hxk⟩
  rw [hlast, bit_targetSearch hk]
  split
  · split
    · next hlow => rw [t.bit_familyCode hlow, hf]
    · next hhigh =>
      -- a device that goes left here would be the first of the family
      symm
      by_contra htk
      have hfamily : x.familyCode = t.familyCode :=
        RomNo.agree_iff_familyCode.mp (hxt.mono (by omega))
      exact hfirst x hx (hfamily.trans hf) ⟨k, hk, hxt, hxk, by simpa using htk⟩
  · next hend =>
    obtain rfl : k = 63 := by omega
    rcases hright with ⟨y, hy, hyt, hyk⟩
    obtain rfl := RegisterNumber.eq_of_agree (hcrc x hx) (hcrc y hy) (hxt.trans hyt.symm)
    rw [hxk] at hyk
    exact Bool.noConfusion hyk

/-! ## The searches that follow -/

/-- The enumeration from some entry on. -/
theorem enumeration_from {L before rest : List RomNo} (hL : L = before ++ rest) (n : Nat) :
    (List.range' before.length n).map (fun i => L[i % (L.length + 1)]?) =
      (rest.map some ++ none :: enumeration L n).take n := by
  have hlen : L.length = before.length + rest.length := by rw [hL, List.length_append]
  refine List.ext_getElem ?_ ?_
  · rw [List.length_map, List.length_range', List.length_take, List.length_append,
      List.length_map, List.length_cons, enumeration, List.length_map, List.length_range]
    omega
  · intro i h₁ h₂
    have hi : i < n := by simpa using h₁
    rw [List.getElem_map, List.getElem_range', Nat.one_mul, List.getElem_take]
    rcases Nat.lt_trichotomy i rest.length with hlt | rfl | hgt
    · -- within the rest
      rw [List.getElem_append_left (by simpa using hlt), List.getElem_map,
        Nat.mod_eq_of_lt (by omega), hL, List.getElem?_append_right (by omega),
        Nat.add_sub_cancel_left, List.getElem?_eq_getElem hlt]
    · -- behind its end
      rw [List.getElem_append_right (by simp), ← hlen, Nat.mod_eq_of_lt (by omega),
        List.getElem?_eq_none (Nat.le_refl _)]
      simp
    · -- from the start again
      have hwrap : (before.length + i) % (L.length + 1) =
          (i - rest.length - 1) % (L.length + 1) := by
        rw [show before.length + i = i - rest.length - 1 + (L.length + 1) by omega,
          Nat.add_mod_right]
      rw [List.getElem_append_right (by simpa using hgt.le), hwrap]
      simp only [List.length_map, List.getElem_cons, enumeration, List.getElem_map,
        List.getElem_range]
      rw [dif_neg (by omega)]

/-- From any search state: after `target_search`, with any other calls in between, the calls of
`search` return the devices of the family, those that come after them, and false, and then go
through all devices as ever. -/
theorem targetSearch_enumerates (bus : WiredAnd w S)
    (hcrc : ∀ rom ∈ S, (RegisterNumber.mk rom).isCrcValid = true)
    (hnonzero : ∀ rom ∈ S, rom.familyCode ≠ 0) (hf : ∃ rom ∈ S, rom.familyCode = f) :
    ∃ before family after L : List RomNo, L = before ++ (family ++ after) ∧ L.toFinset = S ∧
      L.Pairwise (BitsLt RomNo.bit 64) ∧ (∀ rom, rom ∈ family ↔ rom ∈ S ∧ rom.familyCode = f) ∧
      ∀ (s : Session β) (calls : List Call),
        ∃ s', Session.run w { s with ow := .targetSearch f } calls = some s' ∧
          s'.found = s.found ++ ((family ++ after).map some ++ none ::
            enumeration L (calls.count .search)).take (calls.count .search) := by
  rcases exists_sorted (fun _ _ => RomNo.ext_bit) S with ⟨L, rfl, hsorted⟩
  rcases hf with ⟨rom, hrom, rfl⟩
  rcases sorted_split 8 rom hsorted with ⟨before, family, after, hL, hsame⟩
  rw [List.append_assoc] at hL
  have hfamily : ∀ x, x ∈ family ↔ x ∈ L.toFinset ∧ x.familyCode = rom.familyCode := by
    intro x
    rw [List.mem_toFinset, ← RomNo.agree_iff_familyCode]
    constructor
    · intro hx
      have hxL : x ∈ L := by simp [hL, hx]
      exact ⟨hxL, (hsame x hxL).mp hx⟩
    · rintro ⟨hxL, hagree⟩
      exact (hsame x hxL).mpr hagree
  refine ⟨before, family, after, L, hL, rfl, hsorted, hfamily, ?_⟩
  intro s calls
  -- the first device of the family
  have hpos : 0 < family.length := List.length_pos_of_mem ((hfamily rom).mpr ⟨hrom, rfl⟩)
  have hlt : before.length < L.length := by
    rw [hL, List.length_append, List.length_append]
    omega
  have hfirst : L[before.length] = family[0] := by simp [hL, hpos]
  rcases (hfamily _).mp (List.getElem_mem hpos) with ⟨hmem, hcode⟩
  have hsorted' : family.Pairwise (BitsLt RomNo.bit 64) :=
    (List.pairwise_append.mp (List.pairwise_append.mp (hL ▸ hsorted)).2.1).1
  have hleads := targetSearch_leads hcrc hmem hcode fun x hx hxcode =>
    sorted_first hsorted' hpos ((hfamily x).mpr ⟨hx, hxcode⟩)
  rw [← hfirst] at hleads
  have hreturns : Returns w L before.length (.targetSearch rom.familyCode) :=
    returns_of_leads hsorted bus (by simpa using hnonzero) hlt rfl hleads
  obtain ⟨s', hrun, hfound⟩ := Session.run_enumerates hsorted bus (by simpa using hnonzero) calls
    (s := { s with ow := .targetSearch rom.familyCode }) (n := before.length) (by
      rw [Nat.mod_eq_of_lt (by omega)]
      exact hreturns)
  exact ⟨s', hrun, by rw [hfound, enumeration_from hL]⟩

/-- Two thermometers of a family and one of another, with their checksums. -/
def families : Finset RomNo := {
  fun i => [0x28, 0x01, 0, 0, 0, 0, 0, 0x29].getD i.val 0,
  fun i => [0x28, 0x02, 0, 0, 0, 0, 0, 0x70].getD i.val 0,
  fun i => [0x10, 0x01, 0, 0, 0, 0, 0, 0xCC].getD i.val 0}

/-- They satisfy what the search for a family asks for. -/
theorem families_valid :
    ∀ rom ∈ families, (RegisterNumber.mk rom).isCrcValid = true ∧ rom.familyCode ≠ 0 := by
  simp only [families, Finset.forall_mem_insert, Finset.mem_singleton, forall_eq]
  decide +kernel

/-- The search for one of their families. -/
theorem targetSearch_enumerates_families :
    ∃ before family after L : List RomNo, L = before ++ (family ++ after) ∧ L.toFinset = families ∧
      L.Pairwise (BitsLt RomNo.bit 64) ∧
      (∀ rom, rom ∈ family ↔ rom ∈ families ∧ rom.familyCode = 0x28) ∧
      ∀ (s : Session NetState) (calls : List Call),
        ∃ s', Session.run (netWire families) { s with ow := .targetSearch 0x28 } calls = some s' ∧
          s'.found = s.found ++ ((family ++ after).map some ++ none ::
            enumeration L (calls.count .search)).take (calls.count .search) :=
  targetSearch_enumerates (netWire_wiredAnd families) (fun rom hrom => (families_valid rom hrom).1)
    (fun rom hrom => (families_valid rom hrom).2)
    ⟨fun i => [0x28, 0x01, 0, 0, 0, 0, 0, 0x29].getD i.val 0, by simp [families], rfl⟩

end EspAcDimmer
