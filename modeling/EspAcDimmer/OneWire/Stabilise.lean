import EspAcDimmer.OneWire.Family

/-! # A search from any state

A search state need not come from this bus: devices come and go, and noise leaves anything in
`ROM_NO`. One call of `search` puts an end to that. It returns some device of the bus or false, and
from there the calls go through the rest of the enumeration, and then through all of it. As always,
no device has the family code 0.
-/

namespace EspAcDimmer

open BitTrie

variable {β : Type} {w : Wire β} {S : Finset RomNo}

/-- Every search state is at some place of the enumeration. -/
theorem exists_returns {L : List RomNo} (hsorted : L.Pairwise (BitsLt RomNo.bit 64))
    (bus : WiredAnd w L.toFinset) (hfamily : ∀ rom ∈ L, rom 0 ≠ 0) (ow : OneWire) :
    ∃ i ≤ L.length, Returns w L i ow := by
  by_cases hflag : ow.lastDeviceFlag = true
  · -- the call does not look at the bus
    refine ⟨L.length, Nat.le_refl _, ?_⟩
    intro b
    rw [if_pos rfl, List.getElem?_eq_none (Nat.le_refl _)]
    exact ⟨ow.resetCounters, b, by simp [OneWire.search, hflag], .fresh rfl rfl⟩
  have hclear : ow.lastDeviceFlag = false := by simpa using hflag
  by_cases hL : L = []
  · subst hL
    refine ⟨0, Nat.le_refl _, ?_⟩
    intro b
    have hpresence : (w.reset b).1 = false := by
      rw [bus.presence]
      simp
    refine ⟨ow.resetCounters, (w.reset b).2, ?_, .fresh rfl rfl⟩
    simp [OneWire.search, hclear, hpresence]
  · have hS : L.toFinset.Nonempty := (List.toFinset_nonempty_iff L).mpr hL
    obtain ⟨t, hleads⟩ : ∃ t, Leads RomNo.bit 64 L.toFinset ow.lastDiscrepancy ow.romNo t :=
      exists_leads hS ow.lastDiscrepancy ow.romNo
    rcases List.mem_iff_getElem.mp (List.mem_toFinset.mp hleads.mem) with ⟨i, hi, rfl⟩
    exact ⟨i, hi.le, returns_of_leads hsorted bus hfamily hi hclear hleads⟩

/-- On a bus on which no family code is 0, from any search state, reachable or not, and with any
other calls in between: the calls of `search` return an end of the enumeration of the devices that
are on the bus now, then false, and then the whole of it, again and again. `search` takes the family
code 0 for the end of the bus, so it would never come to the devices behind such a one. -/
theorem search_stabilises (bus : WiredAnd w S) (hfamily : ∀ rom ∈ S, rom 0 ≠ 0) :
    ∃ L : List RomNo, L.toFinset = S ∧ L.Pairwise (BitsLt RomNo.bit 64) ∧
      ∀ s : Session β, ∃ seen rest : List RomNo, L = seen ++ rest ∧ ∀ calls : List Call,
        ∃ s', Session.run w s calls = some s' ∧
          s'.found = s.found ++ (rest.map some ++ none ::
            enumeration L (calls.count .search)).take (calls.count .search) := by
  rcases exists_sorted (fun _ _ => RomNo.ext_bit) S with ⟨L, rfl, hsorted⟩
  have hfamily' : ∀ rom ∈ L, rom 0 ≠ 0 := by simpa using hfamily
  refine ⟨L, rfl, hsorted, ?_⟩
  intro s
  obtain ⟨i, hi, hreturns⟩ := exists_returns hsorted bus hfamily' s.ow
  refine ⟨L.take i, L.drop i, (List.take_append_drop i L).symm, ?_⟩
  intro calls
  have hlen : (L.take i).length = i := List.length_take_of_le hi
  obtain ⟨s', hrun, hfound⟩ := Session.run_enumerates hsorted bus hfamily' calls
    (s := s) (n := (L.take i).length) (by
      rw [hlen, Nat.mod_eq_of_lt (Nat.lt_succ_of_le hi)]
      exact hreturns)
  exact ⟨s', hrun, by rw [hfound, enumeration_from (List.take_append_drop i L).symm]⟩

/-- A state that no search leaves, on the bus of two thermometers. -/
theorem search_stabilises_thermometers :
    ∃ L : List RomNo, L.toFinset = thermometers ∧ L.Pairwise (BitsLt RomNo.bit 64) ∧
      ∀ s : Session NetState, ∃ seen rest : List RomNo, L = seen ++ rest ∧ ∀ calls : List Call,
        ∃ s', Session.run (netWire thermometers) s calls = some s' ∧
          s'.found = s.found ++ (rest.map some ++ none ::
            enumeration L (calls.count .search)).take (calls.count .search) :=
  search_stabilises (netWire_wiredAnd thermometers) (by simp [thermometers])

end EspAcDimmer
