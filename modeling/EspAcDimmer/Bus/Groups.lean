import Mathlib.Data.List.Nodup
import EspAcDimmer.Bus.Basic

/-! # The group table

How the critical sections of `join` and `leave` change the groups, seen through the two questions a
caller can ask: `resolveName`, the address of a name, and `destination`, the members at an address.
Names and addresses are settled when a group is made; the sections only change its members.
-/

namespace EspAcDimmer

open StdList

/-- The member list after `join(BusAddr)`. -/
def insertMember (addr : BusAddr) (destination : List BusAddr) : List BusAddr :=
  if addr ∈ destination then destination else addr :: destination

/-- The members after a join are the old ones and the new one. -/
theorem mem_insertMember {a addr : BusAddr} {destination : List BusAddr} :
    a ∈ insertMember addr destination ↔ a = addr ∨ a ∈ destination := by
  unfold insertMember
  split
  · next h =>
    refine ⟨Or.inr, fun ha => ha.elim (fun he => he ▸ h) id⟩
  · simp

/-- Nobody is a member twice by joining. -/
theorem nodup_insertMember {addr : BusAddr} {destination : List BusAddr} (h : destination.Nodup) :
    (insertMember addr destination).Nodup := by
  unfold insertMember
  split
  · exact h
  · next hno => exact List.nodup_cons.mpr ⟨hno, h⟩

/-- Members join in front, so the old list is what a new one ends with. -/
theorem suffix_insertMember (addr : BusAddr) (destination : List BusAddr) :
    destination <:+ insertMember addr destination := by
  unfold insertMember
  split
  · exact List.suffix_refl _
  · exact List.suffix_cons _ _

@[simp] theorem Group.addMember_addr (group : Group) (client : IBusClient) :
    (group.addMember client).addr = group.addr := by
  unfold Group.addMember; split <;> rfl

@[simp] theorem Group.addMember_addrName (group : Group) (client : IBusClient) :
    (group.addMember client).addrName = group.addrName := by
  unfold Group.addMember; split <;> rfl

@[simp] theorem Group.addMember_destination (group : Group) (client : IBusClient) :
    (group.addMember client).destination = insertMember client.addr group.destination := by
  unfold Group.addMember insertMember; split <;> rfl

namespace Bus

variable {bus : Bus} {a addr : BusAddr} {addrName addrName' : String} {client : IBusClient}

/-- The entries of the table without their members. -/
def keys (bus : Bus) : List (BusAddr × Option String) :=
  bus.groups.map fun group => (group.addr, group.addrName)

/-- Names and addresses are in one-to-one correspondence, every group has a name. -/
structure GroupsSound (bus : Bus) : Prop where
  named : ∀ group ∈ bus.groups, ∃ name, group.addrName = some name
  names : (bus.groups.map Group.addrName).Nodup
  addrs : (bus.groups.map Group.addr).Nodup
  range : ∀ group ∈ bus.groups, 1 ≤ group.addr ∧ group.addr ≤ bus.groupLast
  last_nonneg : 0 ≤ bus.groupLast

theorem GroupsSound.init : GroupsSound {} := by
  constructor <;> simp

/-- Whether the groups are sound depends on their names and addresses alone. -/
theorem GroupsSound.of_keys {bus' : Bus} (h : bus.GroupsSound) (hkeys : bus'.keys = bus.keys)
    (hlast : bus'.groupLast = bus.groupLast) : bus'.GroupsSound := by
  have hnames : bus'.groups.map Group.addrName = bus.groups.map Group.addrName := by
    simpa [keys, Function.comp_def] using congrArg (List.map Prod.snd) hkeys
  have haddrs : bus'.groups.map Group.addr = bus.groups.map Group.addr := by
    simpa [keys, Function.comp_def] using congrArg (List.map Prod.fst) hkeys
  -- every group has a namesake at the same address in the other table
  have hmem : ∀ group ∈ bus'.groups, ∃ group' ∈ bus.groups,
      group'.addr = group.addr ∧ group'.addrName = group.addrName := by
    intro group hg
    have hk : (group.addr, group.addrName) ∈ bus.keys :=
      hkeys ▸ List.mem_map.mpr ⟨group, hg, rfl⟩
    rcases List.mem_map.mp hk with ⟨group', hg', he⟩
    exact ⟨group', hg', Prod.mk.inj he⟩
  constructor
  · intro group hg
    rcases hmem group hg with ⟨group', hg', -, hn⟩
    exact hn ▸ h.named group' hg'
  · rw [hnames]
    exact h.names
  · rw [haddrs]
    exact h.addrs
  · intro group hg
    rcases hmem group hg with ⟨group', hg', ha, -⟩
    rw [← ha, hlast]
    exact h.range group' hg'
  · rw [hlast]
    exact h.last_nonneg

/-! ## Finding a group -/

/-- A group is found by its address. -/
theorem GroupsSound.find_addr (h : bus.GroupsSound) {group : Group} (hg : group ∈ bus.groups) :
    bus.groups.find? (fun g => group.addr = g.addr) = some group := by
  cases hf : bus.groups.find? fun g => group.addr = g.addr with
  | none =>
    have := List.find?_eq_none.mp hf group hg
    simp at this
  | some g =>
    have ha : group.addr = g.addr := by simpa using List.find?_some hf
    rw [List.inj_on_of_nodup_map h.addrs hg (List.mem_of_find?_eq_some hf) ha]

/-- A group is found by its name. -/
theorem GroupsSound.find_name (h : bus.GroupsSound) {group : Group} (hg : group ∈ bus.groups)
    (hn : group.addrName = some addrName) :
    bus.groups.find? (fun g => g.addrName = some addrName) = some group := by
  cases hf : bus.groups.find? fun g => g.addrName = some addrName with
  | none =>
    have := List.find?_eq_none.mp hf group hg
    simp [hn] at this
  | some g =>
    have hn' : g.addrName = some addrName := by simpa using List.find?_some hf
    rw [List.inj_on_of_nodup_map h.names hg (List.mem_of_find?_eq_some hf) (hn.trans hn'.symm)]

/-- `resolveName` finds the group of that name and nothing else. -/
theorem GroupsSound.resolveName_eq (h : bus.GroupsSound) {group : Group} (hg : group ∈ bus.groups)
    (hn : group.addrName = some addrName) : bus.resolveName addrName = group.addr := by
  simp [resolveName, h.find_name hg hn]

/-- The destinations of a group's address are its members. -/
theorem GroupsSound.destination_eq (h : bus.GroupsSound) {group : Group} (hg : group ∈ bus.groups) :
    bus.destination group.addr = group.destination := by
  have hrange := h.range group hg
  simp only [destination]
  rw [if_neg (by lia), if_pos (by lia), h.find_addr hg]

/-- A name that resolves is that of a group. -/
theorem resolveName_ne_zero (ha : bus.resolveName addrName ≠ 0) :
    ∃ group ∈ bus.groups,
      group.addrName = some addrName ∧ group.addr = bus.resolveName addrName := by
  unfold resolveName at ha ⊢
  cases hf : bus.groups.find? fun g => g.addrName = some addrName with
  | none => simp [hf] at ha
  | some group =>
    exact ⟨group, List.mem_of_find?_eq_some hf, by simpa using List.find?_some hf, rfl⟩

/-- `resolveName` looks at the keys alone. -/
theorem resolveName_of_keys {bus' : Bus} (hkeys : bus'.keys = bus.keys) :
    bus'.resolveName addrName = bus.resolveName addrName := by
  have hfind : ∀ b : Bus, b.resolveName addrName =
      ((b.keys.find? fun k => k.2 = some addrName).map Prod.fst).getD 0 := by
    intro b
    simp only [resolveName, keys, List.find?_map, Function.comp_def]
    cases b.groups.find? fun g => g.addrName = some addrName <;> rfl
  rw [hfind, hfind, hkeys]

/-! ## The sections -/

/-- The first section of `join` finds the group or makes one without members. -/
theorem joinLookup_cases (bus : Bus) (addrName : String) :
    (∃ group ∈ bus.groups, group.addrName = some addrName ∧
      bus.joinLookup addrName = (group.addr, bus)) ∨
    ((∀ group ∈ bus.groups, group.addrName ≠ some addrName) ∧
      bus.joinLookup addrName = (bus.groupLast + 1,
        { bus with
          groupLast := bus.groupLast + 1
          groups := ⟨bus.groupLast + 1, some addrName, []⟩ :: bus.groups })) := by
  cases hf : bus.groups.find? fun g => g.addrName = some addrName with
  | some group =>
    refine Or.inl ⟨group, List.mem_of_find?_eq_some hf, by simpa using List.find?_some hf, ?_⟩
    simp [joinLookup, hf]
  | none =>
    refine Or.inr ⟨?_, by simp [joinLookup, hf]⟩
    intro group hg
    simpa using List.find?_eq_none.mp hf group hg

/-- A name that is new gets an address that is new. -/
theorem GroupsSound.joinLookup (h : bus.GroupsSound) (addrName : String) :
    (bus.joinLookup addrName).2.GroupsSound := by
  have hlast := h.last_nonneg
  rcases bus.joinLookup_cases addrName with ⟨group, -, -, he⟩ | ⟨hnew, he⟩
  · rw [he]
    exact h
  · rw [he]
    constructor
    · intro group hg
      rcases List.mem_cons.mp hg with rfl | hg
      · exact ⟨addrName, rfl⟩
      · exact h.named group hg
    · -- the name was not found, so it is new
      refine List.nodup_cons.mpr ⟨?_, h.names⟩
      intro hmem
      rcases List.mem_map.mp hmem with ⟨group, hg, hn⟩
      exact hnew group hg hn
    · -- and so is the address, which is above all others
      refine List.nodup_cons.mpr ⟨?_, h.addrs⟩
      intro hmem
      rcases List.mem_map.mp hmem with ⟨group, hg, ha⟩
      have := h.range group hg
      simp only at ha
      lia
    · intro group hg
      simp only
      rcases List.mem_cons.mp hg with rfl | hg
      · simp only
        lia
      · have := h.range group hg
        lia
    · simp only
      lia

/-- The group that the first section returns bears the name, and no other name moved. -/
theorem joinLookup_group (bus : Bus) (addrName : String) :
    ∃ group ∈ (bus.joinLookup addrName).2.groups,
      group.addr = (bus.joinLookup addrName).1 ∧ group.addrName = some addrName := by
  rcases bus.joinLookup_cases addrName with ⟨group, hg, hn, he⟩ | ⟨-, he⟩
  · rw [he]
    exact ⟨group, hg, rfl, hn⟩
  · rw [he]
    exact ⟨_, List.mem_cons_self, rfl, rfl⟩

/-- The look-up removes no group. -/
theorem mem_joinLookup {group : Group} (hg : group ∈ bus.groups) :
    group ∈ (bus.joinLookup addrName).2.groups := by
  rcases bus.joinLookup_cases addrName with ⟨_, -, -, he⟩ | ⟨-, he⟩
  · rwa [he]
  · rw [he]
    exact List.mem_cons_of_mem _ hg

/-- The look-up changes what its own name resolves to, and no other. -/
theorem resolveName_joinLookup :
    (bus.joinLookup addrName).2.resolveName addrName' =
      if addrName' = addrName then (bus.joinLookup addrName).1 else bus.resolveName addrName' := by
  have hfound := bus.joinLookup_cases addrName
  cases hf : bus.groups.find? fun g => g.addrName = some addrName with
  | some group =>
    have he : bus.joinLookup addrName = (group.addr, bus) := by simp [joinLookup, hf]
    rw [he]
    by_cases hn : addrName' = addrName
    · simp [hn, resolveName, hf]
    · simp [hn]
  | none =>
    by_cases hn : addrName' = addrName
    · simp [hn, joinLookup, hf, resolveName]
    · simp [hn, Ne.symm hn, joinLookup, hf, resolveName]

/-- A group without members changes no destination. -/
theorem GroupsSound.destination_joinLookup (h : bus.GroupsSound) (addrName : String)
    (a : BusAddr) :
    (bus.joinLookup addrName).2.destination a = bus.destination a := by
  rcases bus.joinLookup_cases addrName with ⟨_, -, -, he⟩ | ⟨-, he⟩
  · rw [he]
  · rw [he]
    by_cases ha : a = bus.groupLast + 1
    · -- nobody was at the new address before
      have hnone : bus.groups.find? (fun g => a = g.addr) = none := by
        refine List.find?_eq_none.mpr fun group hg => ?_
        have := h.range group hg
        simp only [decide_eq_true_eq]
        lia
      subst ha
      simp [destination, hnone]
    · simp [destination, ha]

/-- A section that changes the members of one group, and no key. -/
theorem keys_updateFirst {f : Group → Group}
    (hf : ∀ g, (f g).addr = g.addr ∧ (f g).addrName = g.addrName) :
    ({ bus with groups := updateFirst (fun g => addr = g.addr) f bus.groups } : Bus).keys =
      bus.keys :=
  map_updateFirst fun g => by rw [(hf g).1, (hf g).2]

/-- An update of one group changes the destinations of its address alone. -/
theorem GroupsSound.destination_updateFirst (h : bus.GroupsSound) {f : Group → Group}
    (hf : ∀ g, (f g).addr = g.addr) {group : Group} (hg : group ∈ bus.groups) :
    ({ bus with
      groups := updateFirst (fun g => group.addr = g.addr) f bus.groups } : Bus).destination a =
      if a = group.addr then (f group).destination else bus.destination a := by
  by_cases ha : a = group.addr
  · subst ha
    have hrange := h.range group hg
    have hfind := find?_updateFirst (p := fun g : Group => group.addr = g.addr) (l := bus.groups)
      (f := f) (by simp [hf])
    rw [h.find_addr hg] at hfind
    simp only [destination]
    rw [if_neg (by lia), if_pos (by lia), hfind]
    simp
  · have hfind : (updateFirst (fun g : Group => group.addr = g.addr) f bus.groups).find?
        (fun g => a = g.addr) = bus.groups.find? fun g => a = g.addr :=
      find?_updateFirst_of_ne fun g hg => by
        have hga : group.addr = g.addr := by simpa using hg
        simp [hf, ← hga, ha]
    simp [destination, ha, hfind]

/-- The second section of a join updates the group with the address. -/
theorem joinSection_eq {group : Group} (h : bus.GroupsSound) (hg : group ∈ bus.groups) :
    bus.joinSection group.addr client = { bus with
      groups := updateFirst (fun g => group.addr = g.addr) (fun g => g.addMember client)
        bus.groups } := by
  simp [joinSection, h.find_addr hg]

/-- It changes no name and no address. -/
theorem keys_joinSection {group : Group} (client : IBusClient) (h : bus.GroupsSound)
    (hg : group ∈ bus.groups) :
    (bus.joinSection group.addr client).keys = bus.keys := by
  rw [joinSection_eq h hg]
  exact keys_updateFirst fun g => ⟨g.addMember_addr client, g.addMember_addrName client⟩

theorem keys_leaveSection : (bus.leaveSection addr client).keys = bus.keys :=
  keys_updateFirst fun _ => ⟨rfl, rfl⟩

/-- A join adds its client to the destinations of the group, and to no others. -/
theorem GroupsSound.destination_joinSection {group : Group} (h : bus.GroupsSound)
    (hg : group ∈ bus.groups) :
    (bus.joinSection group.addr client).destination a =
      if a = group.addr then insertMember client.addr (bus.destination a)
      else bus.destination a := by
  rw [joinSection_eq h hg, h.destination_updateFirst (fun g => g.addMember_addr client) hg]
  by_cases ha : a = group.addr
  · simp [ha, h.destination_eq hg]
  · simp [ha]

/-- A leave changes the destinations of the group by `remove_if`, and no others. -/
theorem GroupsSound.destination_leaveSection {group : Group} (h : bus.GroupsSound)
    (hg : group ∈ bus.groups) :
    (bus.leaveSection group.addr client).destination a =
      if a = group.addr then removeIf (fun b => client.addr = b) (bus.destination a)
      else bus.destination a := by
  rw [leaveSection, h.destination_updateFirst (f := fun g => g.removeMember client)
    (fun _ => rfl) hg]
  by_cases ha : a = group.addr
  · simp [ha, h.destination_eq hg, Group.removeMember]
  · simp [ha]

end Bus

end EspAcDimmer
