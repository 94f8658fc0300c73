import EspAcDimmer.Bus.Groups
import EspAcDimmer.Lib.Run

/-! # When group membership is exact

Whole calls of `join` and `leave` by name, one after the other. The members of a group are meant to
be the clients whose latest call for its name was a join. They are as long as no member leaves:
`Bus::leave` drops the iterator of `std::remove_if`, so the list never gets shorter.
-/

namespace EspAcDimmer

open StdList Lts

inductive CallKind where
  | join
  | leave
deriving DecidableEq, Repr

structure GroupCall (ι : Type) where
  kind : CallKind
  addrName : String
  client : ι
deriving DecidableEq, Repr

/-- The bus, and the calls made so far, the latest first. -/
structure CallHistory (ι : Type) where
  bus : Bus
  calls : List (GroupCall ι)
deriving DecidableEq, Repr

section Calls

variable {ι : Type} [DecidableEq ι]

/-- The latest call of client `c` for the name was a join. -/
def isMember (calls : List (GroupCall ι)) (addrName : String) (c : ι) : Prop :=
  (calls.find? fun call => call.addrName = addrName ∧ call.client = c).map GroupCall.kind =
    some .join

instance (calls : List (GroupCall ι)) (addrName : String) (c : ι) :
    Decidable (isMember calls addrName c) :=
  inferInstanceAs (Decidable (_ = _))

/-- The latest call of a client for a name decides, and the others do not matter. -/
theorem isMember_cons {call : GroupCall ι} {calls : List (GroupCall ι)} {addrName : String}
    {c : ι} : isMember (call :: calls) addrName c ↔
      if call.addrName = addrName ∧ call.client = c then call.kind = .join
      else isMember calls addrName c := by
  by_cases h : call.addrName = addrName ∧ call.client = c
  · simp [isMember, h]
  · simp [isMember, h]

/-- A call runs to its end before the next one. -/
def callStep (client : ι → IBusClient) (s : CallHistory ι) (call : GroupCall ι) :
    Option (CallHistory ι) :=
  let bus :=
    match call.kind with
    | .join => (s.bus.join (some call.addrName) (client call.client)).2
    | .leave => s.bus.leave (some call.addrName) (client call.client)
  some ⟨bus, call :: s.calls⟩

/-- What the groups are for. -/
def MembershipExact (client : ι → IBusClient) (s : CallHistory ι) : Prop :=
  ∀ addrName,
    (s.bus.destination (s.bus.resolveName addrName)).Nodup ∧
    ∀ a, a ∈ s.bus.destination (s.bus.resolveName addrName) ↔
      ∃ c, isMember s.calls addrName c ∧ a = (client c).addr

/-- A leave for an unknown name, or by somebody who is not in the group, changes no group. -/
def LeaveLocal (client : ι → IBusClient) (s : CallHistory ι) (call : GroupCall ι) : Prop :=
  call.kind = .leave →
    s.bus.resolveName call.addrName = 0 ∨
      (client call.client).addr ∉ s.bus.destination (s.bus.resolveName call.addrName) →
    (s.bus.leave (some call.addrName) (client call.client)).groups = s.bus.groups

/-- A leave is only called by a client whose latest call for the name was not a join. -/
def LeavesNonMember (s : CallHistory ι) (call : GroupCall ι) : Prop :=
  call.kind = .leave → ¬ isMember s.calls call.addrName call.client

instance (s : CallHistory ι) (call : GroupCall ι) : Decidable (LeavesNonMember s call) :=
  inferInstanceAs (Decidable (_ → _))

end Calls

namespace Bus

variable {bus : Bus} {addrName : String} {client : IBusClient}

/-- The guards of `join(BusAddr)` and `leave(BusAddr)` let connected clients pass. -/
theorem addrGuard_of_connected {addr : BusAddr} (ha : 1 ≤ addr) (hc : client.addr < 0) :
    addrGuard addr client = true := by
  have h₁ : ¬ addr ≤ BusAddrInvalid := by lia
  have h₂ : ¬ client.addr ≥ BusAddrInvalid := by lia
  simp [addrGuard, h₁, h₂]

/-- Different names have different addresses. -/
theorem GroupsSound.resolveName_inj (h : bus.GroupsSound) {addrName' : String}
    (hne : bus.resolveName addrName ≠ 0)
    (heq : bus.resolveName addrName = bus.resolveName addrName') : addrName = addrName' := by
  rcases resolveName_ne_zero hne with ⟨group, hg, hn, ha⟩
  rcases resolveName_ne_zero (heq ▸ hne) with ⟨group', hg', hn', ha'⟩
  obtain rfl := List.inj_on_of_nodup_map h.addrs hg hg' (by rw [ha, ha', heq])
  exact Option.some.inj (hn.symm.trans hn')

/-- The whole call of `join`: the caller is put in the group of that name, nobody else moves. -/
theorem GroupsSound.join (h : bus.GroupsSound) (addrName : String) (hc : client.addr < 0) :
    (bus.join (some addrName) client).2.GroupsSound ∧
    ∀ addrName', (bus.join (some addrName) client).2.destination
        ((bus.join (some addrName) client).2.resolveName addrName') =
      if addrName' = addrName then
        insertMember client.addr (bus.destination (bus.resolveName addrName))
      else bus.destination (bus.resolveName addrName') := by
  have h₁ := h.joinLookup addrName
  rcases joinLookup_group bus addrName with ⟨group, hg, ha, hn⟩
  have hguard : addrGuard (bus.joinLookup addrName).1 client = true := by
    rw [← ha]
    exact addrGuard_of_connected (h₁.range group hg).1 hc
  have hjoin : (bus.join (some addrName) client).2 =
      (bus.joinLookup addrName).2.joinSection group.addr client := by
    simp [Bus.join, joinAddr, hguard, ha]
  have hkeys := keys_joinSection client h₁ hg
  rw [hjoin]
  refine ⟨h₁.of_keys hkeys ?_, ?_⟩
  · rw [joinSection_eq h₁ hg]
  · intro addrName'
    rw [resolveName_of_keys hkeys, h₁.destination_joinSection hg, h.destination_joinLookup,
      resolveName_joinLookup]
    by_cases hname : addrName' = addrName
    · subst hname
      rw [if_pos rfl, if_pos ha.symm, if_pos rfl]
      -- a group that was just made has no members, and neither had the unknown name
      rcases bus.joinLookup_cases addrName' with ⟨g, hg', hn', he⟩ | ⟨hnew, he⟩
      · rw [he, h.resolveName_eq hg' hn']
      · have hzero : bus.resolveName addrName' = 0 := by
          by_contra hne
          rcases resolveName_ne_zero hne with ⟨g, hg', hn', -⟩
          exact hnew g hg' hn'
        have hnone := h.destination_joinLookup addrName' (bus.joinLookup addrName').1
        rw [← hnone, ← ha, h₁.destination_eq hg, hzero]
        have hempty : group.destination = [] := by
          rw [he] at hg
          rcases List.mem_cons.mp hg with rfl | hg
          · rfl
          · exact absurd hn (hnew group hg)
        simp [hempty, destination]
    · rw [if_neg hname, if_neg hname]
      have hne : bus.resolveName addrName' ≠ group.addr := by
        intro heq
        have hr : (bus.joinLookup addrName).2.resolveName addrName' = group.addr := by
          rw [resolveName_joinLookup, if_neg hname, heq]
        have hr' : (bus.joinLookup addrName).2.resolveName addrName = group.addr :=
          h₁.resolveName_eq hg hn
        have hpos := (h₁.range group hg).1
        exact hname (h₁.resolveName_inj (by lia) (hr.trans hr'.symm))
      rw [if_neg hne]

/-- The whole call of `leave`, in the group it finds. -/
theorem GroupsSound.leave_eq (h : bus.GroupsSound) (hc : client.addr < 0) {group : Group}
    (hg : group ∈ bus.groups) (hn : group.addrName = some addrName) :
    bus.leave (some addrName) client = bus.leaveSection group.addr client := by
  have hguard := addrGuard_of_connected (h.range group hg).1 hc
  simp [leave, leaveLookup, h.find_name hg hn, leaveAddr, hguard]

/-- A leave by somebody who is not in the group does nothing. -/
theorem GroupsSound.leave_other (h : bus.GroupsSound) (hc : client.addr < 0)
    (hno : bus.resolveName addrName = 0 ∨
      client.addr ∉ bus.destination (bus.resolveName addrName)) :
    bus.leave (some addrName) client = bus := by
  by_cases hzero : bus.resolveName addrName = 0
  · have hnone : bus.groups.find? (fun g => g.addrName = some addrName) = none := by
      refine List.find?_eq_none.mpr fun g hg hn => ?_
      have hr := h.resolveName_eq hg (by simpa using hn)
      have := h.range g hg
      lia
    simp [leave, leaveLookup, hnone]
  · rcases resolveName_ne_zero hzero with ⟨group, hg, hn, ha⟩
    have hno' : client.addr ∉ group.destination := by
      rw [← h.destination_eq hg, ha]
      exact hno.resolve_left hzero
    rw [h.leave_eq hc hg hn, leaveSection, updateFirst_eq_self]
    intro g hg' hga
    obtain rfl := List.inj_on_of_nodup_map h.addrs hg hg' (by simpa using hga)
    have hclean : ∀ b ∈ group.destination, decide (client.addr = b) = false := fun b hb => by
      have : client.addr ≠ b := fun he => hno' (he ▸ hb)
      simpa using this
    simp [Group.removeMember, removeIf_eq_self hclean]

end Bus

section Exact

variable {ι : Type} [DecidableEq ι] {client : ι → IBusClient} {s s' : CallHistory ι}
  {call : GroupCall ι}

/-- What the calls keep: sound groups, with exact members. -/
def CallsInv (client : ι → IBusClient) (s : CallHistory ι) : Prop :=
  s.bus.GroupsSound ∧ MembershipExact client s

/-- Without calls nobody is a member and there are no groups. -/
theorem CallsInv.init (addrLast : BusAddr) (clients : List Client) :
    CallsInv client ⟨{ addrLast := addrLast, clients := clients }, []⟩ := by
  constructor
  · constructor <;> simp
  · simp [MembershipExact, Bus.resolveName, Bus.destination, isMember]

variable (hconn : ∀ c, (client c).addr < 0)
include hconn

omit [DecidableEq ι] in
/-- In sound groups a leave by a non-member changes no group. -/
theorem leaveLocal (h : s.bus.GroupsSound) : LeaveLocal client s call := by
  intro _ hno
  rw [h.leave_other (hconn _) hno]

/-- Step lemma: joins and leaves of non-members keep membership exact. -/
theorem CallsInv.preserved (h : CallsInv client s) (hl : LeavesNonMember s call)
    (hinj : ∀ c c', (client c).addr = (client c').addr → c = c')
    (hstep : callStep client s call = some s') : CallsInv client s' := by
  rcases h with ⟨hs, hexact⟩
  rcases call with ⟨kind, addrName, c⟩
  cases kind with
  | join =>
    simp only [callStep, Option.some.injEq] at hstep
    obtain rfl := hstep
    rcases hs.join addrName (hconn c) with ⟨hs', hdest⟩
    refine ⟨hs', ?_⟩
    intro addrName'
    rw [hdest addrName']
    by_cases hname : addrName' = addrName
    · subst hname
      rw [if_pos rfl]
      refine ⟨nodup_insertMember (hexact addrName').1, ?_⟩
      intro a
      rw [mem_insertMember, (hexact addrName').2 a]
      constructor
      · rintro (rfl | ⟨c', hc', rfl⟩)
        · exact ⟨c, by simp [isMember_cons], rfl⟩
        · by_cases hcc : c = c'
          · exact ⟨c', by simp [isMember_cons, hcc], rfl⟩
          · exact ⟨c', by simp [isMember_cons, hcc, hc'], rfl⟩
      · rintro ⟨c', hc', rfl⟩
        by_cases hcc : c = c'
        · exact Or.inl (by rw [hcc])
        · exact Or.inr ⟨c', by simpa [isMember_cons, hcc] using hc', rfl⟩
    · -- a call for another name is not the latest for this one
      rw [if_neg hname]
      refine ⟨(hexact addrName').1, ?_⟩
      intro a
      simp only [(hexact addrName').2 a, isMember_cons, Ne.symm hname, false_and, if_false]
  | leave =>
    simp only [callStep, Option.some.injEq] at hstep
    have hmember := hl rfl
    -- addresses tell clients apart, so the caller's is not in the list
    have hno : (client c).addr ∉ s.bus.destination (s.bus.resolveName addrName) := by
      intro hmem
      rcases ((hexact addrName).2 _).mp hmem with ⟨c', hc', ha⟩
      exact hmember (hinj c c' ha ▸ hc')
    rw [hs.leave_other (hconn c) (Or.inr hno)] at hstep
    obtain rfl := hstep
    refine ⟨hs, fun addrName' => ⟨(hexact addrName').1, ?_⟩⟩
    intro a
    rw [(hexact addrName').2 a]
    refine exists_congr fun c' => and_congr_left fun _ => ?_
    rw [isMember_cons]
    by_cases hc : addrName = addrName' ∧ c = c'
    · rcases hc with ⟨rfl, rfl⟩
      simpa using hmember
    · simp [hc]

/-- A member that leaves is still in the list, or somebody else is in it twice. -/
theorem CallsInv.broken (h : CallsInv client s) (hl : ¬ LeavesNonMember s call)
    (hinj : ∀ c c', (client c).addr = (client c').addr → c = c')
    (hstep : callStep client s call = some s') : ¬ MembershipExact client s' := by
  rcases h with ⟨hs, hexact⟩
  rcases call with ⟨kind, addrName, c⟩
  simp only [LeavesNonMember, Classical.not_imp, not_not] at hl
  rcases hl with ⟨rfl, hmember⟩
  simp only [callStep, Option.some.injEq] at hstep
  have hmem := ((hexact addrName).2 (client c).addr).mpr ⟨c, hmember, rfl⟩
  have hne : s.bus.resolveName addrName ≠ 0 := fun hzero => by
    simp [hzero, Bus.destination] at hmem
  rcases Bus.resolveName_ne_zero hne with ⟨group, hg, hn, ha⟩
  rw [hs.leave_eq (hconn c) hg hn] at hstep
  obtain rfl := hstep
  intro hexact'
  rcases hexact' addrName with ⟨hnodup, hmembers⟩
  simp only [Bus.resolveName_of_keys Bus.keys_leaveSection, hs.destination_leaveSection hg, ← ha,
    if_true] at hnodup hmembers hmem
  -- exact members would be distinct, and the caller none of them
  refine removeIf_not_clean (p := fun b => (client c).addr = b) hmem (by simp)
    ⟨hnodup, fun b hb => ?_⟩
  rcases (hmembers b).mp hb with ⟨c', hc', rfl⟩
  by_contra hno
  obtain rfl : c = c' := hinj c c' (by simpa using hno)
  simp [isMember_cons] at hc'

/-- Membership is exact after every call of a sequence, and a leave by somebody else changes no
group, iff every leave of the sequence is called by a non-member. -/
theorem membership_exact_iff (hinj : ∀ c c', (client c).addr = (client c').addr → c = c')
    {addrLast : BusAddr} {clients : List Client} {tr : List (CallHistory ι × GroupCall ι)}
    (hrun : Run (callStep client) ⟨{ addrLast := addrLast, clients := clients }, []⟩ tr s) :
    (Always (MembershipExact client) tr s ∧ EveryStep (LeaveLocal client) tr) ↔
      EveryStep LeavesNonMember tr := by
  have hinit : CallsInv client ⟨{ addrLast := addrLast, clients := clients }, []⟩ :=
    CallsInv.init addrLast clients
  have hiff : Always (MembershipExact client) tr s ↔ EveryStep LeavesNonMember tr :=
    hrun.always_iff_everyStep everyStep_true hinit (fun _ h => h.2)
      (fun _ _ _ h _ hl hstep => h.preserved hconn hl hinj hstep)
      fun _ _ _ h _ hl hstep => h.broken hconn hl hinj hstep
  refine ⟨fun h => hiff.mp h.1, fun h => ⟨hiff.mpr h, ?_⟩⟩
  intro p hp
  rcases hrun.split hp with ⟨tr₁, tr₂, t, rfl, h₁, -, -⟩
  refine leaveLocal hconn (h₁.invariant (I := CallsInv client) hinit
    (fun _ _ _ h hl hstep => h.preserved hconn hl hinj hstep) fun q hq => h q (by simp [hq])).1

end Exact

/-- Two connected clients. -/
def twoClients : Bool → IBusClient
  | true => ⟨-1, some 7⟩
  | false => ⟨-2, some 8⟩

/-- Both join, one of them twice, and somebody leaves a group that does not exist. -/
theorem membership_exact_iff_joins :
    ∃ tr s, Run (callStep twoClients) ⟨{}, []⟩ tr s ∧
      tr.map Prod.snd = [⟨.join, "fan", true⟩, ⟨.join, "fan", false⟩, ⟨.join, "fan", true⟩,
        ⟨.leave, "lamp", true⟩] ∧
      Always (MembershipExact twoClients) tr s ∧ EveryStep (LeaveLocal twoClients) tr := by
  have hrun := run_get (callStep twoClients) ⟨{}, []⟩
    [⟨.join, "fan", true⟩, ⟨.join, "fan", false⟩, ⟨.join, "fan", true⟩,
      ⟨.leave, "lamp", true⟩] (by decide)
  exact ⟨_, _, hrun, rfl, (membership_exact_iff (by decide) (by decide) hrun).mpr (by decide)⟩

/-- The only member is still in the list after it left. -/
theorem membership_not_exact_after_leave :
    ∃ tr s, Run (callStep twoClients) ⟨{}, []⟩ tr s ∧
      tr.map Prod.snd = [⟨.join, "fan", true⟩, ⟨.leave, "fan", true⟩] ∧
      s.bus.destination (s.bus.resolveName "fan") = [-1] ∧ ¬ MembershipExact twoClients s := by
  refine ⟨_, _, run_get (callStep twoClients) ⟨{}, []⟩
    [⟨.join, "fan", true⟩, ⟨.leave, "fan", true⟩] (by decide), rfl, rfl, fun h => ?_⟩
  rcases ((h "fan").2 (-1)).mp (by decide) with ⟨c, hc, -⟩
  revert c
  decide

end EspAcDimmer
