import EspAcDimmer.Bus.GroupNames

/-! # Calls that return false

`connect` and `join(BusAddr)` check their client before they touch a table. `join(const char*)`
finds or makes its group first and leaves the client to `join(BusAddr)`, so a client that is not
connected can make a group it is then not let into.
-/

namespace EspAcDimmer

open Lts

namespace Bus

variable {bus : Bus} {client : IBusClient} {addr : BusAddr}

/-- A call of `connect` or `join` on this client that returns false leaves the bus, and the client,
as they were. The client is not an output of `join`, which takes it by reference and only reads
its address. -/
structure RefusedUnchanged (bus : Bus) (client : IBusClient) (addrName : Option String) : Prop where
  connect : (bus.connect client).1 = false → (bus.connect client).2 = (bus, client)
  joinAddr : ∀ addr, (bus.joinAddr addr client).1 = false → (bus.joinAddr addr client).2 = bus
  join : (bus.join addrName client).1 = false → (bus.join addrName client).2 = bus

/-- The name is null, or `resolve` knows it, or the client has the address of a connected one. -/
def NameOrClientKnown (bus : Bus) (client : IBusClient) (addrName : Option String) : Prop :=
  (∀ name ∈ addrName, bus.resolveName name ≠ BusAddrInvalid) ∨ client.addr < BusAddrInvalid

/-- `connect` refuses a client without a queue, before anything else. -/
theorem connect_refused (h : (bus.connect client).1 = false) :
    (bus.connect client).2 = (bus, client) := by
  unfold connect at h ⊢
  cases hq : client.queue with
  | none => rfl
  | some queue =>
    simp only [hq] at h
    cases hf : bus.clients.find? fun other => queue = other.queue with
    | none => simp [hf] at h
    | some i => simp [hf] at h

/-- `join(BusAddr)` refuses in its guard, or not at all. -/
theorem joinAddr_refused (h : (bus.joinAddr addr client).1 = false) :
    addrGuard addr client = false ∧ (bus.joinAddr addr client).2 = bus := by
  unfold joinAddr at h ⊢
  cases hguard : addrGuard addr client with
  | true => simp [hguard] at h
  | false => exact ⟨rfl, rfl⟩

theorem addrGuard_eq_true (haddr : 0 < addr) : addrGuard addr client = true ↔ client.addr < 0 := by
  simp only [addrGuard, BusAddrInvalid, Bool.not_eq_true', Bool.or_eq_false_iff,
    decide_eq_false_iff_not]
  lia

/-- A join by a known name refuses without a trace. -/
theorem join_refused_known {name : String} (hname : bus.resolveName name ≠ BusAddrInvalid)
    (h : (bus.join (some name) client).1 = false) : (bus.join (some name) client).2 = bus := by
  rcases bus.joinLookup_cases name with ⟨group, -, -, he⟩ | ⟨hnew, -⟩
  · simp only [join, he] at h ⊢
    exact (joinAddr_refused h).2
  · rcases resolveName_ne_zero hname with ⟨group, hg, hn, -⟩
    exact absurd hn (hnew group hg)

/-- A connected client is never refused: its group has a positive address by then. -/
theorem GroupsSound.join_connected {name : String} (hs : bus.GroupsSound)
    (hclient : client.addr < BusAddrInvalid) : (bus.join (some name) client).1 = true := by
  rcases bus.joinLookup_group name with ⟨group, hg, ha, -⟩
  have hpos : 0 < (bus.joinLookup name).1 := by
    have := ((hs.joinLookup name).range group hg).1
    lia
  simp [Bus.join, Bus.joinAddr, (addrGuard_eq_true hpos).mpr hclient]

/-- A client that is not connected is refused, after a group of the unknown name was made. -/
theorem join_unknown {name : String} (hname : bus.resolveName name = BusAddrInvalid)
    (hs : bus.GroupsSound) (hclient : ¬ client.addr < BusAddrInvalid) :
    (bus.join (some name) client).1 = false ∧
      (bus.join (some name) client).2.groupLast = bus.groupLast + 1 := by
  have hlast := hs.last_nonneg
  rcases bus.joinLookup_cases name with ⟨group, hg, hn, -⟩ | ⟨-, he⟩
  · -- no group has the name, since none has the address 0
    have hrange := hs.range group hg
    rw [hs.resolveName_eq hg hn] at hname
    lia
  · have hguard : addrGuard (bus.groupLast + 1) client = false := by
      rw [← Bool.not_eq_true, addrGuard_eq_true (by lia)]
      exact hclient
    simp [join, joinAddr, he, hguard]

/-- Only an unknown name of a client that is not connected leaves a trace. -/
theorem GroupsSound.refusedUnchanged_iff (hs : bus.GroupsSound) (addrName : Option String) :
    bus.RefusedUnchanged client addrName ↔ bus.NameOrClientKnown client addrName := by
  constructor
  · intro h
    by_contra hno
    simp only [NameOrClientKnown, not_or, not_forall, not_not] at hno
    rcases hno with ⟨⟨name, hmem, hname⟩, hclient⟩
    obtain rfl : addrName = some name := hmem
    rcases join_unknown hname hs hclient with ⟨hrefused, hlast⟩
    rw [h.join hrefused] at hlast
    lia
  · intro h
    refine ⟨connect_refused, fun addr hrefused => (joinAddr_refused hrefused).2, ?_⟩
    intro hrefused
    cases addrName with
    | none => rfl
    | some name =>
      rcases h with hname | hclient
      · exact join_refused_known (hname name rfl) hrefused
      · rw [hs.join_connected hclient] at hrefused
        exact absurd hrefused (by decide)

end Bus

/-- In every state of every run, on every client and every name: a refused call changes nothing iff
the name is null or known, or the client is connected. -/
theorem refused_unchanged_iff {Cmd : Type} {tr : List (St Cmd × Lbl Cmd)} {s : St Cmd}
    (hrun : Run step (St.init Cmd) tr s) (client : IBusClient) (addrName : Option String) :
    s.bus.RefusedUnchanged client addrName ↔ s.bus.NameOrClientKnown client addrName := by
  have hnames : NamesSound s :=
    hrun.invariant NamesSound.init (fun _ _ _ hs _ hstep => hs.preserved hstep) everyStep_true
  exact hnames.groups.refusedUnchanged_iff addrName

/-- A client joins by a name that its own refused call had brought in before. -/
theorem refused_unchanged_iff_known :
    ∃ tr s, Run step (St.init Unit) tr s ∧
      tr.map Prod.snd = [.joinLookup 0 "fan" 0, .joinCheck 0] ∧
      (s.bus.join (some "fan") (s.client 0)).1 = false ∧
      s.bus.RefusedUnchanged (s.client 0) (some "fan") := by
  have hrun := run_get step (St.init Unit) [.joinLookup 0 "fan" 0, .joinCheck 0] (by decide)
  refine ⟨_, _, hrun, rfl, rfl, (refused_unchanged_iff hrun _ _).mpr (Or.inl ?_)⟩
  intro name hname
  obtain rfl : "fan" = name := Option.some.inj hname
  decide

/-- The first join ever, by a client without a queue: refused, and the group stays. -/
theorem refused_join_leaves_group :
    ∃ tr s, Run step (St.init Unit) tr s ∧
      (s.bus.join (some "fan") (s.client 0)).1 = false ∧
      (s.bus.join (some "fan") (s.client 0)).2.groups = [⟨1, some "fan", []⟩] ∧
      ¬ s.bus.RefusedUnchanged (s.client 0) (some "fan") := by
  refine ⟨[], _, .nil, rfl, rfl, ?_⟩
  intro h
  exact absurd (h.join rfl) (by decide)

end EspAcDimmer
