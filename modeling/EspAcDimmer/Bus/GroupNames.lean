import EspAcDimmer.Bus.Clients
import EspAcDimmer.Bus.Groups

/-! # Group names and addresses under concurrency

`join(const char*)` gives the lock back between finding its group and entering it. Names and
addresses survive that in every run: the group is still there, and `resolve` keeps its answers.
The member does not. `join(BusAddr)` looks at `m_addr` before it takes the lock, and a disconnect
that runs in between makes the section enter the address 0.
-/

namespace EspAcDimmer

open Function StdList Lts

variable {Cmd : Type} {s s' : St Cmd} {l : Lbl Cmd}

/-- The name and the address a task carries from one section of `join` to the next. -/
def Task.pending : Task Cmd → Option (String × BusAddr)
  | .joining addrName addr _ => some (addrName, addr)
  | .joinChecked addrName addr _ => some (addrName, addr)
  | _ => none

/-! ## Steps as the group table sees them -/

structure SameGroups (s s' : St Cmd) : Prop where
  groups : s'.bus.groups = s.bus.groups
  groupLast : s'.bus.groupLast = s.bus.groupLast
  handed : s.handed ⊆ s'.handed
  pending : ∀ t x, (s'.task t).pending = some x → ∃ t', (s.task t').pending = some x

inductive GroupMove (s : St Cmd) : Lbl Cmd → St Cmd → Prop where
  | same {l : Lbl Cmd} {s' : St Cmd} (h : SameGroups s s') : GroupMove s l s'
  | lookup {t : TaskId} {addrName : String} {c : ClientId} :
      GroupMove s (.joinLookup t addrName c)
        { s.setTask t (.joining addrName (s.bus.joinLookup addrName).1 c) with
          bus := (s.bus.joinLookup addrName).2 }
  | join {t : TaskId} {addrName : String} {addr : BusAddr} {c : ClientId}
      (htask : s.task t = .joinChecked addrName addr c) :
      GroupMove s (.joinSection t)
        { s.setTask t .idle with bus := s.bus.joinSection addr (s.client c) }
  | leave {t : TaskId} {addr : BusAddr} {c : ClientId} (htask : s.task t = .leaveChecked addr c) :
      GroupMove s (.leaveSection t)
        { s.setTask t .idle with bus := s.bus.leaveSection addr (s.client c) }

/-- If the task has no other join pending than before, no other join is pending anywhere. -/
theorem pending_update {t : TaskId} {v : Task Cmd}
    (hv : ∀ x, v.pending = some x → (s.task t).pending = some x) :
    ∀ t' x, (update s.task t v t').pending = some x → ∃ t'', (s.task t'').pending = some x := by
  intro t' x h
  by_cases ht : t' = t
  · subst ht
    rw [update_self] at h
    exact ⟨t', hv x h⟩
  · rw [update_of_ne ht] at h
    exact ⟨t', h⟩

/-- `connect` leaves the groups alone. -/
theorem connect_sameGroups (s : St Cmd) (c : ClientId) : SameGroups s (s.connect c) := by
  rcases s.connect_cases c with ⟨-, he⟩ | ⟨h, e, -, -, -, he⟩ | ⟨h, -, -, he⟩
  · rw [he]
    exact ⟨rfl, rfl, fun _ h => h, fun t x h => ⟨t, h⟩⟩
  · rw [he]
    exact ⟨rfl, rfl, List.subset_append_left _ _, fun t x h => ⟨t, h⟩⟩
  · rw [he]
    exact ⟨rfl, rfl, List.subset_append_left _ _, fun t x h => ⟨t, h⟩⟩

theorem disconnect_groups (s : St Cmd) (c : ClientId) :
    (s.disconnect c).bus.groups = s.bus.groups ∧
      (s.disconnect c).bus.groupLast = s.bus.groupLast := by
  rcases s.disconnect_cases c with ⟨-, he⟩ | ⟨h, -, he⟩ <;> rw [he] <;> exact ⟨rfl, rfl⟩

/-- So does handing a message on. -/
theorem sendToNextClient_sameGroups {t : TaskId} {m : BusMsg Cmd} :
    SameGroups s (s.sendToNextClient t m) := by
  have htask := pending_update (s := s) (t := t) (v := (s.task t).afterSend) fun x h => by
    cases hv : s.task t <;> simp [hv, Task.afterSend, Task.pending] at h
  rcases s.sendToNextClient_cases t m with ⟨-, he⟩ | ⟨a, q, rest, -, -, he⟩ |
    ⟨a, q, rest, slots, -, -, -, he⟩ | ⟨a, q, rest, slots, -, -, -, he⟩ <;>
  · rw [he]
    exact ⟨rfl, rfl, fun _ h => h, htask⟩

/-- Every step is one of the moves that the groups see. -/
theorem groupMove_of_fires (hf : Fires s l s') : GroupMove s l s' := by
  have hmove : ∀ {t : TaskId} {v : Task Cmd}, v.pending = none → ∀ t' x,
      (update s.task t v t').pending = some x → ∃ t'', (s.task t'').pending = some x :=
    fun hv => pending_update (by simp [hv])
  cases hf with
  | quiet => exact .same ⟨rfl, rfl, fun _ h => h, fun t x h => ⟨t, h⟩⟩
  | @created c h _ _ _ =>
    rcases connect_sameGroups (s.createQueue c h) c with ⟨h₁, h₂, h₃, h₄⟩
    exact .same ⟨h₁, h₂, h₃, h₄⟩
  | connect => exact .same (connect_sameGroups s _)
  | disconnect =>
    rcases disconnect_groups s _ with ⟨h₁, h₂⟩
    exact .same ⟨h₁, h₂, fun _ h => h, fun t x h => ⟨t, h⟩⟩
  | joinLookup => exact .lookup
  | joinPassed htask =>
    refine .same ⟨rfl, rfl, fun _ h => h, pending_update fun x hx => ?_⟩
    rw [htask]
    exact hx
  | joinRefused => exact .same ⟨rfl, rfl, fun _ h => h, hmove rfl⟩
  | joinSection htask => exact .join htask
  | leaveLookup => exact .same ⟨rfl, rfl, fun _ h => h, hmove rfl⟩
  | leavePassed => exact .same ⟨rfl, rfl, fun _ h => h, hmove rfl⟩
  | leaveRefused => exact .same ⟨rfl, rfl, fun _ h => h, hmove rfl⟩
  | leaveSection htask => exact .leave htask
  | send => exact .same ⟨rfl, rfl, fun _ h => h, hmove rfl⟩
  | sendNext => exact .same sendToNextClient_sameGroups
  | received => exact .same ⟨rfl, rfl, fun _ h => h, hmove rfl⟩
  | @destroy t c _ _ =>
    rcases disconnect_groups s c with ⟨h₁, h₂⟩
    refine .same ⟨by rw [St.destroy_bus, h₁], by rw [St.destroy_bus, h₂], fun _ h => ?_, ?_⟩
    · rwa [St.destroy_handed]
    · rw [St.destroy_task]
      split
      · exact hmove rfl
      · exact fun t x h => ⟨t, h⟩
  | popped => exact .same ⟨rfl, rfl, fun _ h => h, hmove rfl⟩
  | drained => exact .same ⟨rfl, rfl, fun _ h => h, hmove rfl⟩
  | deleteQueue => exact .same ⟨rfl, rfl, fun _ h => h, hmove rfl⟩

/-! ## What every run keeps -/

/-- The groups are sound, and every group that a join in progress has found is there. -/
structure NamesSound (s : St Cmd) : Prop where
  groups : s.bus.GroupsSound
  pending : ∀ {t addrName addr}, (s.task t).pending = some (addrName, addr) →
    ∃ group ∈ s.bus.groups, group.addr = addr ∧ group.addrName = some addrName

theorem NamesSound.init : NamesSound (St.init Cmd) :=
  ⟨Bus.GroupsSound.init, by simp [St.init, Task.pending]⟩

/-- No section takes a group away or renames it. -/
theorem mem_groups_of_keys {bus bus' : Bus} (hkeys : bus'.keys = bus.keys) {group : Group}
    (hg : group ∈ bus.groups) :
    ∃ group' ∈ bus'.groups, group'.addr = group.addr ∧ group'.addrName = group.addrName := by
  have hk : (group.addr, group.addrName) ∈ bus'.keys := hkeys ▸ List.mem_map.mpr ⟨group, hg, rfl⟩
  rcases List.mem_map.mp hk with ⟨group', hg', he⟩
  exact ⟨group', hg', Prod.mk.inj he⟩

/-- A section that changes members only keeps names and addresses sound. -/
theorem NamesSound.of_keys (hs : NamesSound s) {bus : Bus} {t : TaskId}
    (hkeys : bus.keys = s.bus.keys) (hlast : bus.groupLast = s.bus.groupLast) :
    NamesSound { s.setTask t .idle with bus := bus } := by
  refine ⟨hs.groups.of_keys hkeys hlast, fun {t' addrName addr} h => ?_⟩
  rcases pending_update (by simp [Task.pending]) t' _ h with ⟨t'', h⟩
  rcases hs.pending h with ⟨group, hg, ha, hn⟩
  rcases mem_groups_of_keys hkeys hg with ⟨group', hg', ha', hn'⟩
  exact ⟨group', hg', ha'.trans ha, hn'.trans hn⟩

/-- Step lemma: no step loses the correspondence of names and addresses. -/
theorem NamesSound.preserved (hs : NamesSound s) (hstep : step s l = some s') : NamesSound s' := by
  cases groupMove_of_fires (fires_of_step hstep) with
  | same h =>
    refine ⟨hs.groups.of_keys (by simp only [Bus.keys, h.groups]) h.groupLast, fun hp => ?_⟩
    rcases h.pending _ _ hp with ⟨t', hp'⟩
    rw [h.groups]
    exact hs.pending hp'
  | @lookup t addrName c =>
    refine ⟨hs.groups.joinLookup addrName, fun {t' addrName' addr} hp => ?_⟩
    by_cases ht : t' = t
    · subst ht
      obtain ⟨rfl, rfl⟩ : addrName = addrName' ∧ (s.bus.joinLookup addrName).1 = addr := by
        simpa [Task.pending] using hp
      exact Bus.joinLookup_group s.bus addrName
    · simp only [St.setTask_task, update_of_ne ht] at hp
      rcases hs.pending hp with ⟨group, hg, he⟩
      exact ⟨group, Bus.mem_joinLookup hg, he⟩
  | join htask =>
    -- the group of the task is there, so none is made
    obtain ⟨group, hg, rfl, -⟩ := hs.pending (by rw [htask]; rfl)
    exact hs.of_keys (Bus.keys_joinSection _ hs.groups hg) (by rw [Bus.joinSection_eq hs.groups hg])
  | leave => exact hs.of_keys Bus.keys_leaveSection rfl

/-- An answer of `resolve` that is an address outlives the step. -/
theorem NamesSound.resolveName_stable (hs : NamesSound s) (hstep : step s l = some s')
    {addrName : String} (hne : s.bus.resolveName addrName ≠ 0) :
    s'.bus.resolveName addrName = s.bus.resolveName addrName := by
  cases groupMove_of_fires (fires_of_step hstep) with
  | same h => exact Bus.resolveName_of_keys (by simp only [Bus.keys, h.groups])
  | @lookup t addrName' c =>
    simp only [Bus.resolveName_joinLookup]
    by_cases hn : addrName = addrName'
    · subst hn
      rw [if_pos rfl]
      rcases Bus.resolveName_ne_zero hne with ⟨group, hg, hn, ha⟩
      have hfind := hs.groups.find_name hg hn
      simp [Bus.joinLookup, hfind, ← ha]
    · rw [if_neg hn]
  | join htask =>
    obtain ⟨group, hg, rfl, -⟩ := hs.pending (by rw [htask]; rfl)
    exact Bus.resolveName_of_keys (Bus.keys_joinSection _ hs.groups hg)
  | leave => exact Bus.resolveName_of_keys Bus.keys_leaveSection

/-! ## What is asked of a state and of a step -/

/-- What names, addresses and members are meant to be. -/
structure GroupsExact (s : St Cmd) : Prop where
  named : ∀ group ∈ s.bus.groups, ∃ addrName, group.addrName = some addrName
  names : (s.bus.groups.map Group.addrName).Nodup
  addrs : (s.bus.groups.map Group.addr).Nodup
  range : ∀ group ∈ s.bus.groups, 1 ≤ group.addr ∧ group.addr ≤ s.bus.groupLast
  members : ∀ group ∈ s.bus.groups, ∀ a ∈ group.destination, a < 0 ∧ ∃ c, (c, a) ∈ s.handed

/-- The second section of a join by name finds the group of that name, so it makes no group, and
leaves the client's address in it. -/
def JoinFinds (s : St Cmd) (l : Lbl Cmd) : Prop :=
  ∀ t addrName addr c, l = .joinSection t → s.task t = .joinChecked addrName addr c →
    (∃ group, s.bus.groups.find? (fun group => addr = group.addr) = some group ∧
      group.addrName = some addrName) ∧
    ∀ s', step s l = some s' →
      (s.client c).addr ∈ s'.bus.destination (s'.bus.resolveName addrName)

/-- The client whose second section of a join the label is. -/
def St.joiner (s : St Cmd) : Lbl Cmd → Option ClientId
  | .joinSection t =>
    match s.task t with
    | .joinChecked _ _ c => some c
    | _ => none
  | _ => none

/-- The second section of a join finds its client still connected. -/
def JoinsConnected (s : St Cmd) (l : Lbl Cmd) : Prop :=
  ∀ c ∈ s.joiner l, (s.client c).addr < 0

instance (s : St Cmd) (l : Lbl Cmd) : Decidable (JoinsConnected s l) :=
  inferInstanceAs (Decidable (∀ c ∈ s.joiner l, (s.client c).addr < 0))

/-- In a sound state the second section of a join finds what the first one has found. -/
theorem NamesSound.joinFinds (hs : NamesSound s) : JoinFinds s l := by
  rintro t addrName addr c rfl htask
  obtain ⟨group, hg, rfl, hn⟩ := hs.pending (t := t) (by rw [htask]; rfl)
  refine ⟨⟨group, hs.groups.find_addr hg, hn⟩, fun s' hstep => ?_⟩
  have hstep' : s' =
      { s.setTask t .idle with bus := s.bus.joinSection group.addr (s.client c) } := by
    simpa [step, htask] using hstep.symm
  rw [hstep']
  simp only [Bus.resolveName_of_keys (Bus.keys_joinSection _ hs.groups hg),
    hs.groups.resolveName_eq hg hn, hs.groups.destination_joinSection hg, if_true]
  exact mem_insertMember.mpr (Or.inl rfl)

/-! ## Members -/

/-- What a run keeps as long as its joins find their clients connected. -/
structure NamesInv (s : St Cmd) : Prop where
  sound : Sound s
  names : NamesSound s
  members : ∀ {group a}, group ∈ s.bus.groups → a ∈ group.destination →
    a < 0 ∧ ∃ c, (c, a) ∈ s.handed

theorem NamesInv.init : NamesInv (St.init Cmd) :=
  ⟨Sound.init, NamesSound.init, by simp [St.init]⟩

/-- What a run keeps says what names, addresses and members are. -/
theorem NamesInv.groupsExact (h : NamesInv s) : GroupsExact s :=
  ⟨h.names.groups.named, h.names.groups.names, h.names.groups.addrs, h.names.groups.range,
    fun _ hg _ ha => h.members hg ha⟩

/-- Step lemma: the members stay addresses that `connect` handed out. -/
theorem NamesInv.preserved (h : NamesInv s) (hl : JoinsConnected s l)
    (hstep : step s l = some s') : NamesInv s' := by
  refine ⟨h.sound.preserved hstep, h.names.preserved hstep, fun {group a} hg ha => ?_⟩
  cases groupMove_of_fires (fires_of_step hstep) with
  | same hsame =>
    rw [hsame.groups] at hg
    rcases h.members hg ha with ⟨hneg, c, hc⟩
    exact ⟨hneg, c, hsame.handed hc⟩
  | @lookup t addrName c =>
    rcases s.bus.joinLookup_cases addrName with ⟨_, -, -, he⟩ | ⟨-, he⟩
    · simp only [he] at hg
      exact h.members hg ha
    · simp only [he] at hg
      rcases List.mem_cons.mp hg with rfl | hg
      · simp at ha
      · exact h.members hg ha
  | @join t addrName addr c htask =>
    obtain ⟨group', hg', rfl, -⟩ := h.names.pending (t := t) (by rw [htask]; rfl)
    simp only [Bus.joinSection_eq h.names.groups hg'] at hg
    rcases mem_updateFirst hg with hg | ⟨g, hgs, -, rfl⟩
    · exact h.members hg ha
    · rw [Group.addMember_destination, mem_insertMember] at ha
      rcases ha with rfl | ha
      · -- the new member is still connected
        have hneg := hl c (by simp [St.joiner, htask])
        exact ⟨hneg, c, h.sound.addr_handed (by lia)⟩
      · exact h.members hgs ha
  | leave =>
    rcases mem_updateFirst hg with hg | ⟨g, hgs, -, rfl⟩
    · exact h.members hg ha
    · exact h.members hgs (mem_of_mem_removeIf ha)

/-- A client that was disconnected between the guard and the section is entered as address 0. -/
theorem NamesInv.broken (h : NamesInv s) (hl : ¬ JoinsConnected s l)
    (hstep : step s l = some s') : ¬ GroupsExact s' := by
  simp only [JoinsConnected, not_forall, Int.not_lt] at hl
  rcases hl with ⟨c, hc, haddr⟩
  obtain ⟨t, addrName, addr, rfl, htask⟩ : ∃ t addrName addr, l = .joinSection t ∧
      s.task t = .joinChecked addrName addr c := by
    cases l with
    | joinSection t =>
      simp only [St.joiner] at hc
      split at hc
      · next htask =>
        obtain rfl := Option.some.inj hc
        exact ⟨t, _, _, rfl, htask⟩
      · simp at hc
    | _ => simp [St.joiner] at hc
  intro hexact
  -- the section does find its group, and enters what it reads there
  have hmem := (h.names.joinFinds t addrName addr c rfl htask).2 s' hstep
  have hs' := (h.names.preserved hstep).groups
  have hne : s'.bus.resolveName addrName ≠ 0 := fun hzero => by
    simp [hzero, Bus.destination] at hmem
  rcases Bus.resolveName_ne_zero hne with ⟨group, hg, -, ha⟩
  rw [← ha, hs'.destination_eq hg] at hmem
  have := (hexact.members group hg _ hmem).1
  lia

/-- In every state of a run names and addresses correspond one to one and members are addresses
that `connect` handed out, answers of `resolve` stay, and joins find their group, iff every second
section of a join in the run finds its client connected. -/
theorem groups_exact_iff {tr : List (St Cmd × Lbl Cmd)} (hrun : Run step (St.init Cmd) tr s) :
    (Always GroupsExact tr s ∧
      (∀ p ∈ tr, ∀ addrName, p.1.bus.resolveName addrName ≠ 0 →
        s.bus.resolveName addrName = p.1.bus.resolveName addrName) ∧
      EveryStep JoinFinds tr) ↔ EveryStep JoinsConnected tr := by
  have hiff : Always GroupsExact tr s ↔ EveryStep JoinsConnected tr :=
    hrun.always_iff_everyStep everyStep_true NamesInv.init (fun _ h => h.groupsExact)
      (fun _ _ _ h _ hl hstep => h.preserved hl hstep)
      fun _ _ _ h _ hl hstep => h.broken hl hstep
  have hsound : ∀ {tr₁ s₁}, Run step (St.init Cmd) tr₁ s₁ → NamesSound s₁ := fun h₁ =>
    h₁.invariant NamesSound.init (fun _ _ _ hs _ hstep => hs.preserved hstep) everyStep_true
  refine ⟨fun h => hiff.mp h.1, fun h => ⟨hiff.mpr h, fun p hp addrName hne => ?_, fun p hp => ?_⟩⟩
  · rcases hrun.split hp with ⟨tr₁, tr₂, t, rfl, h₁, ht, h₂⟩
    have hfirst := (hsound h₁).resolveName_stable ht hne
    -- from here on the answer is an address, so it stays
    have hlast := h₂.invariant
      (I := fun s₂ => NamesSound s₂ ∧ s₂.bus.resolveName addrName = p.1.bus.resolveName addrName)
      ⟨(hsound h₁).preserved ht, hfirst⟩
      (fun s₂ _ _ hI _ hstep => ⟨hI.1.preserved hstep, by
        rw [hI.1.resolveName_stable hstep (by rw [hI.2]; exact hne), hI.2]⟩) everyStep_true
    exact hlast.2
  · rcases hrun.split hp with ⟨tr₁, tr₂, t, rfl, h₁, -, -⟩
    exact (hsound h₁).joinFinds

/-- Two clients join the same new group, one task between the sections of the other. -/
theorem groups_exact_iff_two :
    ∃ tr s, Run step (St.init Unit) tr s ∧
      tr.map Prod.snd = [.initializeClient 0 (some 7), .initializeClient 1 (some 8),
        .joinLookup 0 "fan" 0, .joinLookup 1 "fan" 1, .joinCheck 1, .joinSection 1,
        .disconnect 1, .joinCheck 0, .joinSection 0] ∧
      Always GroupsExact tr s ∧
      (∀ p ∈ tr, ∀ addrName, p.1.bus.resolveName addrName ≠ 0 →
        s.bus.resolveName addrName = p.1.bus.resolveName addrName) ∧
      EveryStep JoinFinds tr := by
  have hrun := run_get step (St.init Unit)
    [.initializeClient 0 (some 7), .initializeClient 1 (some 8),
      .joinLookup 0 "fan" 0, .joinLookup 1 "fan" 1, .joinCheck 1, .joinSection 1,
      .disconnect 1, .joinCheck 0, .joinSection 0] (by decide)
  exact ⟨_, _, hrun, rfl, (groups_exact_iff hrun).mpr (by decide)⟩

/-- The client disconnects between the guard and the section of its join. -/
theorem groups_not_exact_after_disconnect :
    ∃ tr s, Run step (St.init Unit) tr s ∧
      tr.map Prod.snd = [.initializeClient 0 (some 7), .joinLookup 0 "fan" 0, .joinCheck 0,
        .disconnect 0, .joinSection 0] ∧
      s.bus.groups = [⟨1, some "fan", [0]⟩] ∧ ¬ GroupsExact s := by
  refine ⟨_, _, run_get step (St.init Unit) [.initializeClient 0 (some 7), .joinLookup 0 "fan" 0,
    .joinCheck 0, .disconnect 0, .joinSection 0] (by decide), rfl, rfl, fun h => ?_⟩
  have hneg := (h.members ⟨1, some "fan", [0]⟩ (by decide) 0 (by decide)).1
  exact absurd hneg (by decide)

end EspAcDimmer
