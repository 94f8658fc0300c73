import EspAcDimmer.Bus.Growth

/-! # Messages are neither lost nor duplicated

While membership only grows and no queue is full, every destination of a message sent to connected
destinations has received it, is the one whose queue holds it, or is still on its list.
-/

namespace EspAcDimmer

open Function StdList Lts
open Relay (Place Parcel load received missedAt leftOut settled)

variable {Cmd : Type} {s s' : St Cmd} {l : Lbl Cmd}

/-- The messages in a queue, or in the hands of a task. -/
def St.holds (s : St Cmd) : Place QueueHandle TaskId → List (BusMsg Cmd)
  | .inbox h => ((s.queue h).getD []).map Slot.busMsg
  | .hand t => (s.task t).inHand.toList.map Prod.snd

/-- The addresses whose queue the place is. -/
def St.owners (s : St Cmd) : Place QueueHandle TaskId → List BusAddr
  | .inbox h => (s.bus.clients.filter fun client => client.queue = h).map Client.addr
  | .hand _ => []

/-- Message `n`, sent with the destination snapshot `stops`, is neither lost nor duplicated. -/
structure Conserved (s : St Cmd) (n : Nat) (stops : List BusAddr) : Prop where
  distinct : stops.Nodup
  one_place : ∀ pl pl', n ∈ (s.holds pl).map BusMsg.serial →
    n ∈ (s.holds pl').map BusMsg.serial → pl = pl'
  once : ∀ pl, ((s.holds pl).map BusMsg.serial).count n ≤ 1
  account : ∀ pl, ∀ m ∈ s.holds pl, m.serial = n →
    stops.Perm (received n s.log ++ (s.owners pl ++ m.destination))
  finished : (∀ pl, n ∉ (s.holds pl).map BusMsg.serial) → stops.Perm (received n s.log)
  quiescent : (∀ h slots, s.queue h = some slots → slots = []) → (∀ t, s.task t = .idle) →
    stops.Perm (received n s.log)
  receiver : ∀ a c, .got a c n ∈ s.log → (s.client c).addr = a

/-- The messages in a place are the parcels of the relay. -/
theorem holds_serial (pl : Place QueueHandle TaskId) :
    (s.holds pl).map BusMsg.serial = (s.relay.held pl).map Parcel.serial := by
  cases pl with
  | inbox h => simp [St.holds, St.relay, Slot.parcel, Function.comp_def]
  | hand t => simp [St.holds, St.relay, Task.parcels, Function.comp_def]

/-- A message is in one place at a time. -/
theorem Ledger.one_place (h : Ledger s) {n : Nat} {pl pl' : Place QueueHandle TaskId}
    (hn : n ∈ (s.holds pl).map BusMsg.serial) (hn' : n ∈ (s.holds pl').map BusMsg.serial) :
    pl = pl' := by
  rw [holds_serial] at hn hn'
  rcases List.mem_map.mp hn with ⟨p, hp, rfl⟩
  rcases List.mem_map.mp hn' with ⟨p', hp', he⟩
  exact h.apart _ _ _ _ hp hp' he.symm

/-- A message in no place is no parcel of the relay. -/
theorem not_held {n : Nat} (hnone : ∀ pl, n ∉ (s.holds pl).map BusMsg.serial) :
    ∀ pl, ∀ p ∈ s.relay.held pl, p.serial ≠ n := fun pl p hp hn =>
  hnone pl (by rw [holds_serial, ← hn]; exact List.mem_map_of_mem hp)

/-- A message is a parcel of the relay; in a queue it waits for the address it was put there for. -/
theorem mem_holds {pl : Place QueueHandle TaskId} {m : BusMsg Cmd} (h : m ∈ s.holds pl) :
    ∃ p ∈ s.relay.held pl, p.serial = m.serial ∧ p.route = m.destination ∧
      ∀ q, pl = .inbox q → ∃ slots slot, s.queue q = some slots ∧ slot ∈ slots ∧
        p.stop = some slot.stop := by
  cases pl with
  | inbox q =>
    rcases List.mem_map.mp h with ⟨slot, hslot, rfl⟩
    refine ⟨slot.parcel, List.mem_map_of_mem hslot, rfl, rfl, ?_⟩
    rintro q' ⟨⟩
    cases hq : s.queue q with
    | none => simp [hq] at hslot
    | some slots => exact ⟨slots, slot, rfl, by simpa [hq] using hslot, rfl⟩
  | hand t =>
    rcases List.mem_map.mp h with ⟨x, hx, rfl⟩
    exact ⟨⟨x.2.serial, x.1, x.2.destination⟩, List.mem_map_of_mem hx, rfl, rfl, by simp⟩

/-- In an exact table a queue is that of one address. -/
theorem Exact.owners_inbox (he : Exact s) {a : BusAddr} {h : QueueHandle}
    (hr : s.bus.resolve a = some h) : s.owners (.inbox h) = [a] := by
  have hentry := mem_clients_of_resolve hr
  rcases he.tidy.owned hentry with ⟨c, hq, -⟩
  have hfilter : s.bus.clients.filter (fun client => client.queue = h) = [⟨a, h⟩] := by
    refine List.perm_singleton.mp ((List.perm_ext_iff_of_nodup (he.nodup.filter _)
      (List.nodup_singleton _)).mpr fun e => ?_)
    rw [List.mem_filter, List.mem_singleton]
    constructor
    · rintro ⟨hmem, hqe⟩
      have hqe : e.queue = h := by simpa using hqe
      have ha := he.tidy.addr_of_entry he.sound hmem (c := c) (by rw [hq, hqe])
      have ha' := he.tidy.addr_of_entry he.sound hentry hq
      exact he.tidy.entry_unique he.sound hmem hentry (ha.symm.trans ha')
    · rintro rfl
      exact ⟨hentry, by simp⟩
  simp [St.owners, hfilter]

/-! ## One message from its send on -/

/-- Message `n` has not lost a destination so far, and all of them are connected. -/
structure Intact (n : Nat) (stops : List BusAddr) (s : St Cmd) : Prop where
  grown : Grown s
  sent : .sent n stops ∈ s.log
  connected : ∀ a ∈ stops, (s.bus.resolve a).isSome = true
  kept : ∀ {a why}, .missed a why n ∉ s.log
  whole : ∀ {rest}, .retired rest n ∈ s.log → rest = []

/-- Step lemma: with room in the queues nothing is lost. -/
theorem Intact.preserved {n : Nat} {stops : List BusAddr} (h : Intact n stops s) (hl : Grows s l)
    (hroom : HasRoom s l) (hstep : step s l = some s') : Intact n stops s' := by
  have hg := h.grown
  have hdest : ∀ {t stop m}, (s.task t).inHand = some (stop, m) → m.serial = n →
      m.destination ⊆ stops := fun hhand hn => hg.ledger.destination_subset hhand (hn ▸ h.sent)
  constructor
  · exact hg.preserved hl hstep
  · exact (log_extends hstep).subset h.sent
  · intro a ha
    rcases Option.isSome_iff_exists.mp (h.connected a ha) with ⟨q, hq⟩
    rw [hg.exact.resolve_keeps hl hstep hq]
    rfl
  · -- `kept`: a connected member with room in its queue is not passed over
    intro a why hmem
    rcases mem_log_new hstep hmem with hmem | hmem
    · exact h.kept hmem
    · rcases missed_new hstep hmem with ⟨t, stop, m, rfl, hhand, hn, ha, hwhy⟩ |
        ⟨t, _, _, _, _, rfl, -⟩
      · have hconn := h.connected a (hdest hhand hn ha)
        rcases hwhy with ⟨-, hr⟩ | ⟨-, q, rest, slots, hfound, hslots, hfull⟩
        · simp [hr] at hconn
        · exact absurd (hroom.lt hhand hfound hslots) (Nat.not_lt.mpr hfull)
      · simp [Grows, Lbl.grows] at hl
  · -- `whole`: and no message is destroyed before its last stop
    intro rest hmem
    rcases retired_cases hstep hmem with hmem | hnil | ⟨t, stop, m, a, q, left, rfl, hhand, -,
      hfound, ⟨hdead, -⟩ | ⟨slots, hslots, hfull, rfl⟩⟩
    · exact h.whole hmem
    · exact hnil
    · have hlive := hg.exact.tidy.resolve_live hg.exact.sound (Bus.nextHop_some hfound).2
      simp [hdead] at hlive
    · exact absurd (hroom.lt hhand hfound hslots) (Nat.not_lt.mpr hfull)

/-- What a run keeps says where every destination of the message stands. -/
theorem Intact.conserved {n : Nat} {stops : List BusAddr} (h : Intact n stops s)
    (hdistinct : stops.Nodup) : Conserved s n stops := by
  have hg := h.grown
  have hsettled : (settled n s.log).Perm (received n s.log) := by
    have hperm := Relay.settled_perm n s.log
    have hmissed : missedAt n s.log = [] := by
      apply List.filterMap_eq_nil_iff.mpr
      intro e he
      cases e with
      | missed a why m =>
        have hne : m ≠ n := fun hmn => h.kept (hmn ▸ he)
        simp [hne]
      | _ => rfl
    rwa [leftOut_eq_nil fun rest hr => h.whole hr, hmissed, List.append_nil, List.append_nil]
      at hperm
  -- what nobody holds any more has settled everything, by receiving
  have hfinished : (∀ pl, n ∉ (s.holds pl).map BusMsg.serial) → stops.Perm (received n s.log) :=
    fun hnone => (hg.ledger.ended n stops h.sent (not_held hnone)).trans hsettled
  refine ⟨hdistinct, fun pl pl' => hg.ledger.one_place, fun pl => ?_, fun pl m hm hn => ?_,
    hfinished, fun hempty hidle => hfinished fun pl => ?_, fun a c hgot => (hg.heard hgot).1⟩
  · rw [holds_serial]
    exact List.nodup_iff_count_le_one.mp (hg.ledger.nodup pl) n
  · rcases mem_holds hm with ⟨p, hp, hserial, hroute, hstop⟩
    -- what a parcel owes in the relay: the owners of its queue, and its list
    have hload : load pl p = s.owners pl ++ m.destination := by
      cases pl with
      | inbox q =>
        rcases hstop q rfl with ⟨slots, slot, hq, hslot, hps⟩
        rw [hg.exact.owners_inbox (hg.boxed hq hslot)]
        simp [load, hps, hroute]
      | hand t => simp [load, hroute, St.owners]
    have hperm := hg.ledger.conserved h.sent hp (hserial.trans hn)
    rw [hload] at hperm
    exact hperm.trans (List.perm_append_comm.trans (hsettled.append_right _))
  · cases pl with
    | inbox q =>
      cases hq : s.queue q with
      | none => simp [St.holds, hq]
      | some slots => simp [St.holds, hq, hempty q slots hq]
    | hand t => simp [St.holds, hidle t, Task.inHand]

/-- In a growing run without full queues, no message sent to a group or to a connected client is
ever lost or duplicated. -/
theorem message_conserved {tr : List (St Cmd × Lbl Cmd)} (hrun : Run step (St.init Cmd) tr s)
    (hgrow : EveryStep Grows tr) (hroom : EveryStep HasRoom tr) {s₁ : St Cmd} {t : TaskId}
    {c : ClientId} {toAddr : BusAddr} {msg : Cmd} (hsend : (s₁, .send t c toAddr msg) ∈ tr)
    (hto : 0 < toAddr ∨ (s₁.bus.resolve toAddr).isSome = true) :
    Conserved s s₁.next (s₁.bus.destination toAddr) := by
  rcases hrun.split hsend with ⟨tr₁, tr₂, s₂, rfl, h₁, hstep, h₂⟩
  have hg₁ : Grown s₁ := h₁.invariant Grown.init (fun _ _ _ h hl hs => h.preserved hl hs)
    fun p hp => hgrow p (by simp [hp])
  have hg₂ : Grown s₂ := hg₁.preserved (hgrow _ hsend) hstep
  have hfresh : ∀ e ∈ s₁.log, e.serial ≠ s₁.next := fun e he =>
    Nat.ne_of_lt (hg₁.ledger.fresh e he)
  have hstops : ∀ a ∈ s₁.bus.destination toAddr, (s₁.bus.resolve a).isSome = true := by
    rcases hto with hpos | hconn
    · exact fun a ha => hg₁.members hpos ha
    · rcases Option.isSome_iff_exists.mp hconn with ⟨q, hq⟩
      have hneg := (hg₁.exact.sound.listed_range (mem_clients_of_resolve hq)).2
      intro a ha
      obtain rfl : a = toAddr := by simpa [Bus.destination, hneg] using ha
      exact hconn
  have hintact : Intact s₁.next (s₁.bus.destination toAddr) s₂ := by
    cases fires_of_step hstep with
    | quiet hl =>
      -- nothing is sent to address 0, which nobody has
      obtain rfl : toAddr = 0 := by simpa [Lbl.mayReturn] using hl
      simp [Bus.resolve] at hto
    | send =>
      refine ⟨hg₂, by simp [St.send], hstops, ?_, ?_⟩
      · intro a why hmem
        have hold : .missed a why s₁.next ∈ s₁.log := by simpa [St.send] using hmem
        exact absurd rfl (hfresh _ hold)
      · intro rest hmem
        have hold : .retired rest s₁.next ∈ s₁.log := by simpa [St.send] using hmem
        exact absurd rfl (hfresh _ hold)
  -- from the send on, `Intact` is kept to the end of the run
  have hlast := h₂.invariant hintact
    (fun _ _ _ h hC hs => h.preserved hC.1 hC.2 hs)
    (EveryStep.and (C := Grows) (D := HasRoom) (fun p hp => hgrow p (by simp [hp]))
      fun p hp => hroom p (by simp [hp]))
  exact hlast.conserved (hg₁.distinct toAddr)

/-- A message is sent to the group, received by the first member and handed on to the second. -/
def throughFirst : List (Lbl Unit) :=
  [.send 0 0 1 (), .sendNext 0, .tryReceive 1 0, .sendNext 1]

theorem throughFirst_enabled : (exec step twoMembersSt throughFirst).isSome = true := by
  decide +kernel

/-- The message is with the second member, and the first one has received it. -/
theorem message_conserved_two :
    ∃ tr s, Run step (St.init Unit) tr s ∧ tr.map Prod.snd = twoMembers ++ throughFirst ∧
      twoMembersSt.bus.destination 1 = [-2, -1] ∧ Conserved s 0 [-2, -1] := by
  have hrun := twoMembers_run.append (run_get step twoMembersSt throughFirst throughFirst_enabled)
  have hsend : (twoMembersSt, Lbl.send 0 0 1 ()) ∈
      ((exec step twoMembersSt throughFirst).get throughFirst_enabled).1 :=
    List.mem_cons_self
  refine ⟨_, _, hrun, by decide +kernel, by decide +kernel, ?_⟩
  exact message_conserved hrun (by decide +kernel) (by decide +kernel)
    (List.mem_append_right _ hsend) (Or.inl (by decide))

end EspAcDimmer
