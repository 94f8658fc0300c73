import EspAcDimmer.Bus.Conservation

/-! # Destroying a client

`~IBusClient` disconnects, takes every message out of its queue and passes it on, then deletes the
queue. Between these steps other tasks resolve addresses and send. As long as no client that is
taken off the bus stands in the last entry of `m_clients`, nobody finds the queue of a dying client,
and every message reaches the members that stay. A client in the last entry keeps its entry, and
the next message for it goes to a deleted queue, together with all that it still has to visit.
-/

namespace EspAcDimmer

open Function StdList Lts
open Relay (Place Parcel load received missedAt leftOut settled)

variable {Cmd : Type} {s s' : St Cmd} {l : Lbl Cmd}

/-! ## What is promised -/

/-- No path leads to the queue of a dying client. -/
structure NoPath (s : St Cmd) : Prop where
  dead_sends : s.deadSends = []
  drained : ∀ t c h, s.task t = .drained c → (s.client c).queue = some h → s.queue h = some []
  unlisted : ∀ c, s.alive c = false → ∀ e ∈ s.bus.clients, (s.client c).queue ≠ some e.queue

/-- Message `n` reaches client `k`, exactly once. -/
structure Reaches (s : St Cmd) (n : Nat) (k : ClientId) : Prop where
  one_place : ∀ pl pl', n ∈ (s.holds pl).map BusMsg.serial →
    n ∈ (s.holds pl').map BusMsg.serial → pl = pl'
  not_missed : (s.client k).addr ∉ missedAt n s.log
  not_left : (s.client k).addr ∉ leftOut n s.log
  once : (received n s.log).count (s.client k).addr ≤ 1
  /-- Until it has, it is in the client's queue or has the client on its list. -/
  due : ∀ pl, ∀ m ∈ s.holds pl, m.serial = n → (s.client k).addr ∉ received n s.log →
    (s.client k).addr ∈ m.destination ∨ ∃ h, pl = .inbox h ∧ (s.client k).queue = some h
  finished : (∀ pl, n ∉ (s.holds pl).map BusMsg.serial) →
    (received n s.log).count (s.client k).addr = 1
  receiver : ∀ c, .got (s.client k).addr c n ∈ s.log → c = k

/-! ## What such runs keep -/

structure Closing (s : St Cmd) : Prop where
  sound : Sound s
  tidy : Tidy s
  ledger : Ledger s
  boxed : ∀ {h slots slot}, s.queue h = some slots → slot ∈ slots →
    s.bus.addrLast ≤ slot.stop ∧ slot.stop < 0 ∧
      ∀ k, (s.client k).addr = slot.stop → (s.client k).queue = some h
  heard : ∀ {a c n}, .got a c n ∈ s.log →
    s.bus.addrLast ≤ a ∧ a < 0 ∧ ∀ k, (s.client k).addr = a → k = c
  no_dead : s.deadSends = []
  drained : ∀ {t c h slots}, s.task t = .drained c → (s.client c).queue = some h →
    s.queue h = some slots → slots = []

theorem Closing.init : Closing (St.init Cmd) := by
  refine ⟨Sound.init, Tidy.init, Ledger.init, ?_, ?_, rfl, ?_⟩ <;> simp [St.init]

/-- A destructor that is past its loop has emptied the queue. -/
theorem Closing.deletesEmpty (h : Closing s) : DeletesEmpty s l :=
  fun _ _ _ _ _ htask hq hslots => h.drained htask hq hslots

/-- Only a deleted queue that an address resolves to can be sent to. -/
theorem deadSends_cases (hstep : step s l = some s') :
    s'.deadSends = s.deadSends ∨ ∃ a q, s.bus.resolve a = some q ∧ s.queue q = none := by
  cases fires_of_step hstep with
  | @sendNext t stop m _ =>
    rcases s.sendToNextClient_cases t m with ⟨-, he⟩ | ⟨a, q, _, hfound, hdead, -⟩ |
      ⟨_, _, _, _, -, -, -, he⟩ | ⟨_, _, _, _, -, -, -, he⟩
    · exact Or.inl (by rw [he]; rfl)
    · exact Or.inr ⟨a, q, (Bus.nextHop_some hfound).2, hdead⟩
    · exact Or.inl (by rw [he]; rfl)
    · exact Or.inl (by rw [he]; rfl)
  | destroy => exact Or.inl (by simp)
  | _ => exact Or.inl rfl

/-- A queue that an address resolves to is not that of a dying client. -/
theorem Closing.resolve_alive (h : Closing s) {a : BusAddr} {q : QueueHandle} {c : ClientId}
    (hr : s.bus.resolve a = some q) (hq : (s.client c).queue = some q) : s.alive c = true := by
  rcases h.tidy.resolve_owner hr with ⟨c', hq', ha⟩
  obtain rfl := h.sound.queue_owner hq hq'
  -- a dead client has the address 0, which no entry has
  have hrange := h.sound.listed_range (mem_clients_of_resolve hr)
  by_contra hdead
  have := h.sound.dead_addr (by simpa using hdead)
  simp only at hrange
  lia

/-- Step lemma. -/
theorem Closing.preserved (h : Closing s) (hlast : NotLast s l) (hstep : step s l = some s') :
    Closing s' := by
  have hf := fires_of_step hstep
  have hs' := h.sound.preserved hstep
  have hmono := addrLast_le hstep
  -- a client that has an address from before is as it was
  have hback : ∀ {a : BusAddr}, s.bus.addrLast ≤ a → a < 0 → ∀ k, (s'.client k).addr = a →
      s'.client k = s.client k := fun hge hneg k hk =>
    client_of_addr h.sound h.tidy hstep hge hneg hk
  constructor
  · exact hs'
  · exact h.tidy.preserved h.sound hlast hstep
  · exact h.ledger.preserved h.deletesEmpty hstep
  · -- `boxed`: what is put into a queue is there for the client that has the address
    intro q slots slot hq hmem
    have hold : s.bus.addrLast ≤ slot.stop ∧ slot.stop < 0 ∧
        ∀ k, (s.client k).addr = slot.stop → (s.client k).queue = some q := by
      rcases slot_cases hf hq hmem with ⟨slots', hq', hmem'⟩ | hr
      · exact h.boxed hq' hmem'
      · rcases h.tidy.resolve_owner hr with ⟨c, hcq, hca⟩
        rcases h.sound.listed_range (mem_clients_of_resolve hr) with ⟨hge, hneg⟩
        refine ⟨hge, hneg, ?_⟩
        intro k hk
        have hne : (s.client k).addr ≠ 0 := by
          simp only at hneg
          lia
        rw [h.tidy.holder hne (hk.trans hca.symm), hcq]
    rcases hold with ⟨hge, hneg, howner⟩
    refine ⟨Int.le_trans hmono hge, hneg, ?_⟩
    intro k hk
    have hsame := hback hge hneg k hk
    rw [hsame] at hk ⊢
    exact howner k hk
  · -- `heard`: and so is what is taken out
    intro a c n hmem
    have hold : s.bus.addrLast ≤ a ∧ a < 0 ∧ ∀ k, (s.client k).addr = a → k = c := by
      rcases got_cases hstep hmem with hmem | ⟨t, q, slot, slots, -, hq, hslots, rfl, -⟩
      · exact h.heard hmem
      · rcases h.boxed hslots List.mem_cons_self with ⟨hge, hneg, howner⟩
        exact ⟨hge, hneg, fun k hk => h.sound.queue_owner (howner k hk) hq⟩
    rcases hold with ⟨hge, hneg, howner⟩
    refine ⟨Int.le_trans hmono hge, hneg, fun k hk => howner k ?_⟩
    rw [← hback hge hneg k hk, hk]
  · -- `no_dead`: addresses resolve to live queues
    rcases deadSends_cases hstep with hsame | ⟨a, q, hr, hdead⟩
    · rw [hsame, h.no_dead]
    · have hlive := h.tidy.resolve_live h.sound hr
      simp [hdead] at hlive
  · -- `drained`: nobody sends to a queue that no address resolves to
    intro t c q slots ht hq hslots
    have hold : s.alive c = false ∧
        ∀ q slots, (s.client c).queue = some q → s.queue q = some slots → slots = [] := by
      rcases task_cases hf t with hsame | ⟨-, harr⟩
      · rw [hsame] at ht
        exact ⟨h.sound.destroying (t := t) (by rw [ht]; rfl), fun q slots => h.drained ht⟩
      · rw [ht] at harr
        exact ⟨h.sound.destroying (t := t) (by rw [harr.1]; rfl), harr.2⟩
    have hqs : (s.client c).queue = some q := by
      rcases client_cases h.sound h.tidy hstep c with heq | ⟨halive, -⟩ | ⟨-, heq | hnone⟩
      · rw [← heq, hq]
      · simp [hold.1] at halive
      · rw [← heq, hq]
      · simp [hnone] at hq
    apply List.eq_nil_iff_forall_not_mem.mpr
    intro slot hslot
    rcases slot_cases hf hslots hslot with ⟨slots', hslots', hmem⟩ | hr
    · simp [hold.2 q slots' hqs hslots'] at hmem
    · have halive := h.resolve_alive hr hqs
      simp [hold.1] at halive

/-- What the invariant is for: a dying client has no address that resolves to its queue. -/
theorem Closing.noPath (h : Closing s) : NoPath s := by
  refine ⟨h.no_dead, ?_, ?_⟩
  · intro t c q ht hq
    rcases Option.isSome_iff_exists.mp (h.sound.queue_live hq) with ⟨slots, hslots⟩
    rw [hslots, h.drained ht hq hslots]
  · intro c hdead e he hq
    have halive := h.resolve_alive ((h.tidy.resolve_eq h.sound).mpr he) hq
    simp [hdead] at halive

/-! ## One message and one member -/

/-- Message `n` has not been lost, and has not missed address `a` while a client had it. -/
structure Kept (n : Nat) (stops : List BusAddr) (a : BusAddr) (s : St Cmd) : Prop where
  closing : Closing s
  sent : .sent n stops ∈ s.log
  given : s.bus.addrLast ≤ a
  neg : a < 0
  missed : ∀ {why}, .missed a why n ∈ s.log → ∀ k, (s.client k).addr ≠ a
  whole : ∀ {rest}, .retired rest n ∈ s.log → rest = []

/-- Step lemma: the destructor passes on what it takes out of the queue, and misses only itself. -/
theorem Kept.preserved {n : Nat} {stops : List BusAddr} {a : BusAddr} (h : Kept n stops a s)
    (hlast : NotLast s l) (hroom : HasRoom s l) (hstep : step s l = some s') :
    Kept n stops a s' := by
  have hc := h.closing
  constructor
  · exact hc.preserved hlast hstep
  · exact (log_extends hstep).subset h.sent
  · exact Int.le_trans (addrLast_le hstep) h.given
  · exact h.neg
  · -- `missed`: the client had the address before the step, too
    intro why hmem k hk
    have hkold : (s.client k).addr = a := by
      rw [← client_of_addr hc.sound hc.tidy hstep h.given h.neg hk, hk]
    have hne : (s.client k).addr ≠ 0 := by
      have := h.neg
      lia
    rcases mem_log_new hstep hmem with hmem | hmem
    · exact h.missed hmem k hkold
    · rcases missed_new hstep hmem with ⟨t, stop, m, rfl, hhand, -, -, ⟨-, hr⟩ |
        ⟨-, q, rest, slots, hfound, hslots, hfull⟩⟩ | ⟨t, c, q, slot, slots, -, ht, hq, hslots, rfl⟩
      · -- whoever has an address can be reached
        rcases Option.isSome_iff_exists.mp (hc.sound.addr_queue hne) with ⟨q, hq⟩
        have hlisted := hc.tidy.listed hq hne
        rw [hkold, ← hc.tidy.resolve_eq hc.sound, hr] at hlisted
        cases hlisted
      · exact absurd (hroom.lt hhand hfound hslots) (Nat.not_lt.mpr hfull)
      · -- a message in a dying client's queue was there for that client
        have hkq := (hc.boxed hslots List.mem_cons_self).2.2 k hkold
        obtain rfl := hc.sound.queue_owner hkq hq
        exact hne (hc.sound.dead_addr (hc.sound.destroying (t := t) (by rw [ht]; rfl)))
  · intro rest hmem
    rcases retired_cases hstep hmem with hmem | hnil | ⟨t, stop, m, b, q, left, rfl, hhand, -,
      hfound, ⟨hdead, -⟩ | ⟨slots, hslots, hfull, rfl⟩⟩
    · exact h.whole hmem
    · exact hnil
    · have hlive := hc.tidy.resolve_live hc.sound (Bus.nextHop_some hfound).2
      simp [hdead] at hlive
    · exact absurd (hroom.lt hhand hfound hslots) (Nat.not_lt.mpr hfull)

/-- A stop is missed where the log says so. -/
theorem mem_missedAt {n : Nat} {a : BusAddr}
    {log : List (Relay.Event BusAddr QueueHandle ClientId)} :
    a ∈ missedAt n log ↔ ∃ why, .missed a why n ∈ log := by
  simp only [missedAt, List.mem_filterMap]
  constructor
  · rintro ⟨e, he, ha⟩
    cases e <;> simp at ha
    rcases ha with ⟨rfl, rfl⟩
    exact ⟨_, he⟩
  · rintro ⟨why, h⟩
    exact ⟨_, h, by simp⟩

/-- A message kept so reaches the client: its address is settled once, and only by receiving. -/
theorem Kept.reaches {n : Nat} {stops : List BusAddr} {k : ClientId}
    (h : Kept n stops (s.client k).addr s) (hdistinct : stops.Nodup)
    (hmem : (s.client k).addr ∈ stops) : Reaches s n k := by
  have hc := h.closing
  have hmissed : (s.client k).addr ∉ missedAt n s.log := fun hm => by
    rcases mem_missedAt.mp hm with ⟨why, hm⟩
    exact h.missed hm k rfl
  have hleft : leftOut n s.log = [] := leftOut_eq_nil fun rest hr => h.whole hr
  have hone : stops.count (s.client k).addr = 1 := List.count_eq_one_of_mem hdistinct hmem
  -- the address is settled by receiving only
  have hcount : (settled n s.log).count (s.client k).addr =
      (received n s.log).count (s.client k).addr := by
    rw [(Relay.settled_perm n s.log).count_eq, List.count_append, List.count_append, hleft,
      List.count_eq_zero.mpr hmissed, List.count_nil, Nat.add_zero]
  have hheld : ∀ pl p, p ∈ s.relay.held pl → p.serial = n →
      (load pl p).count (s.client k).addr + (received n s.log).count (s.client k).addr = 1 := by
    intro pl p hp hn
    rw [← hone, (hc.ledger.conserved h.sent hp hn).count_eq, List.count_append]
    exact congrArg _ hcount.symm
  have hfinished : (∀ pl, n ∉ (s.holds pl).map BusMsg.serial) →
      (received n s.log).count (s.client k).addr = 1 := fun hnone => by
    rw [← hone, (hc.ledger.ended n stops h.sent (not_held hnone)).count_eq]
    exact hcount.symm
  refine ⟨fun pl pl' => hc.ledger.one_place, hmissed, by simp [hleft], ?_,
    fun pl m hm hn hnot => ?_, hfinished, fun c hgot => ((hc.heard hgot).2.2 k rfl).symm⟩
  · by_cases hnone : ∀ pl, n ∉ (s.holds pl).map BusMsg.serial
    · exact Nat.le_of_eq (hfinished hnone)
    · simp only [not_forall, not_not, holds_serial, List.mem_map] at hnone
      rcases hnone with ⟨pl, p, hp, hn⟩
      have := hheld pl p hp hn
      omega
  · rcases mem_holds hm with ⟨p, hp, hserial, hroute, hstop⟩
    have hload := hheld pl p hp (hserial.trans hn)
    rw [List.count_eq_zero.mpr hnot] at hload
    have hin : (s.client k).addr ∈ load pl p := List.count_pos_iff.mp (by omega)
    cases pl with
    | inbox q =>
      rcases hstop q rfl with ⟨slots, slot, hq, hslot, hps⟩
      simp only [load, hps, Option.toList_some, List.singleton_append, List.mem_cons] at hin
      rcases hin with hin | hin
      · exact Or.inr ⟨q, rfl, (hc.boxed hq hslot).2.2 k hin⟩
      · exact Or.inl (hroute ▸ hin)
    | hand t => exact Or.inl (hroute ▸ hin)

/-- In a run without full queues in which no client taken off the bus stands in the last entry of
`m_clients`, no path ever leads to the queue of a dying client, and every group message reaches
every member that stays connected. -/
theorem teardown_safe {tr : List (St Cmd × Lbl Cmd)} (hrun : Run step (St.init Cmd) tr s)
    (hlast : EveryStep NotLast tr) (hroom : EveryStep HasRoom tr) :
    Always NoPath tr s ∧
      ∀ s₁ t c g msg k, (s₁, .send t c g msg) ∈ tr → 0 < g → (s₁.bus.destination g).Nodup →
        (s₁.client k).isConnectedToBus → (s₁.client k).addr ∈ s₁.bus.destination g →
        (s.client k).addr = (s₁.client k).addr → Reaches s s₁.next k := by
  have hclosing := hrun.always Closing.init (fun _ _ _ h hl hs => h.preserved hl hs) hlast
  refine ⟨⟨fun p hp => (hclosing.1 p hp).noPath, hclosing.2.noPath⟩, ?_⟩
  intro s₁ t c g msg k hsend hpos hdistinct hconn hmem hstays
  have hc₁ : Closing s₁ := hclosing.1 _ hsend
  rcases hrun.split hsend with ⟨tr₁, tr₂, s₂, rfl, -, hstep, hlater⟩
  have hc₂ : Closing s₂ := hc₁.preserved (hlast _ hsend) hstep
  rcases send_group hpos hstep with ⟨-, rfl⟩
  have hfresh : ∀ e ∈ s₁.log, e.serial ≠ s₁.next := fun e he =>
    Nat.ne_of_lt (hc₁.ledger.fresh e he)
  rcases hc₁.sound.addr_neg hconn.2 with ⟨hgiven, hneg⟩
  have hkept : Kept s₁.next (s₁.bus.destination g) (s₁.client k).addr (s₁.send t c g msg) := by
    refine ⟨hc₂, by simp [St.send], hgiven, hneg, ?_, ?_⟩
    · intro why hm
      have hold : .missed (s₁.client k).addr why s₁.next ∈ s₁.log := by simpa [St.send] using hm
      exact absurd rfl (hfresh _ hold)
    · intro rest hm
      have hold : .retired rest s₁.next ∈ s₁.log := by simpa [St.send] using hm
      exact absurd rfl (hfresh _ hold)
  have hend := hlater.invariant hkept (fun _ _ _ h hC hs => h.preserved hC.1 hC.2 hs)
    (EveryStep.and (C := NotLast) (D := HasRoom) (fun p hp => hlast p (by simp [hp]))
      fun p hp => hroom p (by simp [hp]))
  rw [← hstays] at hend hmem
  exact hend.reaches hdistinct hmem

/-- Client 1, which is not in the last entry, is the first stop of the group. -/
def secondFirst : List (Lbl Unit) :=
  [.initializeClient 0 (some 7), .initializeClient 1 (some 8), .joinLookup 0 "fan" 1, .joinCheck 0,
    .joinSection 0, .joinLookup 0 "fan" 0, .joinCheck 0, .joinSection 0]

theorem secondFirst_enabled : (exec step (St.init Unit) secondFirst).isSome = true := by
  decide +kernel

def secondFirstSt : St Unit :=
  ((exec step (St.init Unit) secondFirst).get secondFirst_enabled).2

/-- It is destroyed with a message in its queue. -/
def destroyFirstStop : List (Lbl Unit) :=
  [.send 0 0 1 (), .sendNext 0, .destroy 1 1, .drain 1, .sendNext 1, .drain 1, .deleteQueue 1,
    .tryReceive 0 0, .sendNext 0]

theorem destroyFirstStop_enabled : (exec step secondFirstSt destroyFirstStop).isSome = true := by
  decide +kernel

/-- The message in the queue of the first stop reaches the other, which receives it from the
destructor. -/
theorem teardown_safe_first :
    ∃ tr s, Run step (St.init Unit) tr s ∧ tr.map Prod.snd = secondFirst ++ destroyFirstStop ∧
      received 0 s.log = [-1] ∧ Always NoPath tr s ∧ Reaches s 0 0 := by
  have hrun := (run_get step (St.init Unit) secondFirst secondFirst_enabled).append
    (run_get step secondFirstSt destroyFirstStop destroyFirstStop_enabled)
  have hsend : (secondFirstSt, Lbl.send 0 0 1 ()) ∈
      ((exec step secondFirstSt destroyFirstStop).get destroyFirstStop_enabled).1 :=
    List.mem_cons_self
  rcases teardown_safe hrun (by decide +kernel) (by decide +kernel) with ⟨hpath, hreach⟩
  refine ⟨_, _, hrun, by decide +kernel, by decide +kernel, hpath, ?_⟩
  exact hreach secondFirstSt 0 0 1 () 0 (List.mem_append_right _ hsend) (by decide)
    (by decide +kernel) (by decide +kernel) (by decide +kernel) (by decide +kernel)

/-- Client 0, in the last entry, is destroyed with an empty queue. -/
def destroyLast : List (Lbl Unit) :=
  [.destroy 0 0, .drain 0, .deleteQueue 0]

theorem destroyLast_enabled : (exec step twoMembersSt destroyLast).isSome = true := by
  decide +kernel

def lastDestroyedSt : St Unit :=
  ((exec step twoMembersSt destroyLast).get destroyLast_enabled).2

theorem sendAfterwards_enabled :
    (exec step lastDestroyedSt [.send 0 1 1 (), .sendNext 0]).isSome = true := by
  decide +kernel

/-- Its entry is still there: the next message for the group goes to the deleted queue, and client 1
never receives it. -/
theorem teardown_unsafe_last :
    ∃ tr s, Run step (St.init Unit) tr s ∧
      tr.map Prod.snd = twoMembers ++ (destroyLast ++ [.send 0 1 1 (), .sendNext 0]) ∧
      EveryStep HasRoom tr ∧ (lastDestroyedSt, .send 0 1 1 ()) ∈ tr ∧
      lastDestroyedSt.bus.destination 1 = [-2, -1] ∧
      lastDestroyedSt.client 1 = ⟨-2, some 8⟩ ∧ s.client 1 = ⟨-2, some 8⟩ ∧
      s.deadSends = [7] ∧ received 0 s.log = [] ∧ ¬ NoPath s ∧ ¬ Reaches s 0 1 := by
  have hrun := twoMembers_run.append ((run_get step twoMembersSt destroyLast
    destroyLast_enabled).append (run_get step lastDestroyedSt _ sendAfterwards_enabled))
  have hsend : (lastDestroyedSt, Lbl.send 0 1 1 ()) ∈
      ((exec step lastDestroyedSt [.send 0 1 1 (), .sendNext 0]).get sendAfterwards_enabled).1 :=
    List.mem_cons_self
  refine ⟨_, _, hrun, by decide +kernel, by decide +kernel,
    List.mem_append_right _ (List.mem_append_right _ hsend), by decide +kernel, by decide +kernel,
    by decide +kernel, by decide +kernel, by decide +kernel, fun h => ?_, fun h => ?_⟩
  · exact absurd h.dead_sends (by decide +kernel)
  · exact absurd h.not_left (by decide +kernel)

end EspAcDimmer
