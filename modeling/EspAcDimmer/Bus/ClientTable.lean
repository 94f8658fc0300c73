import EspAcDimmer.Bus.Clients

/-! # When the client table is exact

`m_clients` is meant to hold one entry for each connected client and no other. It does, with all
that follows for `resolve` and `connect`, exactly as long as no connected client is disconnected:
without an `erase`, every such disconnect leaves an entry too many.
-/

namespace EspAcDimmer

open Function StdList Lts

variable {Cmd : Type} {s s' : St Cmd} {l : Lbl Cmd} {c : ClientId}

/-- What the table is for. -/
structure TableExact (s : St Cmd) : Prop where
  entry : ∀ a h, (⟨a, h⟩ : Client) ∈ s.bus.clients ↔
    ∃ c, (s.client c).isConnectedToBus ∧ s.client c = ⟨a, some h⟩
  nodup : s.bus.clients.Nodup
  single : ∀ c c', (s.client c).isConnectedToBus → s.client c = s.client c' → c = c'
  resolve_owner : ∀ c, (s.client c).isConnectedToBus →
    ∃ h slots, (s.client c).queue = some h ∧ s.queue h = some slots ∧
      s.bus.resolve (s.client c).addr = some h
  resolve_other : ∀ a < 0, (∀ c, (s.client c).isConnectedToBus → (s.client c).addr ≠ a) →
    s.bus.resolve a = none
  reconnect : ∀ c, (s.client c).isConnectedToBus →
    s.bus.connect (s.client c) = (true, s.bus, s.client c)
  one_holder : ∀ c c' a, (c, a) ∈ s.handed → (c', a) ∈ s.handed → c = c'

/-- A disconnect leaves every other connected client and its entry as they were. -/
def DisconnectLocal (s : St Cmd) (l : Lbl Cmd) : Prop :=
  ∀ c ∈ l.disconnects, ∀ s', step s l = some s' →
    ∀ c' h, c' ≠ c → (s.client c').isConnectedToBus → (s.client c').queue = some h →
      s'.client c' = s.client c' ∧
      s'.bus.clients.count ⟨(s.client c').addr, h⟩ = s.bus.clients.count ⟨(s.client c').addr, h⟩

/-- The client the step disconnects, if any, is not connected. -/
def DisconnectsNobody (s : St Cmd) (l : Lbl Cmd) : Prop :=
  ∀ c ∈ l.disconnects, ¬ (s.client c).isConnectedToBus

instance (s : St Cmd) (l : Lbl Cmd) : Decidable (DisconnectsNobody s l) :=
  inferInstanceAs (Decidable (∀ c ∈ l.disconnects, ¬ (s.client c).isConnectedToBus))

/-- A tidy table without repetitions, in a run in which every address is still with the client it
was given to. -/
structure Exact (s : St Cmd) : Prop where
  sound : Sound s
  tidy : Tidy s
  nodup : s.bus.clients.Nodup
  held : ∀ {c a}, (c, a) ∈ s.handed → (s.client c).addr = a

theorem Exact.init : Exact (St.init Cmd) :=
  ⟨Sound.init, Tidy.init, by simp [St.init], by simp [St.init]⟩

theorem client_eq {a : BusAddr} {queue : Option QueueHandle} (ha : (s.client c).addr = a)
    (hq : (s.client c).queue = queue) : s.client c = ⟨a, queue⟩ := by
  rw [← ha, ← hq]

/-- A client is connected iff it has an address: it then has a queue as well. -/
theorem isConnectedToBus_iff (hs : Sound s) :
    (s.client c).isConnectedToBus ↔ (s.client c).addr ≠ 0 :=
  ⟨And.right, fun h => ⟨hs.addr_queue h, h⟩⟩

/-- In an exact state the table is what it is for. -/
theorem Exact.tableExact (he : Exact s) : TableExact s := by
  rcases he with ⟨hs, ht, hnodup, hheld⟩
  have hqueue : ∀ c, (s.client c).isConnectedToBus → ∃ h, (s.client c).queue = some h :=
    fun c hc => Option.isSome_iff_exists.mp hc.1
  constructor
  · intro a h
    constructor
    · intro hmem
      rcases ht.owned hmem with ⟨c, hq, ha⟩
      have hrange := hs.listed_range hmem
      have hne : (s.client c).addr ≠ 0 := by lia
      exact ⟨c, (isConnectedToBus_iff hs).mpr hne, client_eq ha hq⟩
    · rintro ⟨c, hc, he⟩
      have hmem := ht.listed (c := c) (h := h) (by rw [he]) hc.2
      rwa [he] at hmem
  · exact hnodup
  · intro c c' hc hcc
    exact ht.holder hc.2 (by rw [hcc])
  · -- `resolve_owner`: the entry is found, and its queue is live
    intro c hc
    rcases hqueue c hc with ⟨h, hq⟩
    rcases Option.isSome_iff_exists.mp (hs.queue_live hq) with ⟨slots, hslots⟩
    exact ⟨h, slots, hq, hslots, (ht.resolve_eq hs).mpr (ht.listed hq hc.2)⟩
  · -- `resolve_other`: whatever resolves has an owner
    intro a _ hnone
    cases hr : s.bus.resolve a with
    | none => rfl
    | some h =>
      have hmem := (ht.resolve_eq hs).mp hr
      rcases ht.owned hmem with ⟨c, -, ha⟩
      have hrange := hs.listed_range hmem
      have hne : (s.client c).addr ≠ 0 := by lia
      exact absurd ha (hnone c ((isConnectedToBus_iff hs).mpr hne))
  · -- `reconnect`: the search by queue meets an entry of the client
    intro c hc
    rcases hqueue c hc with ⟨h, hq⟩
    have hmem := ht.listed hq hc.2
    cases hf : s.bus.clients.find? fun other => h = other.queue with
    | none =>
      have := List.find?_eq_none.mp hf _ hmem
      simp at this
    | some e =>
      have hqe : h = e.queue := by simpa using List.find?_some hf
      have ha := ht.addr_of_entry hs (List.mem_of_find?_eq_some hf) (hqe ▸ hq)
      simp only [Bus.connect, hq, hf]
      rw [← ha, ← hq]
  · intro c c' a hc hc'
    have ha := hheld hc
    have hrange := hs.handed_range hc
    exact ht.holder (by lia) (ha.trans (hheld hc').symm)

/-- A disconnect of a client that is not connected does nothing. -/
theorem disconnect_unconnected (hs : Sound s) (ht : Tidy s)
    (hc : ¬ (s.client c).isConnectedToBus) : s.disconnect c = s := by
  have haddr : (s.client c).addr = 0 := by
    by_contra hne
    exact hc ((isConnectedToBus_iff hs).mpr hne)
  rcases s.disconnect_cases c with ⟨-, he⟩ | ⟨h, hq, he⟩
  · exact he
  · have hnone : ∀ e ∈ s.bus.clients, decide (h = e.queue) = false := by
      intro e hmem
      by_contra hno
      have hqe : h = e.queue := by simpa using hno
      have ha := ht.addr_of_entry hs hmem (hqe ▸ hq)
      have := hs.listed_range hmem
      lia
    have hself : s.setClient c ⟨BusAddrInvalid, some h⟩ = s := by
      rw [← client_eq haddr hq]
      simp [St.setClient]
    rw [he, removeIf_eq_self hnone, hself]

/-- The table after a step that disconnects a client. -/
theorem disconnects_fires (hf : Fires s l s') (hc : c ∈ l.disconnects) :
    s'.bus = (s.disconnect c).bus ∧ s'.client = (s.disconnect c).client := by
  cases hf with
  | disconnect =>
    obtain rfl := Option.some.inj hc
    exact ⟨rfl, rfl⟩
  | destroy =>
    obtain rfl := Option.some.inj hc
    exact ⟨St.destroy_bus _ _ _, St.destroy_client _ _ _⟩
  | quiet hl => cases l <;> simp [Lbl.mayReturn, Lbl.disconnects] at hl hc
  | _ => simp [Lbl.disconnects] at hc

/-- A client that is not connected is not in the last entry either. -/
theorem Exact.notLast (he : Exact s) (hl : DisconnectsNobody s l) : NotLast s l := by
  intro c hc last hlast hq
  have hmem : last ∈ s.bus.clients := List.mem_of_getLast? hlast
  have ha := he.tidy.addr_of_entry he.sound hmem hq
  have := he.sound.listed_range hmem
  exact hl c hc ((isConnectedToBus_iff he.sound).mpr (by lia))

/-- `connect` keeps an exact state: it adds one entry, or the client has one already. -/
theorem Exact.connect (he : Exact s) (hs : Sound (s.connect c)) (ht : Tidy (s.connect c)) :
    Exact (s.connect c) := by
  refine ⟨hs, ht, ?_, ?_⟩
  · rcases s.connect_cases c with ⟨-, heq⟩ | ⟨h, e, -, -, -, heq⟩ | ⟨h, -, hnew, heq⟩
    · rw [heq]
      exact he.nodup
    · rw [heq]
      exact he.nodup
    · rw [heq]
      exact List.nodup_cons.mpr ⟨fun hmem => hnew _ hmem rfl, he.nodup⟩
  · intro c' a ha
    rcases s.connect_cases c with ⟨-, heq⟩ | ⟨h, e, hq, hmem, rfl, heq⟩ | ⟨h, hq, hnew, heq⟩
    · rw [heq] at ha ⊢
      exact he.held ha
    · rw [heq] at ha ⊢
      have haddr := he.tidy.addr_of_entry he.sound hmem hq
      by_cases hc : c' = c
      · subst hc
        rcases List.mem_append.mp ha with ha | ha
        · simpa [← haddr] using he.held ha
        · obtain rfl : a = e.addr := by simpa using ha
          simp
      · have ha' : (c', a) ∈ s.handed := by simpa [hc] using ha
        simpa [hc] using he.held ha'
    · rw [heq] at ha ⊢
      by_cases hc : c' = c
      · subst hc
        rcases List.mem_append.mp ha with ha | ha
        · -- the client was not connected, so it had no address before
          have hrange := he.sound.handed_range ha
          have hold := he.held ha
          exact absurd rfl (hnew _ (he.tidy.listed hq (by lia)))
        · obtain rfl : a = s.bus.addrLast - 1 := by simpa using ha
          simp
      · have ha' : (c', a) ∈ s.handed := by simpa [hc] using ha
        simpa [hc] using he.held ha'

/-- A client that gets its queue is in no entry, and keeps its address. -/
theorem Exact.createQueue (he : Exact s) {h : QueueHandle} (halive : s.alive c = true)
    (hnone : (s.client c).queue = none) (hfree : s.queue h = none) :
    Exact (s.createQueue c h) := by
  refine ⟨he.sound.createQueue halive hnone hfree, he.tidy.createQueue he.sound hnone, he.nodup,
    fun {c' a} ha => ?_⟩
  by_cases hc : c' = c
  · subst hc
    simpa using he.held ha
  · simpa [hc] using he.held ha

/-- Step lemma: a step that disconnects nobody keeps the table exact. -/
theorem Exact.preserved (he : Exact s) (hl : DisconnectsNobody s l)
    (hstep : step s l = some s') : Exact s' := by
  have hs' := he.sound.preserved hstep
  have ht' := he.tidy.preserved he.sound (he.notLast hl) hstep
  cases tableMove_of_fires (fires_of_step hstep) with
  | same h =>
    refine ⟨hs', ht', by rw [h.clients]; exact he.nodup, ?_⟩
    intro c a ha
    rw [h.handed] at ha
    rw [h.client]
    exact he.held ha
  | @created c h halive hnone hfree =>
    have hcreated := he.createQueue halive hnone hfree
    exact hcreated.connect hs' ht'
  | connect _ => exact he.connect hs' ht'
  | @disconnect c _ =>
    rw [disconnect_unconnected he.sound he.tidy (hl c rfl)] at hs' ht' ⊢
    exact he
  | @destroy t c _ =>
    have hsame := disconnect_unconnected he.sound he.tidy (hl c rfl)
    refine ⟨hs', ht', by rw [St.destroy_bus, hsame]; exact he.nodup, ?_⟩
    intro c' a ha
    rw [St.destroy_handed] at ha
    rw [St.destroy_client, hsame]
    exact he.held ha
  | @deleted t c h htask hq =>
    refine ⟨hs', ht', he.nodup, ?_⟩
    intro c' a ha
    have hold := he.held ha
    by_cases hc : c' = c
    · subst hc
      simpa using hold
    · simpa [hc] using hold

/-- A disconnect of a connected client leaves a table that is not exact: the entries to keep are
too few to fill it. -/
theorem Exact.broken (hs : Sound s) (ht : Tidy s) (hc : (s.client c).isConnectedToBus)
    (hbus : s'.bus = (s.disconnect c).bus) (hclient : s'.client = (s.disconnect c).client) :
    ¬ TableExact s' := by
  intro hexact
  rcases Option.isSome_iff_exists.mp hc.1 with ⟨h, hq⟩
  rcases s.disconnect_cases c with ⟨hnone, -⟩ | ⟨h', hq', he⟩
  · simp [hq] at hnone
  · obtain rfl : h = h' := Option.some.inj (hq.symm.trans hq')
    have hclients : s'.bus.clients =
        removeIf (fun other : Client => h = other.queue) s.bus.clients := by
      rw [hbus, he]
    have hmem := ht.listed hq hc.2
    -- an exact table would be a list of distinct entries, none of them of the client
    refine removeIf_not_clean (p := fun other : Client => h = other.queue) hmem (by simp) ?_
    rw [← hclients]
    refine ⟨hexact.nodup, ?_⟩
    intro e hmem
    by_contra hno
    have hqe : h = e.queue := by simpa using hno
    rcases (hexact.entry e.addr e.queue).mp hmem with ⟨c', hc', hce⟩
    rw [hclient] at hc' hce
    have hs' : Sound (s.disconnect c) := hs.disconnect
    have hself : ((s.disconnect c).client c).queue = some h := by simp [he]
    obtain rfl : c' = c := hs'.queue_owner (h := h) (by rw [hce, hqe]) hself
    exact hc'.2 hs.disconnect_addr

/-- The table is exact in every state of a run, and every disconnect leaves the other clients
alone, iff no step of the run disconnects a connected client. -/
theorem clients_exact_iff {tr : List (St Cmd × Lbl Cmd)} (hrun : Run step (St.init Cmd) tr s) :
    (Always TableExact tr s ∧ EveryStep DisconnectLocal tr) ↔ EveryStep DisconnectsNobody tr := by
  have hiff : Always TableExact tr s ↔ EveryStep DisconnectsNobody tr := by
    refine hrun.always_iff_everyStep everyStep_true (I := Exact) Exact.init
      (fun _ h => h.tableExact) (fun _ _ _ he _ hl hstep => he.preserved hl hstep)
      fun s l s' he _ hl hstep => ?_
    -- the step that fails the condition is where exactness is lost
    simp only [DisconnectsNobody, not_forall, not_not] at hl
    rcases hl with ⟨c, hc, hconn⟩
    rcases disconnects_fires (fires_of_step hstep) hc with ⟨hbus, hclient⟩
    exact Exact.broken he.sound he.tidy hconn hbus hclient
  refine ⟨fun h => hiff.mp h.1, fun h => ⟨hiff.mpr h, ?_⟩⟩
  intro p hp c hc s' hstep c' q hne hconn hq
  rcases hrun.split hp with ⟨tr₁, tr₂, t, rfl, h₁, -, -⟩
  have he : Exact p.1 := by
    refine h₁.invariant (I := Exact) (C := DisconnectsNobody) Exact.init
      (fun _ _ _ he hl hstep => he.preserved hl hstep) fun q hq => h q (by simp [hq])
  -- nobody is disconnected, so nothing changes at all
  have hsame := disconnect_unconnected he.sound he.tidy (h p hp c hc)
  rcases disconnects_fires (fires_of_step hstep) hc with ⟨hbus, hclient⟩
  rw [hbus, hclient, hsame]
  exact ⟨rfl, rfl⟩

/-- Two clients connect, one of them twice, and a third that never did is destroyed. -/
theorem clients_exact_iff_three :
    ∃ tr s, Run step (St.init Unit) tr s ∧
      tr.map Prod.snd = [.initializeClient 0 (some 7), .initializeClient 1 (some 8), .connect 0,
        .disconnect 2, .destroy 0 3] ∧
      Always TableExact tr s ∧ EveryStep DisconnectLocal tr := by
  have hrun := run_get step (St.init Unit)
    [.initializeClient 0 (some 7), .initializeClient 1 (some 8), .connect 0,
      .disconnect 2, .destroy 0 3] (by decide)
  exact ⟨_, _, hrun, rfl, (clients_exact_iff hrun).mpr (by decide)⟩

/-- The entry of the only client stays in the table when the client disconnects. -/
theorem clients_not_exact_after_disconnect :
    ∃ tr s, Run step (St.init Unit) tr s ∧
      tr.map Prod.snd = [.initializeClient 0 (some 7), .disconnect 0] ∧
      s.bus.clients = [⟨-1, 7⟩] ∧ ¬ TableExact s := by
  have hrun := run_get step (St.init Unit)
    [.initializeClient 0 (some 7), .disconnect 0] (by decide)
  refine ⟨_, _, hrun, rfl, rfl, ?_⟩
  intro h
  rcases (h.entry (-1) 7).mp (by decide) with ⟨c, ⟨-, hne⟩, hc⟩
  -- the only client that ever had an address has none now
  have hhanded := (Sound.run hrun).addr_handed hne
  obtain rfl : c = 0 := (Prod.mk.inj (List.mem_singleton.mp hhanded)).1
  exact absurd hc (by decide)

end EspAcDimmer
