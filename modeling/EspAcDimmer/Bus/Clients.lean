import EspAcDimmer.Bus.System

/-! # The client table

What every run keeps about clients, their queues and their addresses (`Sound`), what a run keeps
as long as no disconnect finds its client in the last entry of `m_clients` (`Tidy`), and when the
table lists exactly the connected clients (`TableExact`).

`Bus::disconnect` calls `std::remove_if` without `erase`, so it takes an entry away only by
duplicating the last one, and takes nothing away from the last one itself.
-/

namespace EspAcDimmer

open Function StdList

variable {Cmd : Type} {s s' : St Cmd} {l : Lbl Cmd} {c : ClientId}

/-! ## Steps that leave the table alone -/

structure SameTables (s s' : St Cmd) : Prop where
  clients : s'.bus.clients = s.bus.clients
  addrLast : s'.bus.addrLast = s.bus.addrLast
  client : s'.client = s.client
  alive : s'.alive = s.alive
  handed : s'.handed = s.handed
  live : ∀ h, (s'.queue h).isSome = (s.queue h).isSome
  destroying : ∀ t c, (s'.task t).destroying = some c → ∃ t', (s.task t').destroying = some c

/-- A step as the client table sees it. -/
inductive TableMove (s : St Cmd) : Lbl Cmd → St Cmd → Prop where
  | same {l : Lbl Cmd} {s' : St Cmd} (h : SameTables s s') : TableMove s l s'
  | created {c : ClientId} {h : QueueHandle} (halive : s.alive c = true)
      (hnone : (s.client c).queue = none) (hfree : s.queue h = none) :
      TableMove s (.initializeClient c (some h)) ((s.createQueue c h).connect c)
  | connect {c : ClientId} (halive : s.alive c = true) : TableMove s (.connect c) (s.connect c)
  | disconnect {c : ClientId} (halive : s.alive c = true) :
      TableMove s (.disconnect c) (s.disconnect c)
  | destroy {t : TaskId} {c : ClientId} (halive : s.alive c = true) :
      TableMove s (.destroy t c) (s.destroy t c)
  | deleted {t : TaskId} {c : ClientId} {h : QueueHandle}
      (htask : (s.task t).destroying = some c) (hqueue : (s.client c).queue = some h) :
      TableMove s (.deleteQueue t) (s.freeQueue t c h)

/-- A task that changes its place does not start a destructor, unless it is in one already. -/
theorem destroying_update {t : TaskId} {v : Task Cmd}
    (hv : ∀ c, v.destroying = some c → (s.task t).destroying = some c) :
    ∀ t' c, (update s.task t v t').destroying = some c →
      ∃ t'', (s.task t'').destroying = some c := by
  intro t' c h
  by_cases ht : t' = t
  · subst ht
    rw [update_self] at h
    exact ⟨t', hv c h⟩
  · rw [update_of_ne ht] at h
    exact ⟨t', h⟩

/-- A live queue that gets other contents is still live. -/
theorem live_update {h : QueueHandle} {slots slots' : List (Slot Cmd)}
    (hslots : s.queue h = some slots) (h' : QueueHandle) :
    (update s.queue h (some slots') h').isSome = (s.queue h').isSome := by
  by_cases hh : h' = h
  · subst hh
    simp [hslots]
  · rw [update_of_ne hh]

/-- A destructor stays one when it has sent a message. -/
theorem afterSend_destroying {t : TaskId} {stop : Option BusAddr} {m : BusMsg Cmd}
    (hhand : (s.task t).inHand = some (stop, m)) (c : ClientId)
    (h : (s.task t).afterSend.destroying = some c) : (s.task t).destroying = some c := by
  cases htask : s.task t <;> simp_all [Task.inHand, Task.afterSend, Task.destroying]

/-- The section that looks a group up leaves the client table alone. -/
theorem joinLookup_clients (bus : Bus) (addrName : String) :
    (bus.joinLookup addrName).2.clients = bus.clients ∧
      (bus.joinLookup addrName).2.addrLast = bus.addrLast := by
  unfold Bus.joinLookup
  split <;> simp

/-- So does handing a message on. -/
theorem sendToNextClient_same {t : TaskId} {stop : Option BusAddr} {m : BusMsg Cmd}
    (hhand : (s.task t).inHand = some (stop, m)) : SameTables s (s.sendToNextClient t m) := by
  have htask := destroying_update (afterSend_destroying hhand)
  rcases s.sendToNextClient_cases t m with ⟨-, he⟩ | ⟨a, q, rest, -, -, he⟩ |
    ⟨a, q, rest, slots, -, hslots, -, he⟩ | ⟨a, q, rest, slots, -, -, -, he⟩
  · rw [he]; exact ⟨rfl, rfl, rfl, rfl, rfl, fun _ => rfl, htask⟩
  · rw [he]; exact ⟨rfl, rfl, rfl, rfl, rfl, fun _ => rfl, htask⟩
  · rw [he]; exact ⟨rfl, rfl, rfl, rfl, rfl, live_update hslots, htask⟩
  · rw [he]; exact ⟨rfl, rfl, rfl, rfl, rfl, fun _ => rfl, htask⟩

/-- Every step is one of the moves that the table sees. -/
theorem tableMove_of_fires (hf : Fires s l s') : TableMove s l s' := by
  -- most steps only move their task
  have hmove : ∀ {t : TaskId} {v : Task Cmd}, v.destroying = none →
      ∀ t' c, (update s.task t v t').destroying = some c →
        ∃ t'', (s.task t'').destroying = some c :=
    fun hv => destroying_update (by simp [hv])
  cases hf with
  | quiet => exact .same ⟨rfl, rfl, rfl, rfl, rfl, fun _ => rfl, fun t c h => ⟨t, h⟩⟩
  | created halive hnone hfree => exact .created halive hnone hfree
  | connect halive => exact .connect halive
  | disconnect halive => exact .disconnect halive
  | joinLookup =>
    rcases joinLookup_clients s.bus _ with ⟨hclients, hlast⟩
    exact .same ⟨hclients, hlast, rfl, rfl, rfl, fun _ => rfl, hmove rfl⟩
  | joinPassed => exact .same ⟨rfl, rfl, rfl, rfl, rfl, fun _ => rfl, hmove rfl⟩
  | joinRefused => exact .same ⟨rfl, rfl, rfl, rfl, rfl, fun _ => rfl, hmove rfl⟩
  | joinSection => exact .same ⟨rfl, rfl, rfl, rfl, rfl, fun _ => rfl, hmove rfl⟩
  | leaveLookup => exact .same ⟨rfl, rfl, rfl, rfl, rfl, fun _ => rfl, hmove rfl⟩
  | leavePassed => exact .same ⟨rfl, rfl, rfl, rfl, rfl, fun _ => rfl, hmove rfl⟩
  | leaveRefused => exact .same ⟨rfl, rfl, rfl, rfl, rfl, fun _ => rfl, hmove rfl⟩
  | leaveSection => exact .same ⟨rfl, rfl, rfl, rfl, rfl, fun _ => rfl, hmove rfl⟩
  | send => exact .same ⟨rfl, rfl, rfl, rfl, rfl, fun _ => rfl, hmove rfl⟩
  | sendNext hhand => exact .same (sendToNextClient_same hhand)
  | received _ _ _ hslots =>
    exact .same ⟨rfl, rfl, rfl, rfl, rfl, live_update hslots, hmove rfl⟩
  | destroy _ halive => exact .destroy halive
  | popped htask _ hslots =>
    refine .same ⟨rfl, rfl, rfl, rfl, rfl, live_update hslots, destroying_update ?_⟩
    simp [htask, Task.destroying]
  | drained htask =>
    refine .same ⟨rfl, rfl, rfl, rfl, rfl, fun _ => rfl, destroying_update ?_⟩
    simp [htask, Task.destroying]
  | deleteQueue htask hqueue => exact .deleted (by simp [htask, Task.destroying]) hqueue

/-! ## What every run keeps -/

/-- Queues are live and have one owner, addresses lie in the range `connect` has handed out. -/
structure Sound (s : St Cmd) : Prop where
  queue_live : ∀ {c h}, (s.client c).queue = some h → (s.queue h).isSome = true
  queue_owner : ∀ {c c' h}, (s.client c).queue = some h → (s.client c').queue = some h → c = c'
  addr_queue : ∀ {c}, (s.client c).addr ≠ 0 → (s.client c).queue.isSome = true
  addr_handed : ∀ {c}, (s.client c).addr ≠ 0 → (c, (s.client c).addr) ∈ s.handed
  handed_range : ∀ {c a}, (c, a) ∈ s.handed → s.bus.addrLast ≤ a ∧ a < 0
  listed_range : ∀ {e}, e ∈ s.bus.clients → s.bus.addrLast ≤ e.addr ∧ e.addr < 0
  last_le : s.bus.addrLast ≤ 0
  dead_addr : ∀ {c}, s.alive c = false → (s.client c).addr = 0
  destroying : ∀ {t c}, (s.task t).destroying = some c → s.alive c = false

theorem Sound.init : Sound (St.init Cmd) := by
  constructor <;> simp [St.init, Task.destroying]

/-- Addresses of clients are negative, and not beyond the last one handed out. -/
theorem Sound.addr_neg (hs : Sound s) (h : (s.client c).addr ≠ 0) :
    s.bus.addrLast ≤ (s.client c).addr ∧ (s.client c).addr < 0 :=
  hs.handed_range (hs.addr_handed h)

/-- What leaves the table alone keeps it sound. -/
theorem Sound.same (hs : Sound s) (h : SameTables s s') : Sound s' := by
  rcases h with ⟨hclients, hlast, hclient, halive, hhanded, hlive, hdestroying⟩
  constructor
  · intro c q hq
    rw [hclient] at hq
    rw [hlive]
    exact hs.queue_live hq
  · intro c c' q hq hq'
    rw [hclient] at hq hq'
    exact hs.queue_owner hq hq'
  · intro c hc
    rw [hclient] at hc ⊢
    exact hs.addr_queue hc
  · intro c hc
    rw [hclient] at hc ⊢
    rw [hhanded]
    exact hs.addr_handed hc
  · intro c a ha
    rw [hhanded] at ha
    rw [hlast]
    exact hs.handed_range ha
  · intro e he
    rw [hclients] at he
    rw [hlast]
    exact hs.listed_range he
  · rw [hlast]
    exact hs.last_le
  · intro c hc
    rw [halive] at hc
    rw [hclient]
    exact hs.dead_addr hc
  · intro t c ht
    rcases hdestroying t c ht with ⟨t', ht'⟩
    rw [halive]
    exact hs.destroying ht'

/-- A client without a queue has no address either. -/
theorem Sound.addr_of_no_queue (hs : Sound s) (h : (s.client c).queue = none) :
    (s.client c).addr = 0 := by
  by_contra hne
  simpa [h] using hs.addr_queue hne

/-- A new queue has one owner. -/
theorem Sound.createQueue (hs : Sound s) {h : QueueHandle} (halive : s.alive c = true)
    (hnone : (s.client c).queue = none) (hfree : s.queue h = none) :
    Sound (s.createQueue c h) := by
  have haddr := hs.addr_of_no_queue hnone
  -- nobody has a handle that no queue has
  have hunused : ∀ c', (s.client c').queue ≠ some h := fun c' hc' => by
    simpa [hfree] using hs.queue_live hc'
  have hclient : ∀ c', c' ≠ c → (s.createQueue c h).client c' = s.client c' := fun c' hc' => by
    simp [hc']
  have hself : (s.createQueue c h).client c = ⟨0, some h⟩ := by simp [haddr]
  constructor
  · intro c' q hq
    by_cases hc : c' = c
    · -- the new queue is live
      subst hc
      obtain rfl : h = q := by simpa [hself] using hq
      simp
    · rw [hclient c' hc] at hq
      by_cases hqh : q = h
      · exact absurd (hqh ▸ hq) (hunused c')
      · simpa [hqh] using hs.queue_live hq
  · intro c₁ c₂ q hq₁ hq₂
    by_cases h₁ : c₁ = c <;> by_cases h₂ : c₂ = c
    · rw [h₁, h₂]
    · subst h₁
      obtain rfl : h = q := by simpa [hself] using hq₁
      exact absurd (hclient c₂ h₂ ▸ hq₂) (hunused c₂)
    · subst h₂
      obtain rfl : h = q := by simpa [hself] using hq₂
      exact absurd (hclient c₁ h₁ ▸ hq₁) (hunused c₁)
    · rw [hclient c₁ h₁] at hq₁
      rw [hclient c₂ h₂] at hq₂
      exact hs.queue_owner hq₁ hq₂
  · intro c' hc'
    by_cases hc : c' = c
    · subst hc
      rw [hself]
      rfl
    · rw [hclient c' hc] at hc' ⊢
      exact hs.addr_queue hc'
  · intro c' hc'
    by_cases hc : c' = c
    · subst hc
      rw [hself] at hc'
      exact absurd rfl hc'
    · rw [hclient c' hc] at hc' ⊢
      exact hs.addr_handed hc'
  · exact hs.handed_range
  · exact hs.listed_range
  · exact hs.last_le
  · intro c' hc'
    by_cases hc : c' = c
    · subst hc
      rw [hself]
    · rw [hclient c' hc]
      exact hs.dead_addr hc'
  · exact hs.destroying

/-- A client is given an address in range, and it is recorded. -/
theorem Sound.give (hs : Sound s) {h : QueueHandle} {a : BusAddr} {bus : Bus}
    (halive : s.alive c = true) (hq : (s.client c).queue = some h)
    (hlast : bus.addrLast ≤ s.bus.addrLast) (ha : bus.addrLast ≤ a ∧ a < 0)
    (hlisted : ∀ e ∈ bus.clients, bus.addrLast ≤ e.addr ∧ e.addr < 0) :
    Sound { s.setClient c ⟨a, some h⟩ with bus := bus, handed := s.handed ++ [(c, a)] } := by
  -- queues stay with their clients, so only the facts about addresses are at stake
  have hqueue : ∀ c', (update s.client c ⟨a, some h⟩ c').queue = (s.client c').queue := by
    intro c'
    by_cases hc : c' = c
    · subst hc; simp [hq]
    · rw [update_of_ne hc]
  constructor
  · intro c' q hq'
    exact hs.queue_live (hqueue c' ▸ hq')
  · intro c₁ c₂ q h₁ h₂
    exact hs.queue_owner (hqueue c₁ ▸ h₁) (hqueue c₂ ▸ h₂)
  · intro c' hc'
    by_cases hc : c' = c
    · subst hc; simp
    · simp only [St.setClient_client, update_of_ne hc] at hc' ⊢
      exact hs.addr_queue hc'
  · intro c' hc'
    by_cases hc : c' = c
    · subst hc; simp
    · simp only [St.setClient_client, update_of_ne hc] at hc' ⊢
      exact List.mem_append_left _ (hs.addr_handed hc')
  · intro c' a' ha'
    rcases List.mem_append.mp ha' with ha' | ha'
    · exact ⟨Int.le_trans hlast (hs.handed_range ha').1, (hs.handed_range ha').2⟩
    · obtain ⟨rfl, rfl⟩ : c' = c ∧ a' = a := by simpa using ha'
      exact ha
  · intro e he
    exact hlisted e he
  · exact Int.le_trans hlast hs.last_le
  · intro c' hc'
    have hc : c' ≠ c := fun hc => by
      subst hc
      simp [halive] at hc'
    simp only [St.setClient_client, update_of_ne hc]
    exact hs.dead_addr hc'
  · exact hs.destroying

/-- `connect` hands out an address that nobody has. -/
theorem Sound.connect (hs : Sound s) (halive : s.alive c = true) : Sound (s.connect c) := by
  have hlast := hs.last_le
  rcases s.connect_cases c with ⟨-, he⟩ | ⟨h, e, hq, hmem, -, he⟩ | ⟨h, hq, -, he⟩
  · rwa [he]
  · -- the address of the entry that was found
    rw [he]
    exact hs.give halive hq (Int.le_refl _) (hs.listed_range hmem) fun e he => hs.listed_range he
  · -- a new one, below all that were given before
    rw [he]
    refine hs.give halive hq (Int.sub_le_self _ (by decide)) ⟨Int.le_refl _, by lia⟩ ?_
    intro e he
    rcases List.mem_cons.mp he with rfl | he
    · exact ⟨Int.le_refl _, by lia⟩
    · have hrange := hs.listed_range he
      exact ⟨by lia, hrange.2⟩

/-- `disconnect` takes an address away, and no queue. -/
theorem Sound.disconnect (hs : Sound s) : Sound (s.disconnect c) := by
  rcases s.disconnect_cases c with ⟨-, he⟩ | ⟨h, hq, he⟩
  · rwa [he]
  · rw [he]
    have hqueue : ∀ c', (update s.client c ⟨BusAddrInvalid, some h⟩ c').queue =
        (s.client c').queue := by
      intro c'
      by_cases hc : c' = c
      · subst hc; simp [hq]
      · rw [update_of_ne hc]
    constructor
    · intro c' q hq'
      exact hs.queue_live (hqueue c' ▸ hq')
    · intro c₁ c₂ q h₁ h₂
      exact hs.queue_owner (hqueue c₁ ▸ h₁) (hqueue c₂ ▸ h₂)
    · intro c' hc'
      by_cases hc : c' = c
      · subst hc; simp
      · simp only [St.setClient_client, update_of_ne hc] at hc' ⊢
        exact hs.addr_queue hc'
    · intro c' hc'
      by_cases hc : c' = c
      · subst hc; simp at hc'
      · simp only [St.setClient_client, update_of_ne hc] at hc' ⊢
        exact hs.addr_handed hc'
    · exact hs.handed_range
    · -- whatever `remove_if` leaves in the table was there before
      exact fun he => hs.listed_range (mem_of_mem_removeIf he)
    · exact hs.last_le
    · intro c' hc'
      by_cases hc : c' = c
      · subst hc; simp
      · simp only [St.setClient_client, update_of_ne hc]
        exact hs.dead_addr hc'
    · exact hs.destroying

/-- After `disconnect` its client has no address, whatever became of the entry. -/
theorem Sound.disconnect_addr (hs : Sound s) : ((s.disconnect c).client c).addr = 0 := by
  rcases s.disconnect_cases c with ⟨hq, he⟩ | ⟨h, -, he⟩
  · rw [he]
    exact hs.addr_of_no_queue hq
  · simp [he]

/-- A client without an address may die. -/
theorem Sound.kill (hs : Sound s) (haddr : (s.client c).addr = 0) :
    Sound { s with alive := update s.alive c false } := by
  refine ⟨hs.queue_live, hs.queue_owner, hs.addr_queue, hs.addr_handed, hs.handed_range,
    hs.listed_range, hs.last_le, fun {c'} hc' => ?_, fun {t c'} ht => ?_⟩
  · by_cases hc : c' = c
    · rw [hc, haddr]
    · simp only [update_of_ne hc] at hc'
      exact hs.dead_addr hc'
  · by_cases hc : c' = c
    · subst hc; simp
    · simp only [update_of_ne hc]
      exact hs.destroying ht

/-- A task may go where it runs the destructor of a dead client only. -/
theorem Sound.setTask (hs : Sound s) {t : TaskId} {v : Task Cmd}
    (hv : ∀ c, v.destroying = some c → s.alive c = false) : Sound (s.setTask t v) := by
  refine ⟨hs.queue_live, hs.queue_owner, hs.addr_queue, hs.addr_handed, hs.handed_range,
    hs.listed_range, hs.last_le, hs.dead_addr, fun {t' c} ht' => ?_⟩
  by_cases ht : t' = t
  · subst ht
    rw [St.setTask_task, update_self] at ht'
    exact hv c ht'
  · rw [St.setTask_task, update_of_ne ht] at ht'
    exact hs.destroying ht'

/-- A destructor begins with a disconnect. -/
theorem Sound.destroy (hs : Sound s) {t : TaskId} : Sound (s.destroy t c) := by
  have hkill := (hs.disconnect (c := c)).kill hs.disconnect_addr
  unfold St.destroy
  split
  · apply hkill.setTask
    intro c' hc'
    obtain rfl : c = c' := Option.some.inj hc'
    simp
  · exact hkill

/-- A queue that is deleted leaves its owner. -/
theorem Sound.freeQueue (hs : Sound s) {t : TaskId} {h : QueueHandle}
    (htask : (s.task t).destroying = some c) (hq : (s.client c).queue = some h) :
    Sound (s.freeQueue t c h) := by
  have haddr := hs.dead_addr (hs.destroying htask)
  have hclient : ∀ c', c' ≠ c → (s.freeQueue t c h).client c' = s.client c' := fun c' hc' => by
    simp [hc']
  constructor
  · intro c' q hq'
    by_cases hc : c' = c
    · subst hc; simp at hq'
    · rw [hclient c' hc] at hq'
      -- the queue that goes is nobody else's
      have hqh : q ≠ h := fun hqh => hc (hs.queue_owner (hqh ▸ hq') hq)
      simpa [hqh] using hs.queue_live hq'
  · intro c₁ c₂ q h₁ h₂
    by_cases hc₁ : c₁ = c
    · subst hc₁; simp at h₁
    · by_cases hc₂ : c₂ = c
      · subst hc₂; simp at h₂
      · rw [hclient c₁ hc₁] at h₁
        rw [hclient c₂ hc₂] at h₂
        exact hs.queue_owner h₁ h₂
  · intro c' hc'
    by_cases hc : c' = c
    · subst hc; simp [haddr] at hc'
    · rw [hclient c' hc] at hc' ⊢
      exact hs.addr_queue hc'
  · intro c' hc'
    by_cases hc : c' = c
    · subst hc; simp [haddr] at hc'
    · rw [hclient c' hc] at hc' ⊢
      exact hs.addr_handed hc'
  · exact hs.handed_range
  · exact hs.listed_range
  · exact hs.last_le
  · intro c' hc'
    by_cases hc : c' = c
    · subst hc; simp [haddr]
    · rw [hclient c' hc]
      exact hs.dead_addr hc'
  · intro t' c' ht'
    by_cases ht : t' = t
    · subst ht; simp [Task.destroying] at ht'
    · rw [St.freeQueue_task, update_of_ne ht] at ht'
      exact hs.destroying ht'

/-- Step lemma: no step loses soundness. -/
theorem Sound.preserved (hs : Sound s) (hstep : step s l = some s') : Sound s' := by
  cases tableMove_of_fires (fires_of_step hstep) with
  | same h => exact hs.same h
  | created halive hnone hfree => exact (hs.createQueue halive hnone hfree).connect halive
  | connect halive => exact hs.connect halive
  | disconnect _ => exact hs.disconnect
  | destroy _ => exact hs.destroy
  | deleted htask hq => exact hs.freeQueue htask hq

/-- Every state of every run is sound. -/
theorem Sound.run {tr : List (St Cmd × Lbl Cmd)} (hrun : Lts.Run step (St.init Cmd) tr s) :
    Sound s :=
  hrun.invariant Sound.init (fun _ _ _ hs _ hstep => hs.preserved hstep) Lts.everyStep_true

/-! ## Tidy tables -/

/-- The client the step disconnects, if any, is not the one in the last entry of the table. -/
def NotLast (s : St Cmd) (l : Lbl Cmd) : Prop :=
  ∀ c ∈ l.disconnects, ∀ last ∈ s.bus.clients.getLast?, (s.client c).queue ≠ some last.queue

instance (s : St Cmd) (l : Lbl Cmd) : Decidable (NotLast s l) :=
  inferInstanceAs (Decidable (∀ c ∈ l.disconnects, ∀ last ∈ s.bus.clients.getLast?,
    (s.client c).queue ≠ some last.queue))

/-- Every entry is that of a connected client, and only the last entry can be repeated. -/
structure Tidy (s : St Cmd) : Prop where
  owned : ∀ {e}, e ∈ s.bus.clients →
    ∃ c, (s.client c).queue = some e.queue ∧ (s.client c).addr = e.addr
  listed : ∀ {c h}, (s.client c).queue = some h → (s.client c).addr ≠ 0 →
    ⟨(s.client c).addr, h⟩ ∈ s.bus.clients
  once : ∀ {last h}, s.bus.clients.getLast? = some last → h ≠ last.queue →
    s.bus.clients.countP (fun other => h = other.queue) ≤ 1
  holder : ∀ {c c'}, (s.client c).addr ≠ 0 → (s.client c).addr = (s.client c').addr → c = c'

theorem Tidy.init : Tidy (St.init Cmd) := by
  constructor <;> simp [St.init]

/-- The entries of one address are copies of each other. -/
theorem Tidy.entry_unique (ht : Tidy s) (hs : Sound s) {e e' : Client}
    (he : e ∈ s.bus.clients) (he' : e' ∈ s.bus.clients) (h : e.addr = e'.addr) : e = e' := by
  rcases ht.owned he with ⟨c, hq, ha⟩
  rcases ht.owned he' with ⟨c', hq', ha'⟩
  have hne : (s.client c).addr ≠ 0 := by
    have := hs.listed_range he
    lia
  -- one client has the address, and it has one queue
  obtain rfl : c = c' := ht.holder hne (by rw [ha, ha', h])
  rcases e with ⟨a, q⟩
  rcases e' with ⟨a', q'⟩
  have hqq : q = q' := Option.some.inj (hq.symm.trans hq')
  simp only at h
  rw [h, hqq]

/-- The owner of an entry's queue holds the entry's address. -/
theorem Tidy.addr_of_entry (ht : Tidy s) (hs : Sound s) {e : Client} (he : e ∈ s.bus.clients)
    (hq : (s.client c).queue = some e.queue) : (s.client c).addr = e.addr := by
  rcases ht.owned he with ⟨c', hq', ha'⟩
  rw [hs.queue_owner hq hq', ha']

/-- What leaves the table alone keeps it tidy. -/
theorem Tidy.same (ht : Tidy s) (h : SameTables s s') : Tidy s' := by
  rcases h with ⟨hclients, -, hclient, -, -, -, -⟩
  rcases ht with ⟨h₁, h₂, h₃, h₄⟩
  constructor <;> simpa only [hclients, hclient]

/-- A client that gets its queue is in no entry yet. -/
theorem Tidy.createQueue (ht : Tidy s) (hs : Sound s) {h : QueueHandle}
    (hnone : (s.client c).queue = none) : Tidy (s.createQueue c h) := by
  have haddr := hs.addr_of_no_queue hnone
  have hclient : ∀ c', c' ≠ c → (s.createQueue c h).client c' = s.client c' := fun c' hc' => by
    simp [hc']
  have hself : (s.createQueue c h).client c = ⟨0, some h⟩ := by simp [haddr]
  have haddr' : ∀ c', ((s.createQueue c h).client c').addr = (s.client c').addr := by
    intro c'
    by_cases hc : c' = c
    · rw [hc, hself, haddr]
    · rw [hclient c' hc]
  constructor
  · -- the client is new to the table: without a queue it owned no entry
    intro e he
    rcases ht.owned he with ⟨c', hq, ha⟩
    have hc : c' ≠ c := fun hc => by simp [hc, hnone] at hq
    exact ⟨c', by rw [hclient c' hc, hq], by rw [hclient c' hc, ha]⟩
  · intro c' q hq ha
    rw [haddr'] at ha ⊢
    have hc : c' ≠ c := fun hc => ha (hc ▸ haddr)
    rw [hclient c' hc] at hq
    exact ht.listed hq ha
  · exact ht.once
  · intro c₁ c₂ h₁ h₂
    rw [haddr'] at h₁ h₂
    rw [haddr'] at h₂
    exact ht.holder h₁ h₂

/-- A connect that finds an entry changes no client; one that does not adds a fresh entry. -/
theorem Tidy.connect (ht : Tidy s) (hs : Sound s) : Tidy (s.connect c) := by
  rcases s.connect_cases c with ⟨-, he⟩ | ⟨h, e, hq, hmem, rfl, he⟩ | ⟨h, hq, hnew, he⟩
  · rwa [he]
  · -- the entry that was found holds the address the client has
    have hsame : s.setClient c ⟨e.addr, some e.queue⟩ = s := by
      rw [← ht.addr_of_entry hs hmem hq, ← hq]
      simp [St.setClient]
    rw [he, hsame]
    exact ⟨ht.owned, ht.listed, ht.once, ht.holder⟩
  · rw [he]
    have hlast := hs.last_le
    have hfree : (s.client c).addr = 0 := by
      by_contra hne
      exact hnew _ (ht.listed hq hne) rfl
    -- nobody has the new address yet
    have hold : ∀ c', (s.client c').addr ≠ s.bus.addrLast - 1 := fun c' hc' => by
      have := hs.addr_neg (c := c') (by lia)
      lia
    constructor
    · intro e hmem
      rcases List.mem_cons.mp hmem with rfl | hmem
      · exact ⟨c, by simp, by simp⟩
      · rcases ht.owned hmem with ⟨c', hq', ha'⟩
        have hc : c' ≠ c := fun hc => by
          have := hs.listed_range hmem
          rw [hc, hfree] at ha'
          lia
        exact ⟨c', by simp [hc, hq'], by simp [hc, ha']⟩
    · intro c' q hq' ha'
      by_cases hc : c' = c
      · subst hc
        obtain rfl : h = q := by simpa using hq'
        simp
      · simp only [St.setClient_client, update_of_ne hc] at hq' ha' ⊢
        exact List.mem_cons_of_mem _ (ht.listed hq' ha')
    · -- only the last entry can be repeated, and the new one is in front
      intro last q hl hne
      simp only [List.countP_cons]
      cases hclients : s.bus.clients with
      | nil =>
        obtain rfl : (⟨s.bus.addrLast - 1, h⟩ : Client) = last := by simpa [hclients] using hl
        simp [hne]
      | cons e es =>
        rw [← hclients]
        have hl' : s.bus.clients.getLast? = some last := by
          rw [hclients] at hl ⊢
          simpa using hl
        have hcount := ht.once hl' hne
        by_cases hqh : q = h
        · subst hqh
          have hzero : s.bus.clients.countP (fun other => q = other.queue) = 0 := by
            rw [List.countP_eq_zero]
            intro e' he'
            simpa [eq_comm] using hnew e' he'
          simp [hzero]
        · simpa [hqh] using hcount
    · intro c₁ c₂ h₁ h₂
      by_cases hc₁ : c₁ = c <;> by_cases hc₂ : c₂ = c
      · rw [hc₁, hc₂]
      · simp only [St.setClient_client, hc₁, update_self, update_of_ne hc₂] at h₂
        exact absurd h₂.symm (hold c₂)
      · simp only [St.setClient_client, hc₂, update_self, update_of_ne hc₁] at h₂
        exact absurd h₂ (hold c₁)
      · simp only [St.setClient_client, update_of_ne hc₁, update_of_ne hc₂] at h₁ h₂
        exact ht.holder h₁ h₂

/-- Where `disconnect` can meet its client in the table, and not in the last entry, no entry of
the client is left. -/
theorem Tidy.disconnect (ht : Tidy s) (hs : Sound s)
    (hlast : ∀ last ∈ s.bus.clients.getLast?, (s.client c).queue ≠ some last.queue) :
    Tidy (s.disconnect c) ∧
      ∀ e ∈ (s.disconnect c).bus.clients, (s.client c).queue ≠ some e.queue := by
  rcases s.disconnect_cases c with ⟨hq, he⟩ | ⟨h, hq, he⟩
  · rw [he]
    exact ⟨ht, fun e _ => by simp [hq]⟩
  · rw [he]
    -- `remove_if` leaves copies of the last entry behind, and this one is not the last
    have hgone : ∀ e ∈ removeIf (fun other : Client => h = other.queue) s.bus.clients,
        h ≠ e.queue := by
      intro e hmem
      cases hl : s.bus.clients.getLast? with
      | none =>
        have hnil := List.getLast?_eq_none_iff.mp hl
        simp [hnil, removeIf] at hmem
      | some last =>
        have hne : h ≠ last.queue := fun hh => hlast last hl (hh ▸ hq)
        simpa using not_mem_removeIf hl (by simpa using hne) (ht.once hl hne) e hmem
    refine ⟨?_, fun e hmem => by simpa [hq] using hgone e hmem⟩
    constructor
    · intro e hmem
      rcases ht.owned (mem_of_mem_removeIf hmem) with ⟨c', hq', ha'⟩
      have hc : c' ≠ c := fun hc => by
        rw [hc, hq] at hq'
        exact hgone e hmem (Option.some.inj hq')
      exact ⟨c', by simp [hc, hq'], by simp [hc, ha']⟩
    · intro c' q hq' ha'
      by_cases hc : c' = c
      · subst hc
        simp at ha'
      · simp only [St.setClient_client, update_of_ne hc] at hq' ha' ⊢
        have hne : h ≠ q := fun hh => hc (hs.queue_owner (hh ▸ hq') hq)
        exact (mem_removeIf_of_not (by simpa using hne)).mpr (ht.listed hq' ha')
    · -- the last entry stays the last, and the others do not multiply
      intro last q hl hne
      cases hl' : s.bus.clients.getLast? with
      | none =>
        have hnil := List.getLast?_eq_none_iff.mp hl'
        simp [hnil, removeIf] at hl
      | some last' =>
        have hne' : h ≠ last'.queue := fun hh => hlast last' hl' (hh ▸ hq)
        have hkept := getLast?_removeIf (p := fun other : Client => h = other.queue) hl'
          (by simpa using hne')
        obtain rfl : last' = last := Option.some.inj (hkept.symm.trans hl)
        exact Nat.le_trans (countP_removeIf_le hl' (ht.once hl' hne') (by simpa using hne))
          (ht.once hl' hne)
    · intro c₁ c₂ h₁ h₂
      have hc₁ : c₁ ≠ c := fun hc => by simp [hc] at h₁
      have hc₂ : c₂ ≠ c := fun hc => by
        simp only [St.setClient_client, hc, update_self] at h₂
        exact h₁ h₂
      simp only [St.setClient_client, update_of_ne hc₁, update_of_ne hc₂] at h₁ h₂
      exact ht.holder h₁ h₂

/-- A destructor that disconnects tidily is tidy. -/
theorem Tidy.destroy (ht : Tidy (s.disconnect c)) {t : TaskId} : Tidy (s.destroy t c) := by
  rcases ht with ⟨h₁, h₂, h₃, h₄⟩
  constructor <;> simpa only [St.destroy_bus, St.destroy_client]

/-- A queue is deleted behind a disconnect, so no entry has it. -/
theorem Tidy.freeQueue (ht : Tidy s) (hs : Sound s) {t : TaskId} {h : QueueHandle}
    (haddr : (s.client c).addr = 0) : Tidy (s.freeQueue t c h) := by
  have hclient : ∀ c', c' ≠ c → (s.freeQueue t c h).client c' = s.client c' := fun c' hc' => by
    simp [hc']
  have hself : (s.freeQueue t c h).client c = ⟨0, none⟩ := by simp [haddr]
  constructor
  · intro e he
    rcases ht.owned he with ⟨c', hq, ha⟩
    have hc : c' ≠ c := fun hc => by
      have := hs.listed_range he
      rw [hc, haddr] at ha
      lia
    exact ⟨c', by rw [hclient c' hc, hq], by rw [hclient c' hc, ha]⟩
  · intro c' q hq ha
    have hc : c' ≠ c := fun hc => by simp [hc] at hq
    rw [hclient c' hc] at hq ha ⊢
    exact ht.listed hq ha
  · exact ht.once
  · intro c₁ c₂ h₁ h₂
    have hc₁ : c₁ ≠ c := fun hc => h₁ (by rw [hc, hself])
    have hc₂ : c₂ ≠ c := fun hc => by
      rw [hc, hself] at h₂
      exact h₁ h₂
    rw [hclient c₁ hc₁] at h₁ h₂
    rw [hclient c₂ hc₂] at h₂
    exact ht.holder h₁ h₂

/-- Step lemma: a step that disconnects no client found in the last entry keeps the table tidy. -/
theorem Tidy.preserved (ht : Tidy s) (hs : Sound s) (hlast : NotLast s l)
    (hstep : step s l = some s') : Tidy s' := by
  cases tableMove_of_fires (fires_of_step hstep) with
  | same h => exact ht.same h
  | created halive hnone hfree =>
    exact (ht.createQueue hs hnone).connect (hs.createQueue halive hnone hfree)
  | connect _ => exact ht.connect hs
  | disconnect _ => exact (ht.disconnect hs (hlast _ rfl)).1
  | destroy _ => exact (ht.disconnect hs (hlast _ rfl)).1.destroy
  | deleted htask _ => exact ht.freeQueue hs (hs.dead_addr (hs.destroying htask))

/-- `resolve` answers from the table. -/
theorem mem_clients_of_resolve {bus : Bus} {a : BusAddr} {h : QueueHandle}
    (hr : bus.resolve a = some h) : ⟨a, h⟩ ∈ bus.clients := by
  unfold Bus.resolve at hr
  split at hr
  · rcases Option.map_eq_some_iff.mp hr with ⟨e, hf, rfl⟩
    have ha : a = e.addr := by simpa using List.find?_some hf
    rw [ha]
    exact List.mem_of_find?_eq_some hf
  · cases hr

/-- In a tidy table an address resolves to the queue of its entry. -/
theorem Tidy.resolve_eq (ht : Tidy s) (hs : Sound s) {a : BusAddr} {h : QueueHandle} :
    s.bus.resolve a = some h ↔ ⟨a, h⟩ ∈ s.bus.clients := by
  refine ⟨mem_clients_of_resolve, ?_⟩
  intro hmem
  rw [Bus.resolve, if_pos (hs.listed_range hmem).2]
  cases hf : s.bus.clients.find? fun client => a = client.addr with
  | none =>
    have := List.find?_eq_none.mp hf _ hmem
    simp at this
  | some e =>
    have ha : a = e.addr := by simpa using List.find?_some hf
    rw [← ht.entry_unique hs hmem (List.mem_of_find?_eq_some hf) ha]
    rfl

/-- An address resolves to the queue of the client that has it. -/
theorem Tidy.resolve_owner (ht : Tidy s) {a : BusAddr} {h : QueueHandle}
    (hr : s.bus.resolve a = some h) :
    ∃ c, (s.client c).queue = some h ∧ (s.client c).addr = a :=
  ht.owned (mem_clients_of_resolve hr)

/-- What an address resolves to is a queue that exists. -/
theorem Tidy.resolve_live (ht : Tidy s) (hs : Sound s) {a : BusAddr} {h : QueueHandle}
    (hr : s.bus.resolve a = some h) : (s.queue h).isSome = true := by
  rcases ht.resolve_owner hr with ⟨c, hq, -⟩
  exact hs.queue_live hq

/-- After `connect` its client has an address, if it has a queue. -/
theorem Sound.connect_addr (hs : Sound s) (hqueue : (s.client c).queue ≠ none) :
    ((s.connect c).client c).addr ≠ 0 := by
  have hlast := hs.last_le
  rcases s.connect_cases c with ⟨hnone, -⟩ | ⟨h, e, -, hmem, -, he⟩ | ⟨h, -, -, he⟩
  · exact absurd hnone hqueue
  · have haddr : ((s.connect c).client c).addr = e.addr := by simp [he]
    have hrange := hs.listed_range hmem
    lia
  · have haddr : ((s.connect c).client c).addr = s.bus.addrLast - 1 := by simp [he]
    lia

/-- A connect gives a client that has no address a new one, and leaves every other alone. -/
theorem Tidy.connect_client (ht : Tidy s) (hs : Sound s) (c k : ClientId) :
    (s.connect c).client k = s.client k ∨
      (k = c ∧ (s.client c).addr = 0 ∧ ((s.connect c).client k).addr < s.bus.addrLast) := by
  rcases s.connect_cases c with ⟨-, he⟩ | ⟨q, e, hq, hmem, rfl, he⟩ | ⟨q, hq, hnew, he⟩
  · exact Or.inl (by rw [he])
  · apply Or.inl
    rw [he]
    by_cases hk : k = c
    · subst hk
      rw [St.setClient_client, update_self, ← ht.addr_of_entry hs hmem hq, ← hq]
    · simp [hk]
  · by_cases hk : k = c
    · subst hk
      have haddr : ((s.connect k).client k).addr = s.bus.addrLast - 1 := by simp [he]
      refine Or.inr ⟨rfl, ?_, by lia⟩
      -- with an address it would have been found in the table
      by_contra hne
      exact hnew _ (ht.listed hq hne) rfl
    · exact Or.inl (by rw [he]; simp [hk])

/-- A step gives a live client a new address, takes an address away, or leaves a client alone. -/
theorem client_cases (hs : Sound s) (ht : Tidy s) (hstep : step s l = some s') (k : ClientId) :
    s'.client k = s.client k ∨
    (s.alive k = true ∧ (s'.client k).addr < s.bus.addrLast) ∨
    ((s'.client k).addr = 0 ∧
      ((s'.client k).queue = (s.client k).queue ∨ (s'.client k).queue = none)) := by
  have hdisconnect : ∀ c, (s.disconnect c).client k = s.client k ∨
      ((s.disconnect c).client k).addr = 0 ∧
        ((s.disconnect c).client k).queue = (s.client k).queue := by
    intro c
    rcases s.disconnect_cases c with ⟨-, he⟩ | ⟨h, hq, he⟩ <;> rw [he]
    · exact Or.inl rfl
    · by_cases hk : k = c
      · subst hk
        exact Or.inr (by simp [hq])
      · exact Or.inl (by simp [hk])
  cases tableMove_of_fires (fires_of_step hstep) with
  | same h => exact Or.inl (by rw [h.client])
  | @created c h halive hnone hfree =>
    have hs₁ := hs.createQueue halive hnone hfree
    have ht₁ := ht.createQueue hs hnone (h := h)
    rcases ht₁.connect_client hs₁ c k with he | ⟨rfl, -, hlt⟩
    · by_cases hk : k = c
      · subst hk
        have hne := hs₁.connect_addr (c := k) (by simp)
        rw [he] at hne
        exact absurd (by simp [hs.addr_of_no_queue hnone]) hne
      · exact Or.inl (by rw [he]; simp [hk])
    · exact Or.inr (Or.inl ⟨halive, hlt⟩)
  | @connect c halive =>
    rcases ht.connect_client hs c k with he | ⟨rfl, -, hlt⟩
    · exact Or.inl he
    · exact Or.inr (Or.inl ⟨halive, hlt⟩)
  | disconnect => exact (hdisconnect _).imp id fun h => Or.inr ⟨h.1, Or.inl h.2⟩
  | destroy =>
    rw [St.destroy_client]
    exact (hdisconnect _).imp id fun h => Or.inr ⟨h.1, Or.inl h.2⟩
  | @deleted t c h htask hq =>
    by_cases hk : k = c
    · subst hk
      have haddr := hs.dead_addr (hs.destroying htask)
      exact Or.inr (Or.inr (by simp [haddr]))
    · exact Or.inl (by simp [hk])

/-- Addresses only go down. -/
theorem addrLast_le (hstep : step s l = some s') : s'.bus.addrLast ≤ s.bus.addrLast := by
  have hconnect : ∀ (s : St Cmd) (c : ClientId), (s.connect c).bus.addrLast ≤ s.bus.addrLast := by
    intro s c
    rcases s.connect_cases c with ⟨-, he⟩ | ⟨_, _, -, -, -, he⟩ | ⟨_, -, -, he⟩
    · exact Int.le_of_eq (by rw [he])
    · exact Int.le_of_eq (by rw [he]; rfl)
    · rw [he]
      simp only
      lia
  have hdisconnect : ∀ c, (s.disconnect c).bus.addrLast = s.bus.addrLast := by
    intro c
    rcases s.disconnect_cases c with ⟨-, he⟩ | ⟨_, -, he⟩ <;> rw [he]
  cases tableMove_of_fires (fires_of_step hstep) with
  | same h => exact Int.le_of_eq h.addrLast
  | created => exact hconnect _ _
  | connect => exact hconnect _ _
  | disconnect => exact Int.le_of_eq (hdisconnect _)
  | destroy => exact Int.le_of_eq (by rw [St.destroy_bus, hdisconnect])
  | deleted => exact Int.le_refl _

/-- An address that was handed out before is with the client that had it. -/
theorem client_of_addr (hs : Sound s) (ht : Tidy s) (hstep : step s l = some s') {k : ClientId}
    {a : BusAddr} (hgiven : s.bus.addrLast ≤ a) (hneg : a < 0) (ha : (s'.client k).addr = a) :
    s'.client k = s.client k := by
  rcases client_cases hs ht hstep k with h | ⟨-, h⟩ | ⟨h, -⟩
  · exact h
  · lia
  · lia

end EspAcDimmer
