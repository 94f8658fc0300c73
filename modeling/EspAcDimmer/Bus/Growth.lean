import EspAcDimmer.Bus.ClientTable
import EspAcDimmer.Bus.GroupNames
import EspAcDimmer.Bus.Delivery

/-! # Runs in which membership only grows

Clients connect, join, send and receive, and nobody leaves, disconnects or is destroyed. Then an
address keeps its queue and a client its address, destination lists grow at the front only, and
every message moves between queues that belong to the stops on its list.
-/

namespace EspAcDimmer

open Function StdList Lts
open Relay (Place Parcel load received missedAt leftOut settled)

variable {Cmd : Type} {s s' : St Cmd} {l : Lbl Cmd}

/-- Nobody leaves, disconnects or is destroyed. -/
def Lbl.grows : Lbl Cmd → Bool
  | .disconnect _ | .leaveLookup _ _ _ | .leaveCheck _ | .leaveSection _ | .destroy _ _ | .drain _
  | .deleteQueue _ => false
  | _ => true

def Grows (_ : St Cmd) (l : Lbl Cmd) : Prop :=
  l.grows = true

instance (s : St Cmd) (l : Lbl Cmd) : Decidable (Grows s l) :=
  inferInstanceAs (Decidable (_ = _))

theorem disconnectsNobody_of_grows (hl : Grows s l) : DisconnectsNobody s l := by
  intro c hc
  cases l <;> simp_all [Grows, Lbl.grows, Lbl.disconnects]

theorem deletesEmpty_of_grows (hl : Grows s l) : DeletesEmpty s l := by
  rintro t c h slots rfl
  simp [Grows, Lbl.grows] at hl

/-! ## What growth keeps -/

/-- `connect` takes no entry away, and changes no address but 0. -/
theorem Exact.connect_keeps (he : Exact s) (c : ClientId) :
    (∀ e ∈ s.bus.clients, e ∈ (s.connect c).bus.clients) ∧
      ∀ c', (s.client c').addr ≠ 0 → ((s.connect c).client c').addr = (s.client c').addr := by
  constructor
  · intro e hmem
    rcases s.connect_cases c with ⟨-, heq⟩ | ⟨_, _, -, -, -, heq⟩ | ⟨_, -, -, heq⟩ <;> rw [heq]
    · exact hmem
    · exact hmem
    · exact List.mem_cons_of_mem _ hmem
  · intro c' hne
    rcases he.tidy.connect_client he.sound c c' with hsame | ⟨rfl, hzero, -⟩
    · rw [hsame]
    · exact absurd hzero hne

/-- Entries of the table and addresses of clients last. -/
theorem Exact.keeps (he : Exact s) (hl : Grows s l) (hstep : step s l = some s') :
    (∀ e ∈ s.bus.clients, e ∈ s'.bus.clients) ∧
      ∀ c, (s.client c).addr ≠ 0 → (s'.client c).addr = (s.client c).addr := by
  cases tableMove_of_fires (fires_of_step hstep) with
  | same h => exact ⟨fun e hmem => h.clients ▸ hmem, fun c _ => by rw [h.client]⟩
  | @created c q halive hnone hfree =>
    have haddr := he.sound.addr_of_no_queue hnone
    rcases (he.createQueue halive hnone hfree).connect_keeps c with ⟨hentries, haddrs⟩
    refine ⟨hentries, ?_⟩
    intro c' hne
    -- the client that had no queue had no address to lose
    have hc : c' ≠ c := fun hc => hne (hc ▸ haddr)
    have hclient : (s.createQueue c q).client c' = s.client c' := by simp [hc]
    rw [haddrs c' (by rwa [hclient]), hclient]
  | connect => exact he.connect_keeps _
  | disconnect => simp [Grows, Lbl.grows] at hl
  | destroy => simp [Grows, Lbl.grows] at hl
  | deleted => simp [Grows, Lbl.grows] at hl

/-- An address that has a queue keeps it. -/
theorem Exact.resolve_keeps (he : Exact s) (hl : Grows s l) (hstep : step s l = some s')
    {a : BusAddr} {h : QueueHandle} (hr : s.bus.resolve a = some h) :
    s'.bus.resolve a = some h := by
  have he' := he.preserved (disconnectsNobody_of_grows hl) hstep
  rw [he.tidy.resolve_eq he.sound] at hr
  rw [he'.tidy.resolve_eq he'.sound]
  exact (he.keeps hl hstep).1 _ hr

/-- A destination list stays, or a join that is past its guard enters its client. -/
theorem NamesSound.destination_cases (hs : NamesSound s) (hl : Grows s l)
    (hstep : step s l = some s') (g : BusAddr) :
    s'.bus.destination g = s.bus.destination g ∨
      ∃ t addrName addr c, s.task t = .joinChecked addrName addr c ∧
        s'.bus.destination g = insertMember (s.client c).addr (s.bus.destination g) := by
  cases groupMove_of_fires (fires_of_step hstep) with
  | same h => exact Or.inl (by simp only [Bus.destination, h.groups])
  | lookup => exact Or.inl (hs.groups.destination_joinLookup _ _)
  | @join t addrName addr c htask =>
    obtain ⟨group, hg, rfl, -⟩ := hs.pending (by rw [htask]; rfl)
    have hdest : (s.bus.joinSection group.addr (s.client c)).destination g =
        if g = group.addr then insertMember (s.client c).addr (s.bus.destination g)
        else s.bus.destination g := hs.groups.destination_joinSection hg
    split at hdest
    · exact Or.inr ⟨t, addrName, group.addr, c, htask, hdest⟩
    · exact Or.inl hdest
  | leave => simp [Grows, Lbl.grows] at hl

/-- Destination lists grow at the front. -/
theorem NamesSound.destination_grows (hs : NamesSound s) (hl : Grows s l)
    (hstep : step s l = some s') (a : BusAddr) :
    s.bus.destination a <:+ s'.bus.destination a := by
  rcases hs.destination_cases hl hstep a with he | ⟨_, _, _, _, -, he⟩
  · exact ⟨[], by rw [he, List.nil_append]⟩
  · rw [he]
    exact suffix_insertMember _ _

/-! ## The invariant of a growing run -/

structure Grown (s : St Cmd) : Prop where
  exact : Exact s
  names : NamesSound s
  ledger : Ledger s
  checked : ∀ {t addrName addr c}, s.task t = .joinChecked addrName addr c →
    (s.client c).addr < 0
  members : ∀ {g a}, 0 < g → a ∈ s.bus.destination g → (s.bus.resolve a).isSome = true
  distinct : ∀ g, (s.bus.destination g).Nodup
  boxed : ∀ {h slots slot}, s.queue h = some slots → slot ∈ slots →
    s.bus.resolve slot.stop = some h
  reading : ∀ {t c a m}, s.task t = .receiving c a m → (s.client c).addr = a ∧ a ≠ 0
  heard : ∀ {a c n}, .got a c n ∈ s.log → (s.client c).addr = a ∧ a ≠ 0
  put_at : ∀ {a q n}, .put a q n ∈ s.log → s.bus.resolve a = some q

theorem Grown.init : Grown (St.init Cmd) := by
  refine ⟨Exact.init, NamesSound.init, Ledger.init, ?_, ?_, ?_, ?_, ?_, ?_, ?_⟩
  · simp [St.init]
  · intro g a hg ha
    simp [St.init, Bus.destination] at ha
    lia
  · intro g
    simp only [St.init, Bus.destination, List.find?_nil]
    split
    · simp
    · split <;> simp
  all_goals simp [St.init]

/-- The slot a client finds in its queue was put there for its own address. -/
theorem Grown.popped_addr (h : Grown s) {c : ClientId} {q : QueueHandle} {slot : Slot Cmd}
    {slots : List (Slot Cmd)} (hq : (s.client c).queue = some q)
    (hslots : s.queue q = some (slot :: slots)) :
    (s.client c).addr = slot.stop ∧ slot.stop ≠ 0 := by
  have hentry := mem_clients_of_resolve (h.boxed hslots List.mem_cons_self)
  have hrange := h.exact.sound.listed_range hentry
  exact ⟨h.exact.tidy.addr_of_entry h.exact.sound hentry hq, by lia⟩

/-- Step lemma: growth keeps all of it. -/
theorem Grown.preserved (h : Grown s) (hl : Grows s l) (hstep : step s l = some s') : Grown s' := by
  have hf := fires_of_step hstep
  have he' := h.exact.preserved (disconnectsNobody_of_grows hl) hstep
  have hresolve : ∀ {a q}, s.bus.resolve a = some q → s'.bus.resolve a = some q :=
    fun hr => h.exact.resolve_keeps hl hstep hr
  have haddr := (h.exact.keeps hl hstep).2
  constructor
  · exact he'
  · exact h.names.preserved hstep
  · exact h.ledger.preserved (deletesEmpty_of_grows hl) hstep
  · -- `checked`: the guard has just been passed, or the client is as it was then
    intro t addrName addr c ht
    have hneg : (s.client c).addr < 0 := by
      rcases task_cases hf t with hsame | ⟨-, hguard⟩
      · exact h.checked (hsame ▸ ht)
      · rw [ht] at hguard
        simp only [Arrived, Bus.addrGuard, Bool.not_eq_true', Bool.or_eq_false_iff,
          decide_eq_false_iff_not] at hguard
        lia
    rw [haddr c (by lia)]
    exact hneg
  · -- `members`: whoever could be reached still can be
    intro g a hg ha
    have hold : ∀ a ∈ s.bus.destination g, (s'.bus.resolve a).isSome = true := fun a ha => by
      rcases Option.isSome_iff_exists.mp (h.members hg ha) with ⟨q, hq⟩
      rw [hresolve hq]
      rfl
    rcases h.names.destination_cases hl hstep g with he | ⟨t, addrName, addr, c, htask, he⟩
    · exact hold a (he ▸ ha)
    · rw [he, mem_insertMember] at ha
      rcases ha with rfl | ha
      · -- past the guard, so connected
        have hneg := h.checked htask
        rcases Option.isSome_iff_exists.mp (h.exact.sound.addr_queue (c := c) (by lia)) with ⟨q, hq⟩
        have hentry := h.exact.tidy.listed hq (by lia)
        rw [hresolve ((h.exact.tidy.resolve_eq h.exact.sound).mpr hentry)]
        rfl
      · exact hold a ha
  · intro g
    rcases h.names.destination_cases hl hstep g with he | ⟨_, _, _, _, -, he⟩
    · rw [he]
      exact h.distinct g
    · rw [he]
      exact nodup_insertMember (h.distinct g)
  · intro q slots slot hq hmem
    rcases slot_cases hf hq hmem with ⟨slots', hq', hmem'⟩ | hr
    · exact hresolve (h.boxed hq' hmem')
    · exact hresolve hr
  · -- `reading`: what is popped was put there for the client
    intro t c a m ht
    have hold : (s.client c).addr = a ∧ a ≠ 0 := by
      rcases task_cases hf t with hsame | ⟨-, hpopped⟩
      · exact h.reading (hsame ▸ ht)
      · rw [ht] at hpopped
        rcases hpopped with ⟨-, q, slots, hq, hslots⟩
        exact h.popped_addr hq hslots
    rw [haddr c (by rw [hold.1]; exact hold.2)]
    exact hold
  · -- `heard`: likewise, from the log
    intro a c n hmem
    have hold : (s.client c).addr = a ∧ a ≠ 0 := by
      rcases got_cases hstep hmem with hmem | ⟨t, q, slot, slots, -, hq, hslots, rfl, -⟩
      · exact h.heard hmem
      · exact h.popped_addr hq hslots
    rw [haddr c (by rw [hold.1]; exact hold.2)]
    exact hold
  · intro a q n hmem
    rcases put_cases hstep hmem with hmem | hr
    · exact hresolve (h.put_at hmem)
    · exact hresolve hr

end EspAcDimmer
