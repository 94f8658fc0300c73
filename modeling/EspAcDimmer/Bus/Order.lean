import EspAcDimmer.Lib.RelayOrder
import EspAcDimmer.Bus.Growth

/-! # The common order of a group

While membership only grows and nobody is inside `tryReceive` twice, the members of a group get its
messages in one order, and in the order of two sends of which one returned before the other began.
Queues may be full: what a full queue destroys is received by fewer members, in the same order.

The relay of the system is then an orderly one: an address has one queue, one task at a time takes
from it, no member of a group is passed over, and the later of two destination snapshots of a group
ends with the earlier one. The invariant that carries the order along the hops is `Relay.Line`.
-/

namespace EspAcDimmer

open Function StdList Lts
open Relay (Place Parcel Before Line Orderly Gone puts gots)

variable {Cmd : Type} {s s' : St Cmd} {l : Lbl Cmd}

/-- The messages client `k` received, oldest first. -/
def heard (k : ClientId) (log : List (Relay.Event BusAddr QueueHandle ClientId)) : List Nat :=
  log.filterMap fun
    | .got _ c n => if c = k then some n else none
    | _ => none

/-- Nobody enters `tryReceive` of a client that is inside it. -/
def OneReceiver (s : St Cmd) (l : Lbl Cmd) : Prop :=
  ∀ t c, l = .tryReceive t c → ∀ t' a m, s.task t' ≠ .receiving c a m

/-- The call of `send` that gave a message serial `n` has returned. -/
def SendReturned (s : St Cmd) (n : Nat) : Prop :=
  ∀ t c m, s.task t = .sending c m → m.serial ≠ n

/-! ## What an orderly relay asks for -/

structure Tame (s : St Cmd) : Prop where
  grown : Grown s
  routed : ∀ {n stops}, .sent n stops ∈ s.log →
    stops.Nodup ∧ ((∃ a, stops = [a]) ∨ ∀ a ∈ stops, (s.bus.resolve a).isSome = true)
  reached : ∀ {a n}, .missed a .unreachable n ∈ s.log → .sent n [a] ∈ s.log
  kept : ∀ {a n}, .missed a .withdrawn n ∉ s.log
  one_task : ∀ {t t' c a a' m m'}, s.task t = .receiving c a m → s.task t' = .receiving c a' m' →
    t = t'
  no_flush : ∀ {t c a m}, s.task t ≠ .flushing c a m

theorem Tame.init : Tame (St.init Cmd) :=
  ⟨Grown.init, by simp [St.init], by simp [St.init], by simp [St.init], by simp [St.init],
    by simp [St.init]⟩

/-- A snapshot is taken in this step or was taken before. -/
theorem sent_cases (hstep : step s l = some s') {n : Nat} {stops : List BusAddr}
    (h : .sent n stops ∈ s'.log) : .sent n stops ∈ s.log ∨
      ∃ t c toAddr msg, l = .send t c toAddr msg ∧ n = s.next ∧
        stops = s.bus.destination toAddr := by
  rcases log_cases hstep with he | ⟨t, c, toAddr, msg, rfl, he⟩ | ⟨_, _, _, _, _, -, -, -, he⟩ |
    ⟨_, _, _, _, _, -, -, -, -, he⟩ | ⟨t, stop, m, -, -, rfl⟩
  · exact Or.inl (he ▸ h)
  · rw [he, List.mem_append, List.mem_singleton] at h
    refine h.imp id ?_
    intro h
    obtain ⟨rfl, rfl⟩ : n = s.next ∧ stops = s.bus.destination toAddr := by simpa using h
    exact ⟨t, c, toAddr, msg, rfl, rfl, rfl⟩
  · exact Or.inl (by simpa [he] using h)
  · exact Or.inl (by simpa [he] using h)
  · rcases s.sendToNextClient_cases t m with ⟨-, he⟩ | ⟨_, _, _, -, -, he⟩ |
      ⟨_, _, _, _, -, -, -, he⟩ | ⟨_, _, _, _, -, -, -, he⟩ <;>
    · exact Or.inl (by simpa [he] using h)

/-- A client's address is one element, a group's members are connected, 0 has nobody. -/
theorem Grown.snapshot (h : Grown s) (toAddr : BusAddr) :
    (∃ a, s.bus.destination toAddr = [a]) ∨
      ∀ a ∈ s.bus.destination toAddr, (s.bus.resolve a).isSome = true := by
  by_cases hneg : toAddr < 0
  · exact Or.inl ⟨toAddr, by simp [Bus.destination, hneg]⟩
  · refine Or.inr fun a ha => h.members ?_ ha
    by_contra hpos
    simp [Bus.destination, hneg, hpos] at ha

/-- Step lemma. -/
theorem Tame.preserved (h : Tame s) (hl : Grows s l) (hone : OneReceiver s l)
    (hstep : step s l = some s') : Tame s' := by
  have hf := fires_of_step hstep
  have hg := h.grown
  constructor
  · exact hg.preserved hl hstep
  · -- `routed`: whoever was connected when the snapshot was taken stays connected
    intro n stops hmem
    have hold : stops.Nodup ∧
        ((∃ a, stops = [a]) ∨ ∀ a ∈ stops, (s.bus.resolve a).isSome = true) := by
      rcases sent_cases hstep hmem with hmem | ⟨_, _, toAddr, _, -, -, rfl⟩
      · exact h.routed hmem
      · exact ⟨hg.distinct toAddr, hg.snapshot toAddr⟩
    refine ⟨hold.1, hold.2.imp id ?_⟩
    intro hconn a ha
    rcases Option.isSome_iff_exists.mp (hconn a ha) with ⟨q, hq⟩
    rw [hg.exact.resolve_keeps hl hstep hq]
    rfl
  · intro a n hmem
    rcases mem_log_new hstep hmem with hmem | hmem
    · exact (log_extends hstep).subset (h.reached hmem)
    · rcases missed_new hstep hmem with ⟨t, stop, m, rfl, hhand, rfl, ha, hwhy⟩ |
        ⟨t, _, _, _, _, rfl, -⟩
      · -- a member of a group would have been found
        have hnone : s.bus.resolve a = none := by simpa using hwhy
        obtain ⟨stops, hsent, -⟩ := hg.ledger.carried (.hand t) ⟨m.serial, stop, m.destination⟩
          (by simp [relay_hand hhand])
        have hin : a ∈ stops := hg.ledger.destination_subset hhand hsent ha
        rcases (h.routed hsent).2 with ⟨b, rfl⟩ | hconn
        · obtain rfl : a = b := by simpa using hin
          exact (log_extends hstep).subset hsent
        · have := hconn a hin
          simp [hnone] at this
      · simp [Grows, Lbl.grows] at hl
  · -- `kept`: messages are withdrawn in destructors only
    intro a n hmem
    rcases mem_log_new hstep hmem with hmem | hmem
    · exact h.kept hmem
    · rcases missed_new hstep hmem with ⟨_, _, _, -, -, -, -, hwhy⟩ | ⟨t, _, _, _, _, rfl, -⟩
      · simp at hwhy
      · simp [Grows, Lbl.grows] at hl
  · -- `one_task`: of two tasks that receive for one client, one would just have started
    intro t t' c a a' m m' ht ht'
    rcases task_cases hf t with hsame | ⟨hlt, harr⟩ <;>
      rcases task_cases hf t' with hsame' | ⟨hlt', harr'⟩
    · exact h.one_task (hsame ▸ ht) (hsame' ▸ ht')
    · rw [ht'] at harr'
      exact absurd (hsame ▸ ht) (hone t' c harr'.1 t a m)
    · rw [ht] at harr
      exact absurd (hsame' ▸ ht') (hone t c harr.1 t' a' m')
    · exact Option.some.inj (hlt.symm.trans hlt')
  · intro t c a m ht
    rcases task_cases hf t with hsame | ⟨-, harr⟩
    · exact h.no_flush (hsame ▸ ht)
    · rw [ht] at harr
      rcases harr with ⟨rfl, -⟩
      simp [Grows, Lbl.grows] at hl

/-- A message in hand that was taken from a queue is in the hands of the client that received it. -/
theorem Tame.in_hand (h : Tame s) {t : TaskId} {p : Parcel BusAddr} {a : BusAddr}
    (hp : p ∈ s.relay.held (.hand t)) (hstop : p.stop = some a) :
    ∃ c m, s.task t = .receiving c a m := by
  cases ht : s.task t with
  | receiving c b m =>
    obtain rfl : p = ⟨m.serial, some b, m.destination⟩ := by
      simpa [St.relay, Task.parcels, Task.inHand, ht] using hp
    obtain rfl : b = a := by simpa using hstop
    exact ⟨c, m, rfl⟩
  | sending c m =>
    obtain rfl : p = ⟨m.serial, none, m.destination⟩ := by
      simpa [St.relay, Task.parcels, Task.inHand, ht] using hp
    simp at hstop
  | flushing c b m => exact absurd ht h.no_flush
  | _ => simp [St.relay, Task.parcels, Task.inHand, ht] at hp

/-- What the invariant is for: the relay of a tame state is orderly. -/
theorem Tame.orderly (h : Tame s) : Orderly s.relay := by
  have hg := h.grown
  refine ⟨fun {a q q' n n'} hput hput' => ?_, fun {t t' p p' a} hp hp' hstop hstop' => ?_,
    h.reached, h.kept, fun hsent => (h.routed hsent).1⟩
  · exact Option.some.inj ((hg.put_at hput).symm.trans (hg.put_at hput'))
  · rcases h.in_hand hp hstop with ⟨c, m, ht⟩
    rcases h.in_hand hp' hstop' with ⟨c', m', ht'⟩
    rcases hg.reading ht with ⟨rfl, hne⟩
    obtain rfl : c = c' := hg.exact.tidy.holder hne (hg.reading ht').1.symm
    exact h.one_task ht ht'

/-! ## The order -/

structure Ordered (s : St Cmd) : Prop where
  tame : Tame s
  line : Line s.relay

theorem Ordered.init : Ordered (St.init Cmd) :=
  ⟨Tame.init, Line.init (fun pl => by cases pl <;> rfl) rfl⟩

/-- Step lemma: the line is that of the relay. -/
theorem Ordered.preserved (h : Ordered s) (hl : Grows s l) (hone : OneReceiver s l)
    (hstep : step s l = some s') : Ordered s' := by
  have htame' := h.tame.preserved hl hone hstep
  exact ⟨htame', h.line.step h.tame.grown.ledger h.tame.orderly htame'.orderly
    (relay_step (deletesEmpty_of_grows hl) hstep)⟩

/-- A message is heard where the log says that the client got it. -/
theorem mem_heard {k : ClientId} {n : Nat}
    {log : List (Relay.Event BusAddr QueueHandle ClientId)} :
    n ∈ heard k log ↔ ∃ a, .got a k n ∈ log := by
  simp only [heard, List.mem_filterMap]
  constructor
  · rintro ⟨e, he, hn⟩
    cases e <;> simp at hn
    rcases hn with ⟨rfl, rfl⟩
    exact ⟨_, he⟩
  · rintro ⟨a, h⟩
    exact ⟨_, h, by simp⟩

/-- What a client received is what its address got. -/
theorem heard_eq_gots (hg : Grown s) {k : ClientId} {n : Nat} (hn : n ∈ heard k s.log) :
    heard k s.log = gots (s.client k).addr s.log := by
  rcases mem_heard.mp hn with ⟨b, hgot⟩
  rcases hg.heard hgot with ⟨rfl, hk⟩
  apply List.filterMap_congr
  intro e he
  cases e with
  | got a c n =>
    rcases hg.heard he with ⟨rfl, hne⟩
    by_cases hc : c = k
    · simp [hc]
    · -- no two clients share an address
      have ha : (s.client c).addr ≠ (s.client k).addr := fun ha =>
        hc (hg.exact.tidy.holder hne ha)
      simp [hc, ha]
  | _ => rfl

/-! ## Two messages to one group -/

/-- The log of a run begins with what it was before. -/
theorem run_log_extends {tr : List (St Cmd × Lbl Cmd)} (hrun : Run step s tr s') :
    s.log <+: s'.log :=
  hrun.invariant (I := fun s' => s.log <+: s'.log) (List.prefix_refl _)
    (fun _ _ _ h _ hs => h.trans (log_extends hs)) everyStep_true

/-- A later snapshot of a group ends with an earlier one. -/
theorem destination_grows_run {tr : List (St Cmd × Lbl Cmd)} (hs : NamesSound s)
    (hrun : Run step s tr s') (hgrow : EveryStep Grows tr) (g : BusAddr) :
    s.bus.destination g <:+ s'.bus.destination g :=
  (hrun.invariant (I := fun s' => NamesSound s' ∧ s.bus.destination g <:+ s'.bus.destination g)
    ⟨hs, List.suffix_refl _⟩
    (fun _ _ _ h hl hstep => ⟨h.1.preserved hstep, h.2.trans (h.1.destination_grows hl hstep g)⟩)
    hgrow).2

/-- Serials are given out upwards. -/
theorem next_le (hl : Grows s l) (hstep : step s l = some s') : s.next ≤ s'.next := by
  have hrelay := relay_step (deletesEmpty_of_grows hl) hstep
  cases hrelay <;> simp_all

/-- Nobody but its sender is in the middle of sending a message. -/
structure SentBy (t : TaskId) (n : Nat) (s : St Cmd) : Prop where
  old : n < s.next
  sender : ∀ t' c m, s.task t' = .sending c m → m.serial = n → t' = t

/-- A serial that has been given out is not given out again. -/
theorem SentBy.preserved {t : TaskId} {n : Nat} (h : SentBy t n s) (hl : Grows s l)
    (hstep : step s l = some s') : SentBy t n s' := by
  refine ⟨Nat.lt_of_lt_of_le h.old (next_le hl hstep), ?_⟩
  intro t' c m ht hm
  rcases task_cases (fires_of_step hstep) t' with hsame | ⟨-, harr⟩
  · exact h.sender t' c m (hsame ▸ ht) hm
  · rw [ht] at harr
    rcases harr with ⟨_, _, -, hserial⟩
    exact absurd (hserial.symm.trans hm) (Nat.ne_of_gt h.old)

/-- `send` gives out a serial that is in nobody's hands. -/
theorem Ordered.sentBy (h : Ordered s) {t : TaskId} {c : ClientId} {g : BusAddr} {msg : Cmd} :
    SentBy t s.next (s.send t c g msg) := by
  refine ⟨Nat.lt_succ_self _, ?_⟩
  intro t' c' m ht hm
  by_contra hne
  -- another task would hold a message with a serial that is not given out yet
  have hold : (s.task t').inHand = some (none, m) := by
    have ht' : s.task t' = .sending c' m := by simpa [St.send, hne] using ht
    rw [ht']
    rfl
  have hheld : ⟨m.serial, none, m.destination⟩ ∈ s.relay.held (.hand t') := by
    simp [relay_hand hold]
  have hlt := h.tame.grown.ledger.serial_lt hheld
  exact absurd hm (Nat.ne_of_lt hlt)

/-- A message whose `send` has returned was put into a queue, or nobody will ever receive it. -/
theorem Ordered.put_or_gone (h : Ordered s) {n : Nat} (hold : n < s.next)
    (hret : SendReturned s n) : (∃ a q, .put a q n ∈ s.log) ∨ Gone n s.relay := by
  by_cases hput : ∃ a q, .put a q n ∈ s.log
  · exact Or.inl hput
  · refine Or.inr ⟨hold, ?_, fun a q hq => hput ⟨a, q, hq⟩⟩
    intro pl p hp hn
    subst hn
    cases pl with
    | inbox q =>
      rcases h.line.boxed hp with ⟨a, -, hq⟩
      exact hput ⟨a, q, hq⟩
    | hand t =>
      cases hstop : p.stop with
      | some a =>
        rcases Relay.mem_puts.mp (h.line.got_put (h.line.in_hand hp hstop)) with ⟨q, hq⟩
        exact hput ⟨a, q, hq⟩
      | none =>
        -- only a `send` that has not returned holds a message that was nowhere yet
        cases ht : s.task t with
        | sending c m =>
          obtain rfl : p = ⟨m.serial, none, m.destination⟩ := by
            simpa [St.relay, Task.parcels, Task.inHand, ht] using hp
          exact hret t c m ht rfl
        | receiving c a m =>
          obtain rfl : p = ⟨m.serial, some a, m.destination⟩ := by
            simpa [St.relay, Task.parcels, Task.inHand, ht] using hp
          simp at hstop
        | flushing c a m => exact h.tame.no_flush ht
        | _ => simp [St.relay, Task.parcels, Task.inHand, ht] at hp

/-- Messages `x` and `y` were received in the same order wherever both were, and no message was
received twice. -/
structure SameOrder (s : St Cmd) (x y : Nat) : Prop where
  once : ∀ k, (heard k s.log).Nodup
  agree : ∀ k k', x ∈ heard k s.log → y ∈ heard k s.log → x ∈ heard k' s.log →
    y ∈ heard k' s.log → (Before (heard k s.log) x y ↔ Before (heard k' s.log) x y)

section TwoSends

variable {tr : List (St Cmd × Lbl Cmd)} {s₁ s₂ : St Cmd} {t₁ t₂ : TaskId} {c₁ c₂ : ClientId}
  {g : BusAddr} {msg₁ msg₂ : Cmd}

/-- The order holds after any run with one receiver a client. -/
theorem Ordered.run (hrun : Run step (St.init Cmd) tr s) (hgrow : EveryStep Grows tr)
    (hone : EveryStep OneReceiver tr) : Ordered s :=
  hrun.invariant (C := fun s l => Grows s l ∧ OneReceiver s l) Ordered.init
    (fun _ _ _ h hC hs => h.preserved hC.1 hC.2 hs) (hgrow.and hone)

/-- It holds in every state of such a run. -/
theorem Ordered.before (hrun : Run step (St.init Cmd) tr s) (hgrow : EveryStep Grows tr)
    (hone : EveryStep OneReceiver tr) {p : St Cmd × Lbl Cmd} (hp : p ∈ tr) : Ordered p.1 := by
  rcases hrun.split hp with ⟨tr₁, tr₂, _, rfl, h₁, -, -⟩
  exact Ordered.run h₁ (fun q hq => hgrow q (by simp [hq])) fun q hq => hone q (by simp [hq])

/-- The log of a send step to a group starts every later log. -/
theorem sent_extends (hrun : Run step (St.init Cmd) tr s) (hpos : 0 < g)
    (h₁ : (s₁, .send t₁ c₁ g msg₁) ∈ tr) :
    s₁.log ++ [.sent s₁.next (s₁.bus.destination g)] <+: s.log := by
  rcases hrun.split h₁ with ⟨_, _, s₁', rfl, -, hstep, hlater⟩
  rcases send_group hpos hstep with ⟨-, rfl⟩
  exact run_log_extends hlater

/-- The later snapshot of a group ends with the earlier one. -/
theorem snapshots (hrun : Run step (St.init Cmd) tr s) (hgrow : EveryStep Grows tr)
    (hone : EveryStep OneReceiver tr) (hpos : 0 < g) (h₁ : (s₁, .send t₁ c₁ g msg₁) ∈ tr)
    (h₂ : (s₂, .send t₂ c₂ g msg₂) ∈ tr) :
    s₁.bus.destination g <:+ s₂.bus.destination g ∨
      s₂.bus.destination g <:+ s₁.bus.destination g := by
  have hnames : ∀ {s t : St Cmd} {l}, (s, l) ∈ tr → step s l = some t → NamesSound t :=
    fun hmem hstep => (Ordered.before hrun hgrow hone hmem).tame.grown.names.preserved hstep
  rcases hrun.between h₁ h₂ with heq | ⟨t, tr', hstep, hlater, hsub⟩ | ⟨t, tr', hstep, hlater, hsub⟩
  · rcases Prod.mk.inj heq with ⟨rfl, -⟩
    exact Or.inl (List.suffix_refl _)
  · have hgrows := destination_grows_run (hnames h₁ hstep) hlater (fun p hp => hgrow p (hsub hp)) g
    rcases send_group hpos hstep with ⟨-, rfl⟩
    exact Or.inl hgrows
  · have hgrows := destination_grows_run (hnames h₂ hstep) hlater (fun p hp => hgrow p (hsub hp)) g
    rcases send_group hpos hstep with ⟨-, rfl⟩
    exact Or.inr hgrows

/-- A task that sends again has returned from its earlier `send`. -/
theorem sendReturned_of_same_task (hrun : Run step (St.init Cmd) tr s)
    (hgrow : EveryStep Grows tr) (hone : EveryStep OneReceiver tr) (hpos : 0 < g)
    (h₁ : (s₁, .send t₁ c₁ g msg₁) ∈ tr) (h₂ : (s₂, .send t₁ c₂ g msg₂) ∈ tr)
    (hlt : s₁.next < s₂.next) : SendReturned s₂ s₁.next := by
  rcases hrun.split h₂ with ⟨-, -, s₂', -, -, hstep₂, -⟩
  rcases send_group hpos hstep₂ with ⟨hidle, -⟩
  rcases hrun.between h₁ h₂ with heq | ⟨t, tr', hstep, hlater, hsub⟩ | ⟨t, tr', hstep, hlater, hsub⟩
  · rcases Prod.mk.inj heq with ⟨rfl, -⟩
    exact absurd hlt (Nat.lt_irrefl _)
  · rcases send_group hpos hstep with ⟨-, rfl⟩
    have hby := hlater.invariant (Ordered.before hrun hgrow hone h₁).sentBy
      (fun _ _ _ h hl hs => h.preserved hl hs) fun p hp => hgrow p (hsub hp)
    intro t c m ht hm
    rw [hby.sender t c m ht hm, hidle] at ht
    cases ht
  · -- the other way round its serial would be the larger one
    have hle : t.next ≤ s₁.next := hlater.invariant (I := fun s => t.next ≤ s.next) (Nat.le_refl _)
      (fun _ _ _ h hl hs => Nat.le_trans h (next_le hl hs)) fun p hp => hgrow p (hsub hp)
    rcases send_group hpos hstep with ⟨-, rfl⟩
    have : s₂.next + 1 ≤ s₁.next := hle
    omega

/-- Any two messages to a group are received in one order by all who receive both, and in the order
of the sends if one had returned before the other began. -/
theorem group_order (hrun : Run step (St.init Cmd) tr s) (hgrow : EveryStep Grows tr)
    (hone : EveryStep OneReceiver tr) (hpos : 0 < g) (h₁ : (s₁, .send t₁ c₁ g msg₁) ∈ tr)
    (h₂ : (s₂, .send t₂ c₂ g msg₂) ∈ tr) :
    SameOrder s s₁.next s₂.next ∧
      (s₁.next < s₂.next → (t₁ = t₂ ∨ SendReturned s₂ s₁.next) →
        ∀ k, s₁.next ∈ heard k s.log → s₂.next ∈ heard k s.log →
          Before (heard k s.log) s₁.next s₂.next) := by
  have hord := Ordered.run hrun hgrow hone
  have hg := hord.tame.grown
  have hline := hord.line
  have hX : .sent s₁.next (s₁.bus.destination g) ∈ s.log :=
    (sent_extends hrun hpos h₁).subset (by simp)
  have hY : .sent s₂.next (s₂.bus.destination g) ∈ s.log :=
    (sent_extends hrun hpos h₂).subset (by simp)
  have hXY := snapshots hrun hgrow hone hpos h₁ h₂
  have hagree : ∀ k k', s₁.next ∈ heard k s.log → s₁.next ∈ heard k' s.log →
      s₂.next ∈ heard k' s.log → Before (heard k s.log) s₁.next s₂.next →
      Before (heard k' s.log) s₁.next s₂.next := by
    intro k k' hx hx' hy' hbefore
    have hgots := heard_eq_gots hg hx'
    rw [heard_eq_gots hg hx] at hbefore
    rw [hgots] at hx' hy' ⊢
    exact hline.same_order hord.tame.orderly hX hY hXY hbefore hx' hy'
  refine ⟨⟨fun k => ?_, fun k k' hx hy hx' hy' =>
    ⟨hagree k k' hx hx' hy', hagree k' k hx' hx hy⟩⟩, fun hlt hret k hx hy => ?_⟩
  · cases hk : heard k s.log with
    | nil => exact List.nodup_nil
    | cons n ns =>
      rw [← hk, heard_eq_gots hg (n := n) (by simp [hk])]
      exact hline.gots_nodup _
  · have hret : SendReturned s₂ s₁.next := by
      rcases hret with rfl | hret
      · exact sendReturned_of_same_task hrun hgrow hone hpos h₁ h₂ hlt
      · exact hret
    have hgots := heard_eq_gots hg hx
    rw [hgots] at hx hy ⊢
    rcases (Ordered.before hrun hgrow hone h₂).put_or_gone hlt hret with ⟨a, q, hput⟩ | hgone
    · -- put down before the second send, so ahead at the first stop they share
      have hbefore : Before s.log (.put a q s₁.next) (.sent s₂.next (s₂.bus.destination g)) := by
        rcases sent_extends hrun hpos h₂ with ⟨es, hes⟩
        rw [← hes]
        exact (Relay.before_append.mpr (by simp [hput])).append_right
      exact hline.sent_order hord.tame.orderly hX hY hXY hbefore hx hy (Nat.ne_of_lt hlt)
    · -- what nobody put down nobody got
      rcases hrun.split h₂ with ⟨tr₁, tr₂, s₂', rfl, -, hstep, hlater⟩
      have hgone' : Gone s₁.next s.relay :=
        hlater.invariant (I := fun s => Gone s₁.next s.relay)
          (hgone.step (relay_step (deletesEmpty_of_grows (hgrow _ h₂)) hstep))
          (fun _ _ _ h hl hs => h.step (relay_step (deletesEmpty_of_grows hl) hs))
          fun p hp => hgrow p (by simp [hp])
      rcases Relay.mem_puts.mp (hline.got_put hx) with ⟨q, hq⟩
      exact absurd hq (hgone'.not_put _ _)

end TwoSends

/-- A single task never enters `tryReceive` of a client that is inside it. -/
theorem oneReceiver_of_one_task {tr : List (St Cmd × Lbl Cmd)} {t : TaskId}
    (hrun : Run step (St.init Cmd) tr s) (ht : EveryStep (fun _ l => ∀ t' ∈ l.task, t' = t) tr) :
    EveryStep OneReceiver tr := by
  intro p hp t₁ c hl t' a m htask
  rcases hrun.split hp with ⟨tr₁, tr₂, s', rfl, h₁, hstep, -⟩
  have hidle : ∀ t' ≠ t, p.1.task t' = .idle :=
    h₁.invariant (I := fun s => ∀ t' ≠ t, s.task t' = .idle)
      (C := fun _ l => ∀ t' ∈ l.task, t' = t) (fun _ _ => rfl)
      (fun s l s' h hl hs t' hne => by
        rcases task_cases (fires_of_step hs) t' with hsame | ⟨hl', -⟩
        · rw [hsame, h t' hne]
        · exact absurd (hl t' hl') hne)
      fun q hq => ht q (by simp [hq])
  have ht₁ : t₁ = t := ht p hp t₁ (by simp [hl, Lbl.task])
  by_cases hne : t' = t
  · -- the task of the step would be inside `tryReceive` already
    have hbusy : p.1.task t₁ = .receiving c a m := by rw [ht₁, ← hne, htask]
    rw [hl] at hstep
    simp [step, hbusy] at hstep
  · simp [hidle t' hne] at htask

/-- One message to the group is put into the first member's queue. -/
def sendOnce : List (Lbl Unit) :=
  [.send 0 0 1 (), .sendNext 0]

/-- A second one follows it, and both members receive both. -/
def sendAgain : List (Lbl Unit) :=
  [.send 0 1 1 (), .sendNext 0, .tryReceive 0 0, .sendNext 0, .tryReceive 0 0, .sendNext 0,
    .tryReceive 0 1, .sendNext 0, .tryReceive 0 1, .sendNext 0]

theorem sendOnce_enabled : (exec step twoMembersSt sendOnce).isSome = true := by
  decide +kernel

/-- The state with one message on its way. -/
def sentOnceSt : St Unit :=
  ((exec step twoMembersSt sendOnce).get sendOnce_enabled).2

theorem sendAgain_enabled : (exec step sentOnceSt sendAgain).isSome = true := by
  decide +kernel

/-- Two members hear two messages that one of them sends, in the order sent. -/
theorem group_order_two :
    ∃ tr s, Run step (St.init Unit) tr s ∧ tr.map Prod.snd = twoMembers ++ (sendOnce ++ sendAgain) ∧
      heard 0 s.log = [0, 1] ∧ heard 1 s.log = [0, 1] ∧ SameOrder s 0 1 := by
  have hrun := twoMembers_run.append ((run_get step twoMembersSt sendOnce sendOnce_enabled).append
    (run_get step sentOnceSt sendAgain sendAgain_enabled))
  have hfirst : (twoMembersSt, Lbl.send 0 0 1 ()) ∈
      ((exec step twoMembersSt sendOnce).get sendOnce_enabled).1 := List.mem_cons_self
  have hsecond : (sentOnceSt, Lbl.send 0 1 1 ()) ∈
      ((exec step sentOnceSt sendAgain).get sendAgain_enabled).1 := List.mem_cons_self
  refine ⟨_, _, hrun, by decide +kernel, by decide +kernel, by decide +kernel, ?_⟩
  exact (group_order hrun (by decide +kernel)
    (oneReceiver_of_one_task (t := 0) hrun (by decide +kernel)) (g := 1) (by decide)
    (List.mem_append_right _ (List.mem_append_left _ hfirst))
    (List.mem_append_right _ (List.mem_append_right _ hsecond))).1

end EspAcDimmer
