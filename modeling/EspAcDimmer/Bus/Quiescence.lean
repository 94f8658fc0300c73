import EspAcDimmer.Bus.Clients
import EspAcDimmer.Bus.Delivery
import EspAcDimmer.Lib.RelayEnd

/-! # Delivery ends

A message goes on as long as somebody takes it out of a queue or has it in hand. A message to `k`
destinations adds `2 * k + 1` to the allowance, all moves together stay within it, and in no state
is a message stuck: its queue has an owner who can receive it, or whose destructor passes it on.
Only what is put into a queue behind the loop of its owner's destructor stays there, and goes with
the queue.
-/

namespace EspAcDimmer

open Function Lts Relay

variable {Cmd : Type} {s s' : St Cmd} {l : Lbl Cmd} {t : TaskId} {c : ClientId}

/-- A step that takes a message out of a queue, puts it into one or destroys it. -/
def Delivers (s : St Cmd) (l : Lbl Cmd) : Prop :=
  ∃ s', step s l = some s' ∧ moves s.log < moves s'.log

/-- No message is in anybody's hands, or in a queue that somebody still reads. -/
structure Quiet (s : St Cmd) : Prop where
  hands : ∀ t, (s.task t).inHand = none
  queues : ∀ h slots, s.queue h = some slots →
    slots = [] ∨ ∃ t c, s.task t = .drained c ∧ (s.client c).queue = some h

/-! ## The moves of a message -/

/-- Refinement: what a step is to the relay, if a deleted queue may lose its messages. -/
theorem relay_step_or_loses (hstep : step s l = some s') :
    Relay.Step s.relay s'.relay ∨ Relay.Loses s.relay s'.relay := by
  by_cases hdel : DeletesEmpty s l
  · exact .inl (relay_step hdel hstep)
  · simp only [DeletesEmpty, not_forall] at hdel
    rcases hdel with ⟨t, c, h, slots, rfl, htask, hqueue, -, -⟩
    obtain rfl : s.freeQueue t c h = s' := by
      simpa [step, htask, St.deleteQueue, hqueue] using hstep
    refine .inr ⟨?_, rfl⟩
    intro pl
    cases pl with
    | inbox h' =>
      by_cases hh : h' = h
      · subst hh
        simp [St.relay]
      · simp [St.relay, hh]
    | hand t' =>
      by_cases htt : t' = t
      · subst htt
        simp [St.relay, Task.parcels, Task.inHand]
      · simp [St.relay, htt]

/-- In every state of every run the moves are within the allowance. -/
theorem bounded_of_run {tr : List (St Cmd × Lbl Cmd)} (hrun : Run step (St.init Cmd) tr s) :
    Relay.Bounded s.relay := by
  have hinit : Relay.Bounded (St.init Cmd).relay :=
    .init (fun pl => by cases pl <;> rfl) rfl
  refine hrun.invariant (I := fun s => Relay.Bounded s.relay) hinit ?_ everyStep_true
  intro s l s' hs _ hstep
  rcases relay_step_or_loses hstep with h | h
  · exact hs.step h
  · exact hs.loses h

/-- `sendToNextClient` puts the message into one queue, or destroys it. -/
theorem sendNext_moves (s : St Cmd) (t : TaskId) (m : BusMsg Cmd) :
    moves (s.sendToNextClient t m).log = moves s.log + 1 ∧
      allowance (s.sendToNextClient t m).log = allowance s.log := by
  rcases s.sendToNextClient_cases t m with ⟨-, he⟩ | ⟨a, q, rest, -, -, he⟩ |
    ⟨a, q, rest, slots, -, -, -, he⟩ | ⟨a, q, rest, slots, -, -, -, he⟩ <;>
  · rw [he]
    simp only [moves_append, allowance_append, moves_unreachable, allowance_missed]
    exact ⟨rfl, rfl⟩

/-- A step makes one move, without sending anything, or none. -/
theorem step_moves (hstep : step s l = some s') :
    moves s'.log = moves s.log ∨
      moves s'.log = moves s.log + 1 ∧ allowance s'.log = allowance s.log := by
  rcases log_cases hstep with he | ⟨_, _, _, _, -, he⟩ | ⟨_, _, _, _, _, -, -, -, he⟩ |
    ⟨_, _, _, _, _, -, -, -, -, he⟩ | ⟨t, stop, m, rfl, hhand, rfl⟩
  · exact .inl (by rw [he])
  · refine .inl ?_
    rw [he, moves_append]
    rfl
  · refine .inr ?_
    rw [he, moves_append, allowance_append]
    exact ⟨rfl, rfl⟩
  · refine .inr ?_
    rw [he, moves_append, allowance_append]
    exact ⟨rfl, rfl⟩
  · exact .inr (sendNext_moves s t m)

/-- Delivering steps use up the allowance that there is when they begin. -/
theorem moves_of_delivers {tr : List (St Cmd × Lbl Cmd)} (hrun : Run step s tr s')
    (hall : EveryStep Delivers tr) :
    moves s'.log = moves s.log + tr.length ∧ allowance s'.log = allowance s.log := by
  induction hrun with
  | nil => exact ⟨rfl, rfl⟩
  | snoc _ hstep ih =>
    rcases everyStep_snoc.mp hall with ⟨hpast, s₁, hs₁, hlt⟩
    obtain rfl := Option.some.inj (hstep.symm.trans hs₁)
    rcases ih hpast with ⟨hmoves, hallowance⟩
    rcases step_moves hstep with heq | ⟨hone, hsame⟩
    · exact absurd hlt (by rw [heq]; exact lt_irrefl _)
    · exact ⟨by rw [hone, hmoves, List.length_append]; rfl, hsame.trans hallowance⟩

/-! ## Who sees to the queues -/

/-- `connect` gives nobody a queue and takes none. -/
theorem client_queue_connect (s : St Cmd) (c k : ClientId) :
    ((s.connect c).client k).queue = (s.client k).queue := by
  rcases s.connect_cases c with ⟨-, he⟩ | ⟨h, e, hq, -, -, he⟩ | ⟨h, hq, -, he⟩
  · rw [he]
  · by_cases hk : k = c
    · rw [he, hk]
      simp [hq]
    · simp [he, hk]
  · by_cases hk : k = c
    · rw [he, hk]
      simp [hq]
    · simp [he, hk]

/-- `disconnect` does not take the queue. -/
theorem client_queue_disconnect (s : St Cmd) (c k : ClientId) :
    ((s.disconnect c).client k).queue = (s.client k).queue := by
  rcases s.disconnect_cases c with ⟨-, he⟩ | ⟨h, hq, he⟩
  · rw [he]
  · by_cases hk : k = c
    · rw [he, hk]
      simp [hq]
    · simp [he, hk]

/-- A destructor is at its work until it has deleted the queue. -/
theorem destroying_kept (hf : Fires s l s') (h : (s.task t).destroying = some c) :
    (s'.task t).destroying = some c ∨ (s'.client c).queue = none := by
  have hkeep : ∀ {t' : TaskId} {v : Task Cmd}, s'.task = update s.task t' v →
      ((s.task t').destroying = some c → v.destroying = some c) →
      (s'.task t).destroying = some c ∨ (s'.client c).queue = none := by
    intro t' v htask hv
    rw [htask]
    by_cases ht : t = t'
    · rw [ht] at h ⊢
      exact .inl (by rw [update_self]; exact hv h)
    · exact .inl (by rw [update_of_ne ht]; exact h)
  cases hf with
  | quiet | created | connect | disconnect => exact .inl h
  | joinLookup htask => exact hkeep rfl (by simp [htask, Task.destroying])
  | joinPassed htask => exact hkeep rfl (by simp [htask, Task.destroying])
  | joinRefused htask => exact hkeep rfl (by simp [htask, Task.destroying])
  | joinSection htask => exact hkeep rfl (by simp [htask, Task.destroying])
  | leaveLookup htask => exact hkeep rfl (by simp [htask, Task.destroying])
  | leavePassed htask => exact hkeep rfl (by simp [htask, Task.destroying])
  | leaveRefused htask => exact hkeep rfl (by simp [htask, Task.destroying])
  | leaveSection htask => exact hkeep rfl (by simp [htask, Task.destroying])
  | send htask => exact hkeep rfl (by simp [htask, Task.destroying])
  | @sendNext t' stop m hhand =>
    refine hkeep (St.sendToNextClient_task _ _ _) ?_
    cases htask : s.task t' <;> simp_all [Task.inHand, Task.afterSend, Task.destroying]
  | received htask => exact hkeep rfl (by simp [htask, Task.destroying])
  | @destroy t' c' htask halive =>
    by_cases hq : (s.client c').queue.isSome
    · have hdraining : (s.destroy t' c').task = update s.task t' (.draining c') := by
        rw [St.destroy_task, if_pos hq]
      exact hkeep hdraining (by simp [htask, Task.destroying])
    · exact .inl (by rw [St.destroy_task, if_neg hq]; exact h)
  | popped htask => exact hkeep rfl (by simp [htask, Task.destroying])
  | drained htask => exact hkeep rfl (by simp [htask, Task.destroying])
  | @deleteQueue t' c' h' htask hqueue =>
    by_cases hc : c = c'
    · exact .inr (by simp [hc])
    · exact hkeep rfl (by simp [htask, Task.destroying, Ne.symm hc])

/-- A destructor begins with a client that is alive. -/
theorem destroying_before (hf : Fires s l s') (h : (s'.task t).destroying = some c) :
    (s.task t).destroying = some c ∨ s.alive c = true ∧ l.task = some t := by
  have hkeep : ∀ {t' : TaskId} {v : Task Cmd}, s'.task = update s.task t' v →
      (v.destroying = some c → (s.task t').destroying = some c) →
      (s.task t).destroying = some c ∨ s.alive c = true ∧ l.task = some t := by
    intro t' v htask hv
    rw [htask] at h
    by_cases ht : t = t'
    · rw [ht, update_self] at h
      exact .inl (by rw [ht]; exact hv h)
    · rw [update_of_ne ht] at h
      exact .inl h
  cases hf with
  | quiet | created | connect | disconnect => exact .inl h
  | sendNext hhand => exact hkeep (St.sendToNextClient_task _ _ _) (afterSend_destroying hhand c)
  | @destroy t' c' htask halive =>
    by_cases hq : (s.client c').queue.isSome
    · rw [St.destroy_task, if_pos hq] at h
      by_cases ht : t = t'
      · rw [ht, update_self] at h
        obtain rfl : c' = c := Option.some.inj h
        exact .inr ⟨halive, by rw [ht]; rfl⟩
      · rw [update_of_ne ht] at h
        exact .inl h
    · rw [St.destroy_task, if_neg hq] at h
      exact .inl h
  | popped htask => exact hkeep rfl (by simp [htask, Task.destroying])
  | drained htask => exact hkeep rfl (by simp [htask, Task.destroying])
  | _ => exact hkeep rfl (by simp [Task.destroying])

/-- Every queue is some client's, every dying client with a queue is in the hands of one destructor,
and there is always a task that can receive. -/
structure Manned (s : St Cmd) : Prop where
  owner : ∀ {h}, (s.queue h).isSome = true → ∃ c, (s.client c).queue = some h
  destructor : ∀ {c}, (s.client c).queue.isSome = true → s.alive c = false →
    ∃ t, (s.task t).destroying = some c
  alone : ∀ {t t' c}, (s.task t).destroying = some c → (s.task t').destroying = some c → t = t'
  idle : ∃ N, ∀ t, N ≤ t → s.task t = .idle

theorem Manned.init : Manned (St.init Cmd) := by
  refine ⟨?_, ?_, ?_, 0, fun _ _ => rfl⟩ <;> simp [St.init, Task.destroying]

/-- Step lemma: a queue is made for a client and deleted by its only destructor. -/
theorem Manned.preserved (hm : Manned s) (hs : Sound s) (hstep : step s l = some s') :
    Manned s' := by
  have hf := fires_of_step hstep
  have hdestructor : ∀ {c}, (s.client c).queue.isSome = true → s.alive c = false →
      (s'.client c).queue.isSome = true → ∃ t, (s'.task t).destroying = some c := by
    intro c hqueue halive hqueue'
    rcases hm.destructor hqueue halive with ⟨t, ht⟩
    rcases destroying_kept hf ht with ht' | hnone
    · exact ⟨t, ht'⟩
    · rw [hnone] at hqueue'
      cases hqueue'
  refine ⟨?_, ?_, ?_, ?_⟩
  · intro h hlive
    cases tableMove_of_fires hf with
    | same hsame =>
      rw [hsame.live] at hlive
      rcases hm.owner hlive with ⟨c, hc⟩
      exact ⟨c, by rw [hsame.client]; exact hc⟩
    | @created c h' _ hnone _ =>
      by_cases hh : h = h'
      · refine ⟨c, ?_⟩
        rw [client_queue_connect, hh]
        simp
      · rcases hm.owner (h := h) (by simpa [hh] using hlive) with ⟨c', hc'⟩
        have hne : c' ≠ c := by
          rintro rfl
          rw [hnone] at hc'
          cases hc'
        refine ⟨c', ?_⟩
        rw [client_queue_connect]
        simpa [hne] using hc'
    | connect =>
      rcases hm.owner hlive with ⟨c', hc'⟩
      exact ⟨c', by rw [client_queue_connect]; exact hc'⟩
    | disconnect =>
      rcases hm.owner hlive with ⟨c', hc'⟩
      exact ⟨c', by rw [client_queue_disconnect]; exact hc'⟩
    | destroy =>
      rcases hm.owner (h := h) (by simpa using hlive) with ⟨c', hc'⟩
      exact ⟨c', by rw [St.destroy_client, client_queue_disconnect]; exact hc'⟩
    | @deleted t c h' htask hqueue =>
      have hh : h ≠ h' := by
        rintro rfl
        simp at hlive
      rcases hm.owner (h := h) (by simpa [hh] using hlive) with ⟨c', hc'⟩
      have hne : c' ≠ c := by
        rintro rfl
        exact hh (Option.some.inj (hc'.symm.trans hqueue))
      exact ⟨c', by simpa [hne] using hc'⟩
  · intro c hqueue hdead
    cases tableMove_of_fires hf with
    | same hsame =>
      rw [hsame.alive] at hdead
      exact hdestructor (by rw [← hsame.client]; exact hqueue) hdead hqueue
    | @created c' h' halive _ _ =>
      have hne : c ≠ c' := by
        rintro rfl
        exact absurd (halive.symm.trans hdead) (by simp)
      refine hdestructor ?_ hdead hqueue
      rw [client_queue_connect] at hqueue
      simpa [hne] using hqueue
    | connect =>
      exact hdestructor (by rw [client_queue_connect] at hqueue; exact hqueue) hdead hqueue
    | disconnect =>
      exact hdestructor (by rw [client_queue_disconnect] at hqueue; exact hqueue) hdead hqueue
    | @destroy t c' _ =>
      have hqueue' : (s.client c).queue.isSome = true := by
        rw [St.destroy_client, client_queue_disconnect] at hqueue
        exact hqueue
      by_cases hc : c = c'
      · -- its destructor begins here
        subst hc
        refine ⟨t, ?_⟩
        rw [St.destroy_task, if_pos hqueue', update_self]
        rfl
      · exact hdestructor hqueue' (by simpa [hc] using hdead) hqueue
    | @deleted t c' h' _ _ =>
      have hne : c ≠ c' := by
        rintro rfl
        simp at hqueue
      exact hdestructor (by simpa [hne] using hqueue) hdead hqueue
  · intro t t' c ht ht'
    rcases destroying_before hf ht with hold | ⟨halive, hl⟩
    · rcases destroying_before hf ht' with hold' | ⟨halive, -⟩
      · exact hm.alone hold hold'
      · exact absurd (halive.symm.trans (hs.destroying hold)) (by simp)
    · rcases destroying_before hf ht' with hold' | ⟨-, hl'⟩
      · exact absurd (halive.symm.trans (hs.destroying hold')) (by simp)
      · exact Option.some.inj (hl.symm.trans hl')
  · rcases hm.idle with ⟨N, hN⟩
    refine ⟨max N ((l.task.map (· + 1)).getD 0), ?_⟩
    intro t ht
    rcases max_le_iff.mp ht with ⟨htN, htl⟩
    rcases task_cases hf t with hsame | ⟨hl, -⟩
    · rw [hsame]
      exact hN t htN
    · rw [hl] at htl
      exact absurd htl (Nat.not_succ_le_self t)

/-- Every state of every run is manned. -/
theorem Manned.run {tr : List (St Cmd × Lbl Cmd)} (hrun : Run step (St.init Cmd) tr s) :
    Manned s := by
  have hboth : Sound s ∧ Manned s := by
    refine hrun.invariant (I := fun s => Sound s ∧ Manned s) ⟨.init, .init⟩ ?_ everyStep_true
    intro s l s' hs _ hstep
    exact ⟨hs.1.preserved hstep, hs.2.preserved hs.1 hstep⟩
  exact hboth.2

/-! ## The bus comes to rest -/

/-- Whoever has a message in hand can pass it on. -/
theorem delivers_of_hand {stop : Option BusAddr} {m : BusMsg Cmd}
    (hhand : (s.task t).inHand = some (stop, m)) : Delivers s (.sendNext t) := by
  refine ⟨s.sendToNextClient t m, by simp [step, hhand], ?_⟩
  rw [(sendNext_moves s t m).1]
  exact Nat.lt_succ_self _

/-- As long as the bus is not quiet, some task can go on. -/
theorem exists_delivers (hm : Manned s) (hquiet : ¬ Quiet s) : ∃ l, Delivers s l := by
  by_contra hnone
  apply hquiet
  have hhands : ∀ t, (s.task t).inHand = none := by
    intro t
    cases hhand : (s.task t).inHand with
    | none => rfl
    | some x => exact absurd ⟨_, delivers_of_hand hhand⟩ hnone
  refine ⟨hhands, ?_⟩
  intro h slots hslots
  cases slots with
  | nil => exact .inl rfl
  | cons slot slots =>
    right
    rcases hm.owner (h := h) (by rw [hslots]; rfl) with ⟨c, hqueue⟩
    cases halive : s.alive c with
    | true =>
      -- a task that does nothing else can receive for it
      rcases hm.idle with ⟨N, hN⟩
      refine absurd ⟨.tryReceive N c, _, by simp only [step, hN N (Nat.le_refl N), halive]; rfl,
        ?_⟩ hnone
      simp [St.tryReceive, hqueue, hslots, moves, Event.isMove]
    | false =>
      rcases hm.destructor (by rw [hqueue]; rfl) halive with ⟨t, ht⟩
      cases htask : s.task t with
      | draining c' =>
        obtain rfl : c' = c := by simpa [htask, Task.destroying] using ht
        refine absurd ⟨.drain t, _, by simp only [step, htask]; rfl, ?_⟩ hnone
        simp [St.drain, hqueue, hslots, moves, Event.isMove]
      | flushing c' stop m => simpa [htask, Task.inHand] using hhands t
      | drained c' =>
        obtain rfl : c' = c := by simpa [htask, Task.destroying] using ht
        exact ⟨t, c', htask, hqueue⟩
      | _ => simp [htask, Task.destroying] at ht

/-- A quiet bus delivers nothing: what is left waits behind the loop of a destructor. -/
theorem Quiet.not_delivers (hquiet : Quiet s) (hm : Manned s) (hs : Sound s) :
    ¬ Delivers s l := by
  rintro ⟨s', hstep, hlt⟩
  -- what is in a queue is in one that a destructor is about to delete
  have hdrained : ∀ {c h slot slots}, (s.client c).queue = some h →
      s.queue h = some (slot :: slots) → ∃ t, s.task t = .drained c := by
    intro c h slot slots hqueue hslots
    rcases hquiet.queues h _ hslots with hnil | ⟨t, c', ht, hqueue'⟩
    · cases hnil
    · rw [hs.queue_owner hqueue hqueue']
      exact ⟨t, ht⟩
  cases fires_of_step hstep with
  | sendNext hhand =>
    rw [hquiet.hands] at hhand
    cases hhand
  | @received t c h slot slots _ halive hqueue hslots =>
    rcases hdrained hqueue hslots with ⟨t', ht'⟩
    have hdead : s.alive c = false := hs.destroying (t := t') (by rw [ht']; rfl)
    rw [hdead] at halive
    cases halive
  | @popped t c h slot slots htask hqueue hslots =>
    rcases hdrained hqueue hslots with ⟨t', ht'⟩
    have hsame : t = t' := hm.alone (c := c) (by rw [htask]; rfl) (by rw [ht']; rfl)
    rw [hsame, ht'] at htask
    cases htask
  | send =>
    refine absurd hlt ?_
    simp [St.send, moves, Event.isMove]
  | destroy => exact absurd hlt (by simp)
  | _ => exact absurd hlt (lt_irrefl _)

/-- The moves that are left bound the way to a quiet bus. -/
theorem exists_quiet {tr : List (St Cmd × Lbl Cmd)} (hrun : Run step (St.init Cmd) tr s) {k : Nat}
    (hk : allowance s.log ≤ moves s.log + k) :
    ∃ tr' s', Run step s tr' s' ∧ EveryStep Delivers tr' ∧ Quiet s' := by
  induction k generalizing tr s with
  | zero =>
    refine ⟨[], s, .nil, .nil, ?_⟩
    by_contra hquiet
    rcases exists_delivers (Manned.run hrun) hquiet with ⟨l, s₁, hstep, hlt⟩
    have hle := (bounded_of_run (hrun.snoc hstep)).moves_le
    simp only [relay_log] at hle
    rcases step_moves hstep with heq | ⟨hone, hsame⟩ <;> omega
  | succ k ih =>
    by_cases hquiet : Quiet s
    · exact ⟨[], s, .nil, .nil, hquiet⟩
    rcases exists_delivers (Manned.run hrun) hquiet with ⟨l, s₁, hstep, hlt⟩
    have hk₁ : allowance s₁.log ≤ moves s₁.log + k := by
      rcases step_moves hstep with heq | ⟨hone, hsame⟩ <;> omega
    rcases ih (hrun.snoc hstep) hk₁ with ⟨tr', s', hrun', hall, hquiet'⟩
    refine ⟨[(s, l)] ++ tr', s', (Run.nil.snoc hstep).append hrun', ?_, hquiet'⟩
    intro p hp
    rcases List.mem_append.mp hp with hp | hp
    · rw [List.mem_singleton.mp hp]
      exact ⟨s₁, hstep, hlt⟩
    · exact hall p hp

/-- In whatever order the tasks deliver, the bus comes to rest: they make no more than the moves
that all messages sent so far have left, can go on for as long as the bus is not quiet, and so
lead it to where it is. -/
theorem delivery_ends {tr : List (St Cmd × Lbl Cmd)} (hrun : Run step (St.init Cmd) tr s) :
    (∀ tr' s', Run step s tr' s' → EveryStep Delivers tr' →
      tr'.length + moves s.log ≤ allowance s.log ∧ (Quiet s' ↔ ∀ l, ¬ Delivers s' l)) ∧
    ∃ tr' s', Run step s tr' s' ∧ EveryStep Delivers tr' ∧ Quiet s' := by
  constructor
  · intro tr' s' hrun' hall
    have hreached := hrun.append hrun'
    rcases moves_of_delivers hrun' hall with ⟨hmoves, hallowance⟩
    have hle := (bounded_of_run hreached).moves_le
    simp only [relay_log] at hle
    refine ⟨by omega, ?_, ?_⟩
    · intro hquiet l
      exact hquiet.not_delivers (Manned.run hreached) (Sound.run hreached)
    · intro hnone
      by_contra hquiet
      rcases exists_delivers (Manned.run hreached) hquiet with ⟨l, hl⟩
      exact hnone l hl
  · exact exists_quiet hrun (Nat.le_add_left _ _)

/-- A message to both members of a group. -/
def sendToBoth : List (Lbl Unit) := [.send 0 0 1 ()]

theorem sendToBoth_enabled : (exec step twoMembersSt sendToBoth).isSome = true := by
  decide +kernel

/-- One message to two members: five moves allowed, none made yet, and quiet after at most five. -/
theorem delivery_ends_two :
    ∃ tr s, Run step (St.init Unit) tr s ∧ tr.map Prod.snd = twoMembers ++ sendToBoth ∧
      moves s.log = 0 ∧ allowance s.log = 5 ∧
      ∃ tr' s', Run step s tr' s' ∧ EveryStep Delivers tr' ∧ Quiet s' ∧ tr'.length ≤ 5 := by
  have hrun := twoMembers_run.append (run_get step twoMembersSt sendToBoth sendToBoth_enabled)
  have hallows :
      allowance ((exec step twoMembersSt sendToBoth).get sendToBoth_enabled).2.log = 5 := by
    decide +kernel
  refine ⟨_, _, hrun, by decide +kernel, by decide +kernel, hallows, ?_⟩
  rcases delivery_ends hrun with ⟨hbound, tr', s', hrun', hall, hquiet⟩
  have hle := (hbound tr' s' hrun' hall).1
  exact ⟨tr', s', hrun', hall, hquiet, by omega⟩

end EspAcDimmer
