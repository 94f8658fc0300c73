import EspAcDimmer.Bus.Clients

/-! # Messages on their way

The bus is a relay: queues are inboxes, tasks are hands, and `sendToNextClient` hands a message on
to the back of its destination list. Every step of the system is a move of that relay or leaves it
alone, so the ledger of the relay accounts for every message.

It also shows what a full queue costs. `sendToNextClient` destroys the message it could not put
down, with the destinations that are still on its list: every member is accounted for exactly as
long as no such message has destinations left.
-/

namespace EspAcDimmer

open Function StdList Lts

variable {Cmd : Type} {s s' : St Cmd} {l : Lbl Cmd}

/-! ## The next hop -/

namespace Bus

variable {bus : Bus} {a : BusAddr} {q : QueueHandle} {rest : List BusAddr}

/-- If nothing is found, the loop has skipped the whole list. -/
theorem resolveLoop_none {destination : List BusAddr}
    (h : (bus.resolveLoop destination).found = none) :
    destination = (bus.resolveLoop destination).skipped := by
  induction destination with
  | nil => rfl
  | cons addr addrs ih =>
    cases hr : bus.resolve addr with
    | some q => simp [resolveLoop, hr] at h
    | none =>
      simp only [resolveLoop, hr] at h ⊢
      rw [← ih h]

/-- What is found resolves, and stands behind what was skipped and before the rest. -/
theorem resolveLoop_some {destination : List BusAddr}
    (h : (bus.resolveLoop destination).found = some (a, q, rest)) :
    destination = (bus.resolveLoop destination).skipped ++ a :: rest.reverse ∧
      bus.resolve a = some q := by
  induction destination with
  | nil => simp [resolveLoop] at h
  | cons addr addrs ih =>
    cases hr : bus.resolve addr with
    | some q' =>
      simp only [resolveLoop, hr, Option.some.injEq, Prod.mk.injEq] at h ⊢
      rcases h with ⟨rfl, rfl, rfl⟩
      simp [hr]
    | none =>
      simp only [resolveLoop, hr] at h ⊢
      rcases ih h with ⟨he, hq⟩
      exact ⟨by rw [List.cons_append, ← he], hq⟩

/-- What the loop skips does not resolve. -/
theorem resolve_skipped {destination : List BusAddr} :
    ∀ x ∈ (bus.resolveLoop destination).skipped, bus.resolve x = none := by
  induction destination with
  | nil => simp [resolveLoop]
  | cons addr addrs ih =>
    cases hr : bus.resolve addr with
    | some q => simp [resolveLoop, hr]
    | none =>
      intro x hx
      simp only [resolveLoop, hr, List.mem_cons] at hx
      rcases hx with rfl | hx
      · exact hr
      · exact ih x hx

/-- If there is no next hop, all destinations were skipped. -/
theorem nextHop_none {destination : List BusAddr} (h : (bus.nextHop destination).found = none) :
    destination.reverse = (bus.nextHop destination).skipped :=
  resolveLoop_none h

/-- The next hop resolves, and stands behind what was skipped and before the rest. -/
theorem nextHop_some {destination : List BusAddr}
    (h : (bus.nextHop destination).found = some (a, q, rest)) :
    destination.reverse = (bus.nextHop destination).skipped ++ a :: rest.reverse ∧
      bus.resolve a = some q :=
  resolveLoop_some h

/-- What was skipped are addresses of the list. -/
theorem mem_of_skipped {destination : List BusAddr} {x : BusAddr}
    (hx : x ∈ (bus.nextHop destination).skipped) : x ∈ destination := by
  cases hfound : (bus.nextHop destination).found with
  | none =>
    rw [← nextHop_none hfound] at hx
    simpa using hx
  | some hop =>
    rcases hop with ⟨a, q, rest⟩
    have hmem : x ∈ destination.reverse := by
      rw [(nextHop_some hfound).1]
      exact List.mem_append_left _ hx
    simpa using hmem

end Bus

/-! ## The system as a relay -/

open Relay (Place Parcel load received missedAt leftOut settled)

def Slot.parcel (slot : Slot Cmd) : Parcel BusAddr :=
  ⟨slot.busMsg.serial, some slot.stop, slot.busMsg.destination⟩

/-- The parcel in the hands of a task. -/
def Task.parcels (task : Task Cmd) : List (Parcel BusAddr) :=
  task.inHand.toList.map fun x => ⟨x.2.serial, x.1, x.2.destination⟩

/-- The refinement map. -/
def St.relay (s : St Cmd) : Relay.St BusAddr QueueHandle TaskId ClientId where
  held
    | .inbox h => ((s.queue h).getD []).map Slot.parcel
    | .hand t => (s.task t).parcels
  next := s.next
  log := s.log

@[simp] theorem relay_next : s.relay.next = s.next := rfl
@[simp] theorem relay_log : s.relay.log = s.log := rfl

/-- The parcels in an inbox are the messages in the queue. -/
theorem relay_inbox {h : QueueHandle} {slots : List (Slot Cmd)} (hq : s.queue h = some slots) :
    s.relay.held (.inbox h) = slots.map Slot.parcel := by
  simp [St.relay, hq]

/-- The parcel in a hand is the message that the task has. -/
theorem relay_hand {t : TaskId} {stop : Option BusAddr} {m : BusMsg Cmd}
    (h : (s.task t).inHand = some (stop, m)) :
    s.relay.held (.hand t) = [⟨m.serial, stop, m.destination⟩] := by
  simp [St.relay, Task.parcels, h]

theorem relay_hand_empty {t : TaskId} (h : (s.task t).inHand = none) :
    s.relay.held (.hand t) = [] := by
  simp [St.relay, Task.parcels, h]

/-- A deletion, in the label if any, finds its queue empty. -/
def DeletesEmpty (s : St Cmd) (l : Lbl Cmd) : Prop :=
  ∀ t c h slots, l = .deleteQueue t → s.task t = .drained c → (s.client c).queue = some h →
    s.queue h = some slots → slots = []

/-- A step that changes no queue and moves a task with empty hands to a place with empty hands. -/
theorem relay_stutter {t : TaskId} {v : Task Cmd} (hqueue : s'.queue = s.queue)
    (htask : s'.task = update s.task t v) (hnext : s'.next = s.next) (hlog : s'.log = s.log)
    (hv : v.inHand = none) (ht : (s.task t).inHand = none) : Relay.Step s.relay s'.relay := by
  refine .stutter ?_ hnext hlog
  funext pl
  cases pl with
  | inbox h => simp [St.relay, hqueue]
  | hand t' =>
    by_cases htt : t' = t
    · subst htt
      simp [St.relay, htask, Task.parcels, hv, ht]
    · simp [St.relay, htask, htt]

/-- The frame of a step that changes the hands of task `t` and no queue. -/
theorem relay_frame_hand {t : TaskId} {v : Task Cmd} (hqueue : s'.queue = s.queue)
    (htask : s'.task = update s.task t v) (pl : Place QueueHandle TaskId) (hpl : pl ≠ .hand t) :
    s'.relay.held pl = s.relay.held pl := by
  cases pl with
  | inbox h => simp [St.relay, hqueue]
  | hand t' =>
    have htt : t' ≠ t := fun h => hpl (by rw [h])
    simp [St.relay, htask, htt]

/-- The frame of a step that changes the hands of task `t` and queue `h`. -/
theorem relay_frame {t : TaskId} {v : Task Cmd} {h : QueueHandle} {w : Option (List (Slot Cmd))}
    (hqueue : s'.queue = update s.queue h w) (htask : s'.task = update s.task t v)
    (pl : Place QueueHandle TaskId) (hpl : pl ≠ .hand t) (hpl' : pl ≠ .inbox h) :
    s'.relay.held pl = s.relay.held pl := by
  cases pl with
  | inbox h' =>
    have hh : h' ≠ h := fun he => hpl' (by rw [he])
    simp [St.relay, hqueue, hh]
  | hand t' =>
    have htt : t' ≠ t := fun he => hpl (by rw [he])
    simp [St.relay, htask, htt]

/-- A task that has sent its message has it no more. -/
theorem afterSend_inHand (v : Task Cmd) : v.afterSend.inHand = none := by
  cases v <;> rfl

/-- `sendToNextClient` puts the message down at the next stop or destroys it. -/
theorem relay_sendNext {t : TaskId} {stop : Option BusAddr} {m : BusMsg Cmd}
    (hhand : (s.task t).inHand = some (stop, m)) :
    Relay.Step s.relay (s.sendToNextClient t m).relay := by
  have hsrc := relay_hand hhand
  have hafter := afterSend_inHand (s.task t)
  rcases s.sendToNextClient_cases t m with ⟨hfound, he⟩ | ⟨a, q, rest, hfound, -, he⟩ |
    ⟨a, q, rest, slots, hfound, hslots, -, he⟩ | ⟨a, q, rest, slots, hfound, -, -, he⟩ <;> rw [he]
  · -- nobody could be reached
    refine .retire t _ ((s.bus.nextHop m.destination).skipped.map fun a => (a, .unreachable)) []
      hsrc ?_ (relay_hand_empty (by simp [hafter])) (relay_frame_hand rfl rfl) rfl (by simp)
    have hroute := Bus.nextHop_none hfound
    simpa [Function.comp_def] using hroute
  · -- a deleted queue: the stop it was meant for is left out with the rest
    refine .retire t _ ((s.bus.nextHop m.destination).skipped.map fun a => (a, .unreachable))
      (rest ++ [a]) hsrc ?_ (relay_hand_empty (by simp [hafter])) (relay_frame_hand rfl rfl) rfl
      (by simp)
    have hroute := (Bus.nextHop_some hfound).1
    simpa [Function.comp_def] using hroute
  · refine .forward t _ _ a q rest hsrc (Bus.nextHop_some hfound).1
      (relay_hand_empty (by simp [hafter])) ?_ (relay_frame rfl rfl) rfl (by simp)
    rw [relay_inbox hslots]
    simp [St.relay, Slot.parcel]
  · -- a full queue
    refine .retire t _ (((s.bus.nextHop m.destination).skipped.map fun a => (a, .unreachable)) ++
      [(a, .full)]) rest hsrc ?_ (relay_hand_empty (by simp [hafter])) (relay_frame_hand rfl rfl)
      rfl (by simp)
    have hroute := (Bus.nextHop_some hfound).1
    simpa [Function.comp_def] using hroute

/-- Refinement: every step of the system is a move of the relay, unless it deletes a queue that
still holds messages. -/
theorem relay_step (hdel : DeletesEmpty s l) (hstep : step s l = some s') :
    Relay.Step s.relay s'.relay := by
  cases fires_of_step hstep with
  | quiet => exact .stutter rfl rfl rfl
  | @created c h _ _ hfree =>
    -- the new queue is empty, so no parcel appears
    refine .stutter ?_ rfl rfl
    funext pl
    cases pl with
    | inbox h' =>
      by_cases hh : h' = h
      · subst hh
        simp [St.relay, hfree]
      · simp [St.relay, hh]
    | hand t => rfl
  | connect => exact .stutter rfl rfl rfl
  | disconnect => exact .stutter rfl rfl rfl
  | joinLookup htask => exact relay_stutter rfl rfl rfl rfl rfl (by simp [htask, Task.inHand])
  | joinPassed htask => exact relay_stutter rfl rfl rfl rfl rfl (by simp [htask, Task.inHand])
  | joinRefused htask => exact relay_stutter rfl rfl rfl rfl rfl (by simp [htask, Task.inHand])
  | joinSection htask => exact relay_stutter rfl rfl rfl rfl rfl (by simp [htask, Task.inHand])
  | leaveLookup htask => exact relay_stutter rfl rfl rfl rfl rfl (by simp [htask, Task.inHand])
  | leavePassed htask => exact relay_stutter rfl rfl rfl rfl rfl (by simp [htask, Task.inHand])
  | leaveRefused htask => exact relay_stutter rfl rfl rfl rfl rfl (by simp [htask, Task.inHand])
  | leaveSection htask => exact relay_stutter rfl rfl rfl rfl rfl (by simp [htask, Task.inHand])
  | @send t c toAddr msg htask _ _ =>
    refine .send t (s.bus.destination toAddr) (relay_hand_empty (by simp [htask, Task.inHand])) ?_
      (relay_frame_hand rfl rfl) rfl rfl
    simp [St.relay, St.send, Task.parcels, Task.inHand]
  | sendNext hhand => exact relay_sendNext hhand
  | @received t c h slot slots htask _ _ hslots =>
    refine .take h t slot.parcel (slots.map Slot.parcel) slot.stop c
      (relay_inbox hslots) rfl (relay_hand_empty (by simp [htask, Task.inHand]))
      (relay_inbox (by simp)) (relay_hand (by simp [Task.inHand])) (relay_frame rfl rfl) rfl rfl
  | @destroy t c htask _ =>
    by_cases hq : (s.client c).queue.isSome
    · exact relay_stutter (t := t) (v := .draining c) (by simp) (by simp [St.destroy_task, hq])
        (by simp) (by simp) rfl (by simp [htask, Task.inHand])
    · refine .stutter ?_ (by simp) (by simp)
      funext pl
      cases pl <;> simp [St.relay, St.destroy_task, hq]
  | @popped t c h slot slots htask _ hslots =>
    refine .withdraw h t slot.parcel (slots.map Slot.parcel) slot.stop
      (relay_inbox hslots) rfl (relay_hand_empty (by simp [htask, Task.inHand]))
      (relay_inbox (by simp)) (relay_hand (by simp [Task.inHand])) (relay_frame rfl rfl) rfl rfl
  | drained htask => exact relay_stutter rfl rfl rfl rfl rfl (by simp [htask, Task.inHand])
  | @deleteQueue t c h htask hqueue =>
    -- and the deleted one was, so none disappears
    refine .stutter ?_ rfl rfl
    funext pl
    cases pl with
    | inbox h' =>
      by_cases hh : h' = h
      · subst hh
        cases hslots : s.queue h' with
        | none => simp [St.relay, hslots]
        | some slots => simp [St.relay, hslots, hdel t c h' slots rfl htask hqueue hslots]
      · simp [St.relay, hh]
    | hand t' =>
      by_cases htt : t' = t
      · subst htt
        simp [St.relay, Task.parcels, htask, Task.inHand]
      · simp [St.relay, htt]

/-- The ledger of the system: that of the relay it refines. -/
abbrev Ledger (s : St Cmd) : Prop :=
  Relay.Inv s.relay

/-- A bus without messages has nothing to account for. -/
theorem Ledger.init : Ledger (St.init Cmd) :=
  Relay.Inv.init (fun pl => by cases pl <;> rfl) rfl

/-- Step lemma: a step is one of the relay, which keeps the ledger. -/
theorem Ledger.preserved (h : Ledger s) (hdel : DeletesEmpty s l) (hstep : step s l = some s') :
    Ledger s' :=
  Relay.Inv.step h (relay_step hdel hstep)

/-! ## What a step does to queues and log -/

/-- An item of a queue was there before, or was put there for an address of the queue. -/
theorem slot_cases (hf : Fires s l s') {h : QueueHandle} {slots' : List (Slot Cmd)}
    {slot : Slot Cmd} (hq : s'.queue h = some slots') (hmem : slot ∈ slots') :
    (∃ slots, s.queue h = some slots ∧ slot ∈ slots) ∨ s.bus.resolve slot.stop = some h := by
  have hkeep : s'.queue = s.queue → ∃ slots, s.queue h = some slots ∧ slot ∈ slots := fun he =>
    ⟨slots', he ▸ hq, hmem⟩
  -- a pop takes an item away and adds none
  have htail : ∀ {h' : QueueHandle} {head : Slot Cmd} {tail : List (Slot Cmd)},
      s.queue h' = some (head :: tail) → s'.queue = update s.queue h' (some tail) →
      ∃ slots, s.queue h = some slots ∧ slot ∈ slots := by
    intro h' head tail hold hnew
    rw [hnew] at hq
    by_cases hh : h = h'
    · subst hh
      obtain rfl : tail = slots' := by simpa using hq
      exact ⟨_, hold, List.mem_cons_of_mem _ hmem⟩
    · rw [update_of_ne hh] at hq
      exact ⟨slots', hq, hmem⟩
  cases hf with
  | @created c h' _ _ _ =>
    by_cases hh : h = h'
    · subst hh
      obtain rfl : [] = slots' := by simpa using hq
      simp at hmem
    · exact Or.inl ⟨slots', by simpa [hh] using hq, hmem⟩
  | @sendNext t stop m hhand =>
    rcases s.sendToNextClient_cases t m with ⟨-, he⟩ | ⟨a, q, rest, -, -, he⟩ |
      ⟨a, q, rest, slots, hfound, hslots, -, he⟩ | ⟨a, q, rest, slots, -, -, -, he⟩
    · exact Or.inl (hkeep (by rw [he]; rfl))
    · exact Or.inl (hkeep (by rw [he]; rfl))
    · rw [he] at hq
      by_cases hh : h = q
      · subst hh
        obtain rfl : slots ++ [⟨a, { m with destination := rest }⟩] = slots' := by simpa using hq
        rcases List.mem_append.mp hmem with hmem | hmem
        · exact Or.inl ⟨slots, hslots, hmem⟩
        · obtain rfl : slot = ⟨a, { m with destination := rest }⟩ := by simpa using hmem
          exact Or.inr (Bus.nextHop_some hfound).2
      · exact Or.inl ⟨slots', by simpa [hh] using hq, hmem⟩
    · exact Or.inl (hkeep (by rw [he]; rfl))
  | received _ _ _ hslots => exact Or.inl (htail hslots rfl)
  | destroy => exact Or.inl (hkeep (St.destroy_queue _ _ _))
  | popped _ _ hslots => exact Or.inl (htail hslots rfl)
  | @deleteQueue t c h' _ _ =>
    by_cases hh : h = h'
    · subst hh
      simp at hq
    · exact Or.inl ⟨slots', by simpa [hh] using hq, hmem⟩
  | _ => exact Or.inl (hkeep rfl)

/-- What a step can add to the log. -/
theorem log_cases (hstep : step s l = some s') :
    s'.log = s.log ∨
    (∃ t c toAddr msg, l = .send t c toAddr msg ∧
      s'.log = s.log ++ [.sent s.next (s.bus.destination toAddr)]) ∨
    (∃ t c q slot slots, l = .tryReceive t c ∧ (s.client c).queue = some q ∧
      s.queue q = some (slot :: slots) ∧
      s'.log = s.log ++ [.got slot.stop c slot.busMsg.serial]) ∨
    (∃ t c q slot slots, l = .drain t ∧ s.task t = .draining c ∧ (s.client c).queue = some q ∧
      s.queue q = some (slot :: slots) ∧
      s'.log = s.log ++ [.missed slot.stop .withdrawn slot.busMsg.serial]) ∨
    (∃ t stop m, l = .sendNext t ∧ (s.task t).inHand = some (stop, m) ∧
      s' = s.sendToNextClient t m) := by
  cases fires_of_step hstep with
  | @send t c toAddr msg => exact Or.inr (Or.inl ⟨t, c, toAddr, msg, rfl, rfl⟩)
  | @received t c q slot slots _ _ hqueue hslots =>
    exact Or.inr (Or.inr (Or.inl ⟨t, c, q, slot, slots, rfl, hqueue, hslots, rfl⟩))
  | @popped t c q slot slots htask hqueue hslots =>
    exact Or.inr (Or.inr (Or.inr (Or.inl ⟨t, c, q, slot, slots, rfl, htask, hqueue, hslots, rfl⟩)))
  | @sendNext t stop m hhand =>
    exact Or.inr (Or.inr (Or.inr (Or.inr ⟨t, stop, m, rfl, hhand, rfl⟩)))
  | destroy => exact Or.inl (St.destroy_log _ _ _)
  | _ => exact Or.inl rfl

/-- A client got a message in this step, from its queue, or before. -/
theorem got_cases (hstep : step s l = some s') {a : BusAddr} {c : ClientId} {n : Nat}
    (h : .got a c n ∈ s'.log) : .got a c n ∈ s.log ∨ ∃ t q slot slots, l = .tryReceive t c ∧
      (s.client c).queue = some q ∧ s.queue q = some (slot :: slots) ∧ slot.stop = a ∧
      slot.busMsg.serial = n := by
  rcases log_cases hstep with he | ⟨_, _, _, _, -, he⟩ |
    ⟨t, c', q, slot, slots, rfl, hq, hslots, he⟩ | ⟨_, _, _, _, _, -, -, -, -, he⟩ |
    ⟨t, stop, m, -, -, rfl⟩
  · exact Or.inl (he ▸ h)
  · exact Or.inl (by simpa [he] using h)
  · rw [he, List.mem_append, List.mem_singleton] at h
    rcases h with h | h
    · exact Or.inl h
    · obtain ⟨rfl, rfl, rfl⟩ : a = slot.stop ∧ c = c' ∧ n = slot.busMsg.serial := by simpa using h
      exact Or.inr ⟨t, q, slot, slots, rfl, hq, hslots, rfl, rfl⟩
  · exact Or.inl (by simpa [he] using h)
  · rcases s.sendToNextClient_cases t m with ⟨-, he⟩ | ⟨_, _, _, -, -, he⟩ |
      ⟨_, _, _, _, -, -, -, he⟩ | ⟨_, _, _, _, -, -, -, he⟩ <;>
    · exact Or.inl (by simpa [he] using h)

/-- A message was put into a queue in this step, for an address of the queue, or before. -/
theorem put_cases (hstep : step s l = some s') {a : BusAddr} {q : QueueHandle} {n : Nat}
    (h : .put a q n ∈ s'.log) : .put a q n ∈ s.log ∨ s.bus.resolve a = some q := by
  rcases log_cases hstep with he | ⟨_, _, _, _, -, he⟩ | ⟨_, _, _, _, _, -, -, -, he⟩ |
    ⟨_, _, _, _, _, -, -, -, -, he⟩ | ⟨t, stop, m, -, -, rfl⟩
  · exact Or.inl (he ▸ h)
  · exact Or.inl (by simpa [he] using h)
  · exact Or.inl (by simpa [he] using h)
  · exact Or.inl (by simpa [he] using h)
  · rcases s.sendToNextClient_cases t m with ⟨-, he⟩ | ⟨_, _, _, -, -, he⟩ |
      ⟨b, q', _, _, hfound, -, -, he⟩ | ⟨_, _, _, _, -, -, -, he⟩
    · exact Or.inl (by simpa [he] using h)
    · exact Or.inl (by simpa [he] using h)
    · rw [he, List.mem_append, List.mem_singleton] at h
      rcases h with h | h
      · exact Or.inl (by simpa using h)
      · obtain ⟨rfl, rfl, -⟩ : a = b ∧ q = q' ∧ n = m.serial := by simpa using h
        exact Or.inr (Bus.nextHop_some hfound).2
    · exact Or.inl (by simpa [he] using h)

/-- A member is passed over in a step because it cannot be reached, because its queue is full or
because its client is being destroyed. -/
theorem missed_new (hstep : step s l = some s') {a : BusAddr} {why : Relay.Miss} {n : Nat}
    (h : .missed a why n ∈ s'.log.drop s.log.length) :
    (∃ t stop m, l = .sendNext t ∧ (s.task t).inHand = some (stop, m) ∧ m.serial = n ∧
      a ∈ m.destination ∧ ((why = .unreachable ∧ s.bus.resolve a = none) ∨
        why = .full ∧ ∃ q rest slots, (s.bus.nextHop m.destination).found = some (a, q, rest) ∧
          s.queue q = some slots ∧ messageQueueLength ≤ slots.length)) ∨
    ∃ t c q slot slots, l = .drain t ∧ s.task t = .draining c ∧ (s.client c).queue = some q ∧
      s.queue q = some (slot :: slots) ∧ slot.stop = a := by
  rcases log_cases hstep with he | ⟨_, _, _, _, -, he⟩ | ⟨_, _, _, _, _, -, -, -, he⟩ |
    ⟨t, c, q, slot, slots, hl, htask, hq, hslots, he⟩ | ⟨t, stop, m, rfl, hhand, rfl⟩
  · simp [he] at h
  · simp [he] at h
  · simp [he] at h
  · obtain ⟨rfl, -, -⟩ : a = slot.stop ∧ why = .withdrawn ∧ n = slot.busMsg.serial := by
      simpa [he] using h
    exact Or.inr ⟨t, c, q, slot, slots, hl, htask, hq, hslots, rfl⟩
  · apply Or.inl
    -- however the send ended, its skipped addresses did not resolve
    have hunreachable : a ∈ (s.bus.nextHop m.destination).skipped → .unreachable = why →
        m.serial = n → ∃ t' stop m, (.sendNext t : Lbl Cmd) = .sendNext t' ∧
          (s.task t').inHand = some (stop, m) ∧ m.serial = n ∧ a ∈ m.destination ∧
          ((why = .unreachable ∧ s.bus.resolve a = none) ∨ why = .full ∧ ∃ q rest slots,
            (s.bus.nextHop m.destination).found = some (a, q, rest) ∧ s.queue q = some slots ∧
              messageQueueLength ≤ slots.length) := fun ha hw hn =>
      ⟨t, stop, m, rfl, hhand, hn, Bus.mem_of_skipped ha,
        Or.inl ⟨hw.symm, Bus.resolve_skipped a ha⟩⟩
    rcases s.sendToNextClient_cases t m with ⟨-, he⟩ | ⟨_, _, _, -, -, he⟩ |
      ⟨_, _, _, _, -, -, -, he⟩ | ⟨b, q, rest, slots, hfound, hslots, hfull, he⟩
    · simp [he] at h
      exact hunreachable h.1 h.2.1 h.2.2
    · simp [he] at h
      exact hunreachable h.1 h.2.1 h.2.2
    · simp [he] at h
      exact hunreachable h.1 h.2.1 h.2.2
    · simp [he] at h
      rcases h with h | ⟨rfl, rfl, rfl⟩
      · exact hunreachable h.1 h.2.1 h.2.2
      · have hmem : a ∈ m.destination.reverse := by simp [(Bus.nextHop_some hfound).1]
        exact ⟨t, stop, m, rfl, hhand, rfl, by simpa using hmem,
          Or.inr ⟨rfl, q, rest, slots, hfound, hslots, hfull⟩⟩

/-- The log only grows. -/
theorem log_extends (hstep : step s l = some s') : s.log <+: s'.log := by
  rcases log_cases hstep with he | ⟨_, _, _, _, -, he⟩ | ⟨_, _, _, _, _, -, -, -, he⟩ |
    ⟨_, _, _, _, _, -, -, -, -, he⟩ | ⟨t, stop, m, rfl, hhand, rfl⟩
  · exact ⟨[], by rw [he, List.append_nil]⟩
  · exact ⟨_, he.symm⟩
  · exact ⟨_, he.symm⟩
  · exact ⟨_, he.symm⟩
  · rcases s.sendToNextClient_cases t m with ⟨-, he⟩ | ⟨_, _, _, -, -, he⟩ |
      ⟨_, _, _, _, -, -, -, he⟩ | ⟨_, _, _, _, -, -, -, he⟩ <;>
    · rw [he]
      simp only [List.append_assoc]
      exact List.prefix_append _ _

/-- An event in the log is an old one or belongs to this step. -/
theorem mem_log_new (hstep : step s l = some s')
    {e : Relay.Event BusAddr QueueHandle ClientId} (h : e ∈ s'.log) :
    e ∈ s.log ∨ e ∈ s'.log.drop s.log.length := by
  rcases log_extends hstep with ⟨es, he⟩
  rw [← he] at h ⊢
  simpa using h

/-- A message was destroyed with destinations left in this step, at a full or a deleted queue, or
before. -/
theorem retired_cases (hstep : step s l = some s') {rest : List BusAddr} {n : Nat}
    (h : .retired rest n ∈ s'.log) : .retired rest n ∈ s.log ∨ rest = [] ∨
      ∃ t stop m a q left, l = .sendNext t ∧ (s.task t).inHand = some (stop, m) ∧ m.serial = n ∧
        (s.bus.nextHop m.destination).found = some (a, q, left) ∧
        ((s.queue q = none ∧ rest = left ++ [a]) ∨
          ∃ slots, s.queue q = some slots ∧ messageQueueLength ≤ slots.length ∧ rest = left) := by
  rcases log_cases hstep with he | ⟨_, _, _, _, -, he⟩ | ⟨_, _, _, _, _, -, -, -, he⟩ |
    ⟨_, _, _, _, _, -, -, -, -, he⟩ | ⟨t, stop, m, rfl, hhand, rfl⟩
  · exact Or.inl (he ▸ h)
  · exact Or.inl (by simpa [he] using h)
  · exact Or.inl (by simpa [he] using h)
  · exact Or.inl (by simpa [he] using h)
  · rcases s.sendToNextClient_cases t m with ⟨-, he⟩ | ⟨a, q, left, hfound, hdead, he⟩ |
      ⟨_, _, _, _, -, -, -, he⟩ | ⟨a, q, left, slots, hfound, hslots, hfull, he⟩
    · simp [he] at h
      exact h.imp id fun h => Or.inl h.1
    · simp [he] at h
      rcases h with h | ⟨rfl, rfl⟩
      · exact Or.inl h
      · exact Or.inr (Or.inr ⟨t, stop, m, a, q, left, rfl, hhand, rfl, hfound, Or.inl ⟨hdead, rfl⟩⟩)
    · exact Or.inl (by simpa [he] using h)
    · simp [he] at h
      rcases h with h | ⟨rfl, rfl⟩
      · exact Or.inl h
      · exact Or.inr (Or.inr ⟨t, stop, m, a, q, rest, rfl, hhand, rfl, hfound,
          Or.inr ⟨slots, hslots, hfull, rfl⟩⟩)

/-- No destination is left out of the log's account of message `n`. -/
theorem leftOut_eq_nil {n : Nat} {log : List (Relay.Event BusAddr QueueHandle ClientId)}
    (h : ∀ rest, .retired rest n ∈ log → rest = []) : leftOut n log = [] := by
  apply List.flatMap_eq_nil_iff.mpr
  intro e he
  cases e with
  | retired rest m =>
    by_cases hm : m = n
    · subst hm
      simpa using h rest he
    · simp [hm]
  | _ => rfl

/-- What stands on the list of a message when it is destroyed is left out. -/
theorem mem_leftOut {n : Nat} {a : BusAddr} {rest : List BusAddr}
    {log : List (Relay.Event BusAddr QueueHandle ClientId)} (h : .retired rest n ∈ log)
    (ha : a ∈ rest) : a ∈ leftOut n log :=
  List.mem_flatMap.mpr ⟨_, h, by simpa using ha⟩

/-- A send step to a group takes a snapshot. -/
theorem send_group {t : TaskId} {c : ClientId} {g : BusAddr} {msg : Cmd} (hpos : 0 < g)
    (hstep : step s (.send t c g msg) = some s') : s.task t = .idle ∧ s' = s.send t c g msg := by
  cases fires_of_step hstep with
  | quiet hl =>
    obtain rfl : g = 0 := by simpa [Lbl.mayReturn] using hl
    exact absurd hpos (Int.lt_irrefl 0)
  | send htask => exact ⟨htask, rfl⟩

/-- The queue that a forwarding step sends to. -/
def St.target (s : St Cmd) : Lbl Cmd → Option QueueHandle
  | .sendNext t =>
    match (s.task t).inHand with
    | some (_, m) => (s.bus.nextHop m.destination).found.map fun hop => hop.2.1
    | none => none
  | _ => none

/-- `xQueueSend`, if the step calls it, does not find the queue full. -/
def HasRoom (s : St Cmd) (l : Lbl Cmd) : Prop :=
  ∀ q ∈ s.target l, ∀ slots ∈ s.queue q, slots.length < messageQueueLength

instance (s : St Cmd) (l : Lbl Cmd) : Decidable (HasRoom s l) :=
  inferInstanceAs (Decidable (∀ q ∈ s.target l, ∀ slots ∈ s.queue q,
    slots.length < messageQueueLength))

/-- A queue with room is shorter than a queue may get. -/
theorem HasRoom.lt {t : TaskId} {stop : Option BusAddr} {m : BusMsg Cmd} {a : BusAddr}
    {q : QueueHandle} {rest : List BusAddr} {slots : List (Slot Cmd)}
    (h : HasRoom s (.sendNext t)) (hhand : (s.task t).inHand = some (stop, m))
    (hfound : (s.bus.nextHop m.destination).found = some (a, q, rest))
    (hslots : s.queue q = some slots) : slots.length < messageQueueLength :=
  h q (by simp [St.target, hhand, hfound]) slots hslots

/-- A message on its way still has to go to addresses of its snapshot only. -/
theorem Ledger.destination_subset (h : Ledger s) {t : TaskId} {stop : Option BusAddr}
    {m : BusMsg Cmd} {stops : List BusAddr} (hhand : (s.task t).inHand = some (stop, m))
    (hsent : .sent m.serial stops ∈ s.log) : m.destination ⊆ stops := by
  have hheld : (⟨m.serial, stop, m.destination⟩ : Parcel BusAddr) ∈ s.relay.held (.hand t) := by
    simp [relay_hand hhand]
  intro a ha
  refine (h.conserved hsent hheld rfl).symm.subset (List.mem_append_left _ ?_)
  simpa [load] using ha

/-- Two clients connect and join the group `fan`, whose destination list is then `[-2, -1]`. -/
def twoMembers : List (Lbl Unit) :=
  [.initializeClient 0 (some 7), .initializeClient 1 (some 8), .joinLookup 0 "fan" 0, .joinCheck 0,
    .joinSection 0, .joinLookup 0 "fan" 1, .joinCheck 0, .joinSection 0]

/-- Both clients can connect and join. -/
theorem twoMembers_enabled : (exec step (St.init Unit) twoMembers).isSome = true := by
  decide +kernel

/-- The state with both clients in the group. -/
def twoMembersSt : St Unit :=
  ((exec step (St.init Unit) twoMembers).get twoMembers_enabled).2

theorem twoMembers_run : Run step (St.init Unit)
    ((exec step (St.init Unit) twoMembers).get twoMembers_enabled).1 twoMembersSt :=
  run_get step (St.init Unit) twoMembers twoMembers_enabled

end EspAcDimmer
