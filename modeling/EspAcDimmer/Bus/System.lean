import Mathlib.Logic.Function.Basic
import EspAcDimmer.Bus.Basic
import EspAcDimmer.Lib.Relay
import EspAcDimmer.Lib.Run

/-! # The message bus: the whole system

Any number of clients and tasks around one `Bus`. A step is one critical section under `m_mutex`,
one queue operation, or one unlocked guard; between two steps of a task every other task may move.

* `joinLookup`, `joinCheck`, `joinSection`: the three parts of `join(const char*)`;
* `send`, `sendNext`: `IBusClient::send` up to its destination snapshot, and `sendToNextClient`;
* `tryReceive`, `sendNext`: the pop and the forwarding of `IBusClient::tryReceive`. What a handler
  calls in between runs as a task of its own, so it may interleave with everything else;
* `destroy`, `drain`, `sendNext`, `deleteQueue`: the parts of `~IBusClient`.

`resolve(const char*)` and `destination` only read, and `send(const char*)` is `send` with the
address that `resolve` gave, so they need no step. FreeRTOS queues are FIFO and atomic.

Three fields are history and decide nothing: `log` (what happened to which message), `handed`
(the addresses `connect` gave) and `deadSends` (queues that were sent to after their deletion).
-/

namespace EspAcDimmer

abbrev ClientId := Nat
abbrev TaskId := Nat

/-- `IBusClient::MESSAGE_QUEUE_LENGTH`. -/
def messageQueueLength : Nat := 32

/-- A message on the heap. `serial` tells messages apart; the source has the pointer. -/
structure BusMsg (Cmd : Type) where
  serial : Nat
  sender : BusAddr
  toAddr : BusAddr
  destination : List BusAddr
  msg : Cmd
deriving DecidableEq, Repr

/-- An item of a queue, with the address it was put there for. -/
structure Slot (Cmd : Type) where
  stop : BusAddr
  busMsg : BusMsg Cmd
deriving DecidableEq, Repr

/-- Where a task stands between two steps. -/
inductive Task (Cmd : Type) where
  | idle
  /-- In `join(const char*)`, which has found or made the group at `addr`. -/
  | joining (addrName : String) (addr : BusAddr) (client : ClientId)
  /-- In `join(BusAddr)`, past its guard. -/
  | joinChecked (addrName : String) (addr : BusAddr) (client : ClientId)
  | leaving (addr : BusAddr) (client : ClientId)
  | leaveChecked (addr : BusAddr) (client : ClientId)
  /-- In `send`, before `sendToNextClient`. -/
  | sending (client : ClientId) (busMsg : BusMsg Cmd)
  /-- In `tryReceive`, with a message in hand. -/
  | receiving (client : ClientId) (stop : BusAddr) (busMsg : BusMsg Cmd)
  /-- In the destructor's loop, before a pop. -/
  | draining (client : ClientId)
  /-- In the destructor's loop, with a message in hand. -/
  | flushing (client : ClientId) (stop : BusAddr) (busMsg : BusMsg Cmd)
  /-- In the destructor, behind its loop. -/
  | drained (client : ClientId)
deriving DecidableEq, Repr

/-- `alive` is false once the destructor has started; `queue h` is `none` when no queue has the
handle `h`. -/
structure St (Cmd : Type) where
  bus : Bus
  client : ClientId → IBusClient
  alive : ClientId → Bool
  queue : QueueHandle → Option (List (Slot Cmd))
  task : TaskId → Task Cmd
  next : Nat
  log : List (Relay.Event BusAddr QueueHandle ClientId)
  handed : List (ClientId × BusAddr)
  deadSends : List QueueHandle

/-- A bus without clients, groups and messages. -/
def St.init (Cmd : Type) : St Cmd where
  bus := {}
  client := fun _ => {}
  alive := fun _ => true
  queue := fun _ => none
  task := fun _ => .idle
  next := 0
  log := []
  handed := []
  deadSends := []

inductive Lbl (Cmd : Type) where
  | initializeClient (client : ClientId) (created : Option QueueHandle)
  | connect (client : ClientId)
  | disconnect (client : ClientId)
  | joinLookup (task : TaskId) (addrName : String) (client : ClientId)
  | joinCheck (task : TaskId)
  | joinSection (task : TaskId)
  | leaveLookup (task : TaskId) (addrName : String) (client : ClientId)
  | leaveCheck (task : TaskId)
  | leaveSection (task : TaskId)
  | send (task : TaskId) (client : ClientId) (toAddr : BusAddr) (msg : Cmd)
  | sendNext (task : TaskId)
  | tryReceive (task : TaskId) (client : ClientId)
  | destroy (task : TaskId) (client : ClientId)
  | drain (task : TaskId)
  | deleteQueue (task : TaskId)
deriving DecidableEq, Repr

/-- The client a step disconnects, explicitly or in its destructor. -/
def Lbl.disconnects {Cmd : Type} : Lbl Cmd → Option ClientId
  | .disconnect c => some c
  | .destroy _ c => some c
  | _ => none

/-- The task a step belongs to. -/
def Lbl.task {Cmd : Type} : Lbl Cmd → Option TaskId
  | .initializeClient _ _ | .connect _ | .disconnect _ => none
  | .joinLookup t _ _ | .joinCheck t | .joinSection t | .leaveLookup t _ _ | .leaveCheck t
  | .leaveSection t | .send t _ _ _ | .sendNext t | .tryReceive t _ | .destroy t _ | .drain t
  | .deleteQueue t => some t

namespace Task

variable {Cmd : Type}

/-- The message a task has in its hands, and the address it was taken from. -/
def inHand : Task Cmd → Option (Option BusAddr × BusMsg Cmd)
  | sending _ m => some (none, m)
  | receiving _ a m => some (some a, m)
  | flushing _ a m => some (some a, m)
  | _ => none

/-- Where `sendToNextClient` returns to. -/
def afterSend : Task Cmd → Task Cmd
  | flushing c _ _ => draining c
  | _ => idle

/-- The client whose destructor the task runs. -/
def destroying : Task Cmd → Option ClientId
  | draining c => some c
  | flushing c _ _ => some c
  | drained c => some c
  | _ => none

end Task

namespace St

open Function

variable {Cmd : Type} (s : St Cmd)

@[simps] def setTask (t : TaskId) (v : Task Cmd) : St Cmd :=
  { s with task := update s.task t v }

@[simps] def setClient (c : ClientId) (v : IBusClient) : St Cmd :=
  { s with client := update s.client c v }

@[simps] def setQueue (h : QueueHandle) (v : Option (List (Slot Cmd))) : St Cmd :=
  { s with queue := update s.queue h v }

/-- `Bus::connect` on client `c`. -/
def connect (c : ClientId) : St Cmd :=
  let (ok, bus, client) := s.bus.connect (s.client c)
  { s.setClient c client with
    bus := bus, handed := if ok then s.handed ++ [(c, client.addr)] else s.handed }

/-- `Bus::disconnect` on client `c`. -/
def disconnect (c : ClientId) : St Cmd :=
  let (bus, client) := s.bus.disconnect (s.client c)
  { s.setClient c client with bus := bus }

/-- `xQueueCreate` returns handle `h`, and client `c` keeps it. -/
@[simps!] def createQueue (c : ClientId) (h : QueueHandle) : St Cmd :=
  (s.setQueue h (some [])).setClient c { s.client c with queue := some h }

/-- `IBusClient::initialize`. Nobody else knows the handle `xQueueCreate` returns before `connect`
has entered it in the table, so the two are one step. -/
def initializeClient (c : ClientId) (created : Option QueueHandle) : St Cmd :=
  match (s.client c).queue, created with
  | none, some h => (s.createQueue c h).connect c
  -- the client has a queue already, or `xQueueCreate` returned none
  | _, _ => s

/-- `IBusClient::send` up to the call of `sendToNextClient`. -/
def send (t : TaskId) (c : ClientId) (toAddr : BusAddr) (msg : Cmd) : St Cmd :=
  let destination := s.bus.destination toAddr
  { s.setTask t (.sending c ⟨s.next, (s.client c).addr, toAddr, destination, msg⟩) with
    next := s.next + 1
    log := s.log ++ [.sent s.next destination] }

/-- `IBusClient::sendToNextClient` with message `m` in the hands of task `t`. A `BusMsg` that is
not put into a queue is destroyed at the end of the function, with whatever destinations it still
has. -/
def sendToNextClient (t : TaskId) (m : BusMsg Cmd) : St Cmd :=
  let hop := s.bus.nextHop m.destination
  let s' := s.setTask t (s.task t).afterSend
  let log := s.log ++ hop.skipped.map fun a => .missed a .unreachable m.serial
  match hop.found with
  | none => { s' with log := log ++ [.retired [] m.serial] }  -- no `dest`
  | some (a, q, rest) =>
    match s.queue q with
    | none =>
      -- the table still has an entry for a queue that was deleted
      { s' with
        deadSends := s.deadSends ++ [q]
        log := log ++ [.retired (rest ++ [a]) m.serial] }
    | some slots =>
      if slots.length < messageQueueLength then
        -- `xQueueSend` succeeds: the message belongs to the queue now
        { s'.setQueue q (some (slots ++ [⟨a, { m with destination := rest }⟩])) with
          log := log ++ [.put a q m.serial] }
      else
        { s' with log := log ++ [.missed a .full m.serial, .retired rest m.serial] }

/-- The pop of `IBusClient::tryReceive`; the handler gets the message. -/
def tryReceive (t : TaskId) (c : ClientId) : St Cmd :=
  match (s.client c).queue with
  | none => s
  | some h =>
    match s.queue h with
    | some (slot :: slots) =>
      { (s.setQueue h (some slots)).setTask t (.receiving c slot.stop slot.busMsg) with
        log := s.log ++ [.got slot.stop c slot.busMsg.serial] }
    -- nothing came in time
    | _ => s

/-- The first line of `~IBusClient`. -/
def destroy (t : TaskId) (c : ClientId) : St Cmd :=
  let s' := { s.disconnect c with alive := update s.alive c false }
  -- without a queue there is nothing to drain and nothing to delete
  if (s.client c).queue.isSome then s'.setTask t (.draining c) else s'

/-- One `xQueueReceive` of the destructor's loop. -/
def drain (t : TaskId) (c : ClientId) : St Cmd :=
  match (s.client c).queue with
  | none => s
  | some h =>
    match s.queue h with
    | some (slot :: slots) =>
      -- the dying client does not receive it, and `sendToNextClient` passes it on
      { (s.setQueue h (some slots)).setTask t (.flushing c slot.stop slot.busMsg) with
        log := s.log ++ [.missed slot.stop .withdrawn slot.busMsg.serial] }
    | _ => s.setTask t (.drained c)

/-- `vQueueDelete( m_queue ); m_queue = nullptr;`. -/
@[simps!] def freeQueue (t : TaskId) (c : ClientId) (h : QueueHandle) : St Cmd :=
  ((s.setQueue h none).setClient c { s.client c with queue := none }).setTask t .idle

/-- The end of `~IBusClient`. -/
def deleteQueue (t : TaskId) (c : ClientId) : St Cmd :=
  match (s.client c).queue with
  | none => s
  | some h => s.freeQueue t c h

end St

/-- The step of each label; `none` when the task is somewhere else, when the client's destructor
has already run, or when `xQueueCreate` is said to return the handle of a live queue. -/
def step {Cmd : Type} (s : St Cmd) : Lbl Cmd → Option (St Cmd)
  | .initializeClient c created =>
    if s.alive c ∧ ∀ h ∈ created, (s.queue h).isNone then some (s.initializeClient c created)
    else none
  | .connect c => if s.alive c then some (s.connect c) else none
  | .disconnect c => if s.alive c then some (s.disconnect c) else none
  | .joinLookup t addrName c =>
    match s.task t with
    | .idle =>
      if s.alive c then
        let (addr, bus) := s.bus.joinLookup addrName
        some { s.setTask t (.joining addrName addr c) with bus := bus }
      else none
    | _ => none
  | .joinCheck t =>
    match s.task t with
    | .joining addrName addr c =>
      -- `client.m_addr` is read here without the lock
      if Bus.addrGuard addr (s.client c) then some (s.setTask t (.joinChecked addrName addr c))
      else some (s.setTask t .idle)
    | _ => none
  | .joinSection t =>
    match s.task t with
    | .joinChecked _ addr c =>
      -- `m_addr` is read a second time, and not checked again
      some { s.setTask t .idle with bus := s.bus.joinSection addr (s.client c) }
    | _ => none
  | .leaveLookup t addrName c =>
    match s.task t with
    | .idle =>
      if s.alive c then
        match s.bus.leaveLookup addrName with
        | some addr => some (s.setTask t (.leaving addr c))
        | none => some s  -- an unknown name: `leave` returns
      else none
    | _ => none
  | .leaveCheck t =>
    match s.task t with
    | .leaving addr c =>
      if Bus.addrGuard addr (s.client c) then some (s.setTask t (.leaveChecked addr c))
      else some (s.setTask t .idle)
    | _ => none
  | .leaveSection t =>
    match s.task t with
    | .leaveChecked addr c =>
      some { s.setTask t .idle with bus := s.bus.leaveSection addr (s.client c) }
    | _ => none
  | .send t c toAddr msg =>
    match s.task t with
    | .idle =>
      if s.alive c then
        if toAddr = BusAddrInvalid then some s else some (s.send t c toAddr msg)
      else none
    | _ => none
  | .sendNext t =>
    match (s.task t).inHand with
    | some (_, m) => some (s.sendToNextClient t m)
    | none => none
  | .tryReceive t c =>
    match s.task t with
    | .idle => if s.alive c then some (s.tryReceive t c) else none
    | _ => none
  | .destroy t c =>
    match s.task t with
    | .idle => if s.alive c then some (s.destroy t c) else none
    | _ => none
  | .drain t =>
    match s.task t with
    | .draining c => some (s.drain t c)
    | _ => none
  | .deleteQueue t =>
    match s.task t with
    | .drained c => some (s.deleteQueue t c)
    | _ => none

/-! ## What a step can do -/

section Fires

variable {Cmd : Type} {s s' : St Cmd} {l : Lbl Cmd}

section Frame

variable (s : St Cmd) (t : TaskId) (c : ClientId)

@[simp] theorem St.connect_alive : (s.connect c).alive = s.alive := rfl
@[simp] theorem St.connect_queue : (s.connect c).queue = s.queue := rfl
@[simp] theorem St.connect_task : (s.connect c).task = s.task := rfl
@[simp] theorem St.connect_next : (s.connect c).next = s.next := rfl
@[simp] theorem St.connect_log : (s.connect c).log = s.log := rfl
@[simp] theorem St.connect_deadSends : (s.connect c).deadSends = s.deadSends := rfl

@[simp] theorem St.disconnect_alive : (s.disconnect c).alive = s.alive := rfl
@[simp] theorem St.disconnect_queue : (s.disconnect c).queue = s.queue := rfl
@[simp] theorem St.disconnect_task : (s.disconnect c).task = s.task := rfl
@[simp] theorem St.disconnect_next : (s.disconnect c).next = s.next := rfl
@[simp] theorem St.disconnect_log : (s.disconnect c).log = s.log := rfl
@[simp] theorem St.disconnect_handed : (s.disconnect c).handed = s.handed := rfl
@[simp] theorem St.disconnect_deadSends : (s.disconnect c).deadSends = s.deadSends := rfl

@[simp] theorem St.destroy_bus : (s.destroy t c).bus = (s.disconnect c).bus := by
  unfold St.destroy; split <;> rfl
@[simp] theorem St.destroy_client : (s.destroy t c).client = (s.disconnect c).client := by
  unfold St.destroy; split <;> rfl
@[simp] theorem St.destroy_alive : (s.destroy t c).alive = Function.update s.alive c false := by
  unfold St.destroy; split <;> rfl
@[simp] theorem St.destroy_queue : (s.destroy t c).queue = s.queue := by
  unfold St.destroy; split <;> rfl
@[simp] theorem St.destroy_next : (s.destroy t c).next = s.next := by
  unfold St.destroy; split <;> rfl
@[simp] theorem St.destroy_log : (s.destroy t c).log = s.log := by
  unfold St.destroy; split <;> rfl
@[simp] theorem St.destroy_handed : (s.destroy t c).handed = s.handed := by
  unfold St.destroy; split <;> rfl
@[simp] theorem St.destroy_deadSends : (s.destroy t c).deadSends = s.deadSends := by
  unfold St.destroy; split <;> rfl
/-- The destructor of a client without a queue has no loop to run. -/
theorem St.destroy_task : (s.destroy t c).task =
    if (s.client c).queue.isSome then Function.update s.task t (.draining c) else s.task := by
  unfold St.destroy; split <;> rfl

end Frame

/-- The four ways `sendToNextClient` can end, each with the log it leaves. -/
theorem St.sendToNextClient_cases (s : St Cmd) (t : TaskId) (m : BusMsg Cmd) :
    let skipped := (s.bus.nextHop m.destination).skipped
    let log := s.log ++ skipped.map fun a => .missed a .unreachable m.serial
    let s' := s.setTask t (s.task t).afterSend
    ((s.bus.nextHop m.destination).found = none ∧
      s.sendToNextClient t m = { s' with log := log ++ [.retired [] m.serial] }) ∨
    (∃ a q rest, (s.bus.nextHop m.destination).found = some (a, q, rest) ∧ s.queue q = none ∧
      s.sendToNextClient t m = { s' with
        deadSends := s.deadSends ++ [q]
        log := log ++ [.retired (rest ++ [a]) m.serial] }) ∨
    (∃ a q rest slots, (s.bus.nextHop m.destination).found = some (a, q, rest) ∧
      s.queue q = some slots ∧ slots.length < messageQueueLength ∧
      s.sendToNextClient t m =
        { s'.setQueue q (some (slots ++ [⟨a, { m with destination := rest }⟩])) with
          log := log ++ [.put a q m.serial] }) ∨
    (∃ a q rest slots, (s.bus.nextHop m.destination).found = some (a, q, rest) ∧
      s.queue q = some slots ∧ messageQueueLength ≤ slots.length ∧
      s.sendToNextClient t m =
        { s' with log := log ++ [.missed a .full m.serial, .retired rest m.serial] }) := by
  intro skipped log s'
  cases hfound : (s.bus.nextHop m.destination).found with
  | none => exact Or.inl ⟨rfl, by simp only [St.sendToNextClient, hfound]; rfl⟩
  | some hop =>
    rcases hop with ⟨a, q, rest⟩
    apply Or.inr
    cases hslots : s.queue q with
    | none =>
      refine Or.inl ⟨a, q, rest, rfl, hslots, ?_⟩
      simp only [St.sendToNextClient, hfound, hslots]
      rfl
    | some slots =>
      apply Or.inr
      by_cases hroom : slots.length < messageQueueLength
      · refine Or.inl ⟨a, q, rest, slots, rfl, hslots, hroom, ?_⟩
        simp only [St.sendToNextClient, hfound, hslots, if_pos hroom]
        rfl
      · refine Or.inr ⟨a, q, rest, slots, rfl, hslots, Nat.not_lt.mp hroom, ?_⟩
        simp only [St.sendToNextClient, hfound, hslots, if_neg hroom]
        rfl

theorem St.sendToNextClient_task (s : St Cmd) (t : TaskId) (m : BusMsg Cmd) :
    (s.sendToNextClient t m).task = Function.update s.task t (s.task t).afterSend := by
  rcases s.sendToNextClient_cases t m with ⟨-, he⟩ | ⟨_, _, _, -, -, he⟩ |
    ⟨_, _, _, _, -, -, -, he⟩ | ⟨_, _, _, _, -, -, -, he⟩ <;> rw [he] <;> rfl

/-- `Bus::connect` does nothing without a queue; it gives back the address of an entry with the
client's queue, or a new address and an entry in front. -/
theorem St.connect_cases (s : St Cmd) (c : ClientId) :
    ((s.client c).queue = none ∧ s.connect c = s) ∨
    (∃ h e, (s.client c).queue = some h ∧ e ∈ s.bus.clients ∧ e.queue = h ∧
      s.connect c = { s.setClient c ⟨e.addr, some h⟩ with handed := s.handed ++ [(c, e.addr)] }) ∨
    (∃ h, (s.client c).queue = some h ∧ (∀ e ∈ s.bus.clients, e.queue ≠ h) ∧
      s.connect c = { s.setClient c ⟨s.bus.addrLast - 1, some h⟩ with
        bus := { s.bus with
          addrLast := s.bus.addrLast - 1
          clients := ⟨s.bus.addrLast - 1, h⟩ :: s.bus.clients }
        handed := s.handed ++ [(c, s.bus.addrLast - 1)] }) := by
  cases hq : (s.client c).queue with
  | none =>
    refine Or.inl ⟨rfl, ?_⟩
    simp [St.connect, Bus.connect, hq, St.setClient]
  | some h =>
    apply Or.inr
    cases hf : s.bus.clients.find? fun other => h = other.queue with
    | some e =>
      refine Or.inl ⟨h, e, rfl, List.mem_of_find?_eq_some hf, ?_, ?_⟩
      · have hqe : h = e.queue := by simpa using List.find?_some hf
        exact hqe.symm
      · simp [St.connect, Bus.connect, hq, hf, St.setClient]
    | none =>
      refine Or.inr ⟨h, rfl, ?_, ?_⟩
      · intro e he
        have := List.find?_eq_none.mp hf e he
        simpa [eq_comm] using this
      · simp [St.connect, Bus.connect, hq, hf, St.setClient]

/-- `Bus::disconnect` does nothing without a queue. -/
theorem St.disconnect_cases (s : St Cmd) (c : ClientId) :
    ((s.client c).queue = none ∧ s.disconnect c = s) ∨
    (∃ h, (s.client c).queue = some h ∧
      s.disconnect c = { s.setClient c ⟨BusAddrInvalid, some h⟩ with
        bus := { s.bus with
          clients := StdList.removeIf (fun other => h = other.queue) s.bus.clients } }) := by
  cases hq : (s.client c).queue with
  | none => exact Or.inl ⟨rfl, by simp [St.disconnect, Bus.disconnect, hq, St.setClient]⟩
  | some h => exact Or.inr ⟨h, rfl, by simp [St.disconnect, Bus.disconnect, hq, St.setClient]⟩

/-- The labels of calls that may return with nothing done: a timeout, a null queue, the address 0,
an unknown name. -/
def Lbl.mayReturn : Lbl Cmd → Bool
  | .initializeClient _ _ | .leaveLookup _ _ _ | .tryReceive _ _ | .drain _ | .deleteQueue _ => true
  | .send _ _ toAddr _ => toAddr = 0
  | _ => false

/-- The effects a label can have, each with what it was found in. -/
inductive Fires (s : St Cmd) : Lbl Cmd → St Cmd → Prop where
  | quiet {l : Lbl Cmd} (hl : l.mayReturn = true) : Fires s l s
  | created {c : ClientId} {h : QueueHandle} (halive : s.alive c = true)
      (hnone : (s.client c).queue = none) (hfree : s.queue h = none) :
      Fires s (.initializeClient c (some h)) ((s.createQueue c h).connect c)
  | connect {c : ClientId} (halive : s.alive c = true) : Fires s (.connect c) (s.connect c)
  | disconnect {c : ClientId} (halive : s.alive c = true) :
      Fires s (.disconnect c) (s.disconnect c)
  | joinLookup {t : TaskId} {addrName : String} {c : ClientId} (htask : s.task t = .idle) :
      Fires s (.joinLookup t addrName c)
        { s.setTask t (.joining addrName (s.bus.joinLookup addrName).1 c) with
          bus := (s.bus.joinLookup addrName).2 }
  | joinPassed {t : TaskId} {addrName : String} {addr : BusAddr} {c : ClientId}
      (htask : s.task t = .joining addrName addr c)
      (hguard : Bus.addrGuard addr (s.client c) = true) :
      Fires s (.joinCheck t) (s.setTask t (.joinChecked addrName addr c))
  | joinRefused {t : TaskId} {addrName : String} {addr : BusAddr} {c : ClientId}
      (htask : s.task t = .joining addrName addr c) :
      Fires s (.joinCheck t) (s.setTask t .idle)
  | joinSection {t : TaskId} {addrName : String} {addr : BusAddr} {c : ClientId}
      (htask : s.task t = .joinChecked addrName addr c) :
      Fires s (.joinSection t)
        { s.setTask t .idle with bus := s.bus.joinSection addr (s.client c) }
  | leaveLookup {t : TaskId} {addrName : String} {addr : BusAddr} {c : ClientId}
      (htask : s.task t = .idle) (hfound : s.bus.leaveLookup addrName = some addr) :
      Fires s (.leaveLookup t addrName c) (s.setTask t (.leaving addr c))
  | leavePassed {t : TaskId} {addr : BusAddr} {c : ClientId} (htask : s.task t = .leaving addr c)
      (hguard : Bus.addrGuard addr (s.client c) = true) :
      Fires s (.leaveCheck t) (s.setTask t (.leaveChecked addr c))
  | leaveRefused {t : TaskId} {addr : BusAddr} {c : ClientId} (htask : s.task t = .leaving addr c) :
      Fires s (.leaveCheck t) (s.setTask t .idle)
  | leaveSection {t : TaskId} {addr : BusAddr} {c : ClientId}
      (htask : s.task t = .leaveChecked addr c) :
      Fires s (.leaveSection t)
        { s.setTask t .idle with bus := s.bus.leaveSection addr (s.client c) }
  | send {t : TaskId} {c : ClientId} {toAddr : BusAddr} {msg : Cmd} (htask : s.task t = .idle)
      (halive : s.alive c = true) (hto : toAddr ≠ 0) :
      Fires s (.send t c toAddr msg) (s.send t c toAddr msg)
  | sendNext {t : TaskId} {stop : Option BusAddr} {m : BusMsg Cmd}
      (hhand : (s.task t).inHand = some (stop, m)) :
      Fires s (.sendNext t) (s.sendToNextClient t m)
  | received {t : TaskId} {c : ClientId} {h : QueueHandle} {slot : Slot Cmd}
      {slots : List (Slot Cmd)} (htask : s.task t = .idle) (halive : s.alive c = true)
      (hqueue : (s.client c).queue = some h) (hslots : s.queue h = some (slot :: slots)) :
      Fires s (.tryReceive t c)
        { (s.setQueue h (some slots)).setTask t (.receiving c slot.stop slot.busMsg) with
          log := s.log ++ [.got slot.stop c slot.busMsg.serial] }
  | destroy {t : TaskId} {c : ClientId} (htask : s.task t = .idle) (halive : s.alive c = true) :
      Fires s (.destroy t c) (s.destroy t c)
  | popped {t : TaskId} {c : ClientId} {h : QueueHandle} {slot : Slot Cmd}
      {slots : List (Slot Cmd)} (htask : s.task t = .draining c)
      (hqueue : (s.client c).queue = some h) (hslots : s.queue h = some (slot :: slots)) :
      Fires s (.drain t)
        { (s.setQueue h (some slots)).setTask t (.flushing c slot.stop slot.busMsg) with
          log := s.log ++ [.missed slot.stop .withdrawn slot.busMsg.serial] }
  | drained {t : TaskId} {c : ClientId} {h : QueueHandle} (htask : s.task t = .draining c)
      (hqueue : (s.client c).queue = some h)
      (hslots : ∀ slots, s.queue h = some slots → slots = []) :
      Fires s (.drain t) (s.setTask t (.drained c))
  | deleteQueue {t : TaskId} {c : ClientId} {h : QueueHandle} (htask : s.task t = .drained c)
      (hqueue : (s.client c).queue = some h) :
      Fires s (.deleteQueue t) (s.freeQueue t c h)

/-- Inversion of `step`: every later proof cites this and never unfolds `step`. -/
theorem fires_of_step (hstep : step s l = some s') : Fires s l s' := by
  cases l with
  | initializeClient c created =>
    simp only [step, Option.ite_none_right_eq_some, Option.some.injEq] at hstep
    rcases hstep with ⟨⟨halive, hfree⟩, rfl⟩
    unfold St.initializeClient
    split
    · next h hnone => exact .created halive hnone (by simpa using hfree h rfl)
    · exact .quiet rfl
  | connect c =>
    simp only [step, Option.ite_none_right_eq_some, Option.some.injEq] at hstep
    rcases hstep with ⟨halive, rfl⟩
    exact .connect halive
  | disconnect c =>
    simp only [step, Option.ite_none_right_eq_some, Option.some.injEq] at hstep
    rcases hstep with ⟨halive, rfl⟩
    exact .disconnect halive
  | joinLookup t addrName c =>
    simp only [step] at hstep
    split at hstep
    · next htask =>
      simp only [Option.ite_none_right_eq_some, Option.some.injEq] at hstep
      rcases hstep with ⟨-, rfl⟩
      exact .joinLookup htask
    · cases hstep
  | joinCheck t =>
    simp only [step] at hstep
    split at hstep
    · next htask =>
      split at hstep
      · next hguard =>
        cases hstep
        exact .joinPassed htask hguard
      · cases hstep
        exact .joinRefused htask
    · cases hstep
  | joinSection t =>
    simp only [step] at hstep
    split at hstep
    · next htask =>
      cases hstep
      exact .joinSection htask
    · cases hstep
  | leaveLookup t addrName c =>
    simp only [step] at hstep
    split at hstep
    · next htask =>
      simp only [Option.ite_none_right_eq_some] at hstep
      rcases hstep with ⟨-, hstep⟩
      split at hstep
      · next hfound =>
        cases hstep
        exact .leaveLookup htask hfound
      · cases hstep
        exact .quiet rfl
    · cases hstep
  | leaveCheck t =>
    simp only [step] at hstep
    split at hstep
    · next htask =>
      split at hstep
      · next hguard =>
        cases hstep
        exact .leavePassed htask hguard
      · cases hstep
        exact .leaveRefused htask
    · cases hstep
  | leaveSection t =>
    simp only [step] at hstep
    split at hstep
    · next htask =>
      cases hstep
      exact .leaveSection htask
    · cases hstep
  | send t c toAddr msg =>
    simp only [step] at hstep
    split at hstep
    · next htask =>
      simp only [Option.ite_none_right_eq_some] at hstep
      rcases hstep with ⟨halive, hstep⟩
      split at hstep
      · next hto =>
        cases hstep
        exact .quiet (decide_eq_true hto)
      · next hto =>
        cases hstep
        exact .send htask halive hto
    · cases hstep
  | sendNext t =>
    simp only [step] at hstep
    split at hstep
    · next hhand =>
      cases hstep
      exact .sendNext hhand
    · cases hstep
  | tryReceive t c =>
    simp only [step] at hstep
    split at hstep
    · next htask =>
      simp only [Option.ite_none_right_eq_some, Option.some.injEq] at hstep
      rcases hstep with ⟨halive, rfl⟩
      unfold St.tryReceive
      split
      · exact .quiet rfl
      · next hqueue =>
        split
        · next hslots => exact .received htask halive hqueue hslots
        · exact .quiet rfl
    · cases hstep
  | destroy t c =>
    simp only [step] at hstep
    split at hstep
    · next htask =>
      simp only [Option.ite_none_right_eq_some, Option.some.injEq] at hstep
      rcases hstep with ⟨halive, rfl⟩
      exact .destroy htask halive
    · cases hstep
  | drain t =>
    simp only [step] at hstep
    split at hstep
    · next htask =>
      cases hstep
      unfold St.drain
      split
      · exact .quiet rfl
      · next hqueue =>
        split
        · next hslots => exact .popped htask hqueue hslots
        · next hno =>
          refine .drained htask hqueue ?_
          intro slots hslots
          cases slots with
          | nil => rfl
          | cons slot slots => exact absurd hslots (hno slot slots)
    · cases hstep
  | deleteQueue t =>
    simp only [step] at hstep
    split at hstep
    · next htask =>
      cases hstep
      unfold St.deleteQueue
      split
      · exact .quiet rfl
      · next hqueue => exact .deleteQueue htask hqueue
    · cases hstep

/-! ## Where a task stands afterwards -/

/-- What a step that moved task `t` says about the place the task is in now. -/
def Arrived (s : St Cmd) (l : Lbl Cmd) (t : TaskId) : Task Cmd → Prop
  | .joinChecked _ addr c => Bus.addrGuard addr (s.client c) = true
  | .sending c m => ∃ toAddr msg, l = .send t c toAddr msg ∧ m.serial = s.next
  | .receiving c a m => l = .tryReceive t c ∧ ∃ h slots, (s.client c).queue = some h ∧
      s.queue h = some (⟨a, m⟩ :: slots)
  | .flushing c a m => l = .drain t ∧ ∃ h slots, (s.client c).queue = some h ∧
      s.queue h = some (⟨a, m⟩ :: slots)
  | .drained c => s.task t = .draining c ∧ ∀ h slots, (s.client c).queue = some h →
      s.queue h = some slots → slots = []
  | _ => True

theorem arrived_afterSend {t : TaskId} (v : Task Cmd) : Arrived s l t v.afterSend := by
  cases v <;> trivial

/-- A step moves at most the task it belongs to. -/
theorem task_cases (hf : Fires s l s') (t : TaskId) :
    s'.task t = s.task t ∨ (l.task = some t ∧ Arrived s l t (s'.task t)) := by
  -- almost every step sets the place of its own task, and that alone
  have hmoved : ∀ {t' : TaskId} {v : Task Cmd}, s'.task = Function.update s.task t' v →
      l.task = some t' → Arrived s l t' v →
      s'.task t = s.task t ∨ (l.task = some t ∧ Arrived s l t (s'.task t)) := by
    intro t' v htask hl harr
    by_cases ht : t = t'
    · subst ht
      exact Or.inr ⟨hl, by rwa [htask, Function.update_self]⟩
    · exact Or.inl (by rw [htask, Function.update_of_ne ht])
  cases hf with
  | quiet | created | connect | disconnect => exact Or.inl rfl
  | joinPassed _ hguard => exact hmoved rfl rfl hguard
  | @send t' c toAddr msg => exact hmoved rfl rfl ⟨toAddr, msg, rfl, rfl⟩
  | sendNext => exact hmoved (St.sendToNextClient_task _ _ _) rfl (arrived_afterSend _)
  | received _ _ hqueue hslots => exact hmoved rfl rfl ⟨rfl, _, _, hqueue, hslots⟩
  | @destroy t' c =>
    -- a client without a queue is destroyed at once
    by_cases hq : (s.client c).queue.isSome
    · exact hmoved (v := .draining c) (by simp [St.destroy_task, hq]) rfl trivial
    · exact Or.inl (by simp [St.destroy_task, hq])
  | popped _ hqueue hslots => exact hmoved rfl rfl ⟨rfl, _, _, hqueue, hslots⟩
  | drained htask hqueue hslots =>
    refine hmoved rfl rfl ⟨htask, ?_⟩
    intro h slots hq hs
    obtain rfl := Option.some.inj (hqueue.symm.trans hq)
    exact hslots slots hs
  | _ => exact hmoved rfl rfl trivial

end Fires

end EspAcDimmer
