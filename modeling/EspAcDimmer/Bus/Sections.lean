import EspAcDimmer.Bus.Clients
import EspAcDimmer.Lib.StdSteps

/-! # Under the lock

The bodies of the sections of `Bus.cpp` between the constructor and the destructor of their
`LockGuardType`, one look at a table or one change of it at a time. Between any two of these steps
the other tasks may run the code that takes no lock.

The constructor blocks until the mutex is free and the destructor gives it back; the mutex is not
recursive, and no section enters another. A client is not destroyed in the midst of a call on it. As
in `step`, `initialize` makes the queue and `send` reads the sender's address in their sections.
-/

namespace EspAcDimmer

open Function Lts Mutex Relation StdList

variable {Cmd : Type}

/-- The local variables of a section, with where it stands. `i` and `j` are positions in lists. -/
inductive Locals (Cmd : Type) where
  /-- In the `std::find_if` of `connect`, also on behalf of `initialize`, which made the queue. -/
  | connecting (c : ClientId) (created : Bool) (queue : QueueHandle) (i : Nat)
  /-- In front of the assignment to `client.m_addr`; whether there is an entry to be made. -/
  | connected (c : ClientId) (created : Bool) (queue : QueueHandle) (addr : BusAddr)
      (entry : Bool)
  /-- In the `std::remove_if` of `disconnect`, also on behalf of a destructor. -/
  | disconnecting (c : ClientId) (destructor : Option TaskId) (queue : QueueHandle) (first i : Nat)
  | disconnected (c : ClientId) (destructor : Option TaskId)
  | joinLookingUp (t : TaskId) (addrName : String) (c : ClientId) (i : Nat)
  /-- `++m_groupLast` is done. -/
  | joinNumbered (t : TaskId) (addrName : String) (c : ClientId) (addr : BusAddr)
  | joinLookedUp (t : TaskId) (addrName : String) (c : ClientId) (addr : BusAddr)
  | joinFinding (t : TaskId) (addr member : BusAddr) (i : Nat)
  /-- In the second `std::find_if` of `join`, over the members of group `i`. -/
  | joinScanning (t : TaskId) (member : BusAddr) (i j : Nat)
  | joined (t : TaskId)
  | leaveLookingUp (t : TaskId) (addrName : String) (c : ClientId) (i : Nat)
  | leaveLookedUp (t : TaskId) (c : ClientId) (addr : Option BusAddr)
  | leaveFinding (t : TaskId) (addr member : BusAddr) (i : Nat)
  /-- In the `std::remove_if` of `leave`, over the members of group `i`. -/
  | leaveRemoving (t : TaskId) (member : BusAddr) (i first j : Nat)
  | left (t : TaskId)
  /-- In `destination`, on behalf of `send`. -/
  | sendFinding (t : TaskId) (c : ClientId) (toAddr : BusAddr) (msg : Cmd) (i : Nat)
  | sendFound (t : TaskId) (c : ClientId) (toAddr : BusAddr) (msg : Cmd)
      (destination : List BusAddr)
  /-- In the loop of `sendToNextClient`, with the destinations read from their back. -/
  | resolving (t : TaskId) (m : BusMsg Cmd) (skipped back : List BusAddr) (i : Nat)
  | resolved (t : TaskId) (m : BusMsg Cmd) (hop : Bus.Resolved)

namespace Locals

/-- The step in this place; `none` in front of what the section does outside the tables. -/
def micro : Locals Cmd × Bus → Option (Locals Cmd × Bus)
  | (connecting c created queue i, bus) =>
    match bus.clients[i]? with
    | some other =>
      if queue = other.queue then some (connected c created queue other.addr false, bus)
      else some (connecting c created queue (i + 1), bus)
    | none =>
      let addr := bus.addrLast - 1
      some (connected c created queue addr true, { bus with addrLast := addr })
  | (disconnecting c destructor queue first i, bus) =>
    match bus.clients[i]? with
    | some other =>
      if queue = other.queue then some (disconnecting c destructor queue first (i + 1), bus)
      else some (disconnecting c destructor queue (first + 1) (i + 1),
        { bus with clients := bus.clients.set first other })
    | none => some (disconnected c destructor, bus)
  | (joinLookingUp t addrName c i, bus) =>
    match bus.groups[i]? with
    | some group =>
      if group.addrName = some addrName then some (joinLookedUp t addrName c group.addr, bus)
      else some (joinLookingUp t addrName c (i + 1), bus)
    | none =>
      let addr := bus.groupLast + 1
      some (joinNumbered t addrName c addr, { bus with groupLast := addr })
  | (joinNumbered t addrName c addr, bus) =>
    some (joinLookedUp t addrName c addr,
      { bus with groups := ⟨addr, some addrName, []⟩ :: bus.groups })
  | (joinFinding t addr member i, bus) =>
    match bus.groups[i]? with
    | some group =>
      if addr = group.addr then some (joinScanning t member i 0, bus)
      else some (joinFinding t addr member (i + 1), bus)
    | none =>
      some (joinScanning t member 0 0, { bus with groups := ⟨addr, none, []⟩ :: bus.groups })
  | (joinScanning t member i j, bus) =>
    match bus.groups[i]? with
    | some group =>
      match group.destination[j]? with
      | some addr =>
        if member = addr then some (joined t, bus) else some (joinScanning t member i (j + 1), bus)
      | none =>
        let group := { group with destination := member :: group.destination }
        some (joined t, { bus with groups := bus.groups.set i group })
    | none => none  -- not there: the first search has found the group, or made it
  | (leaveLookingUp t addrName c i, bus) =>
    match bus.groups[i]? with
    | some group =>
      if group.addrName = some addrName then some (leaveLookedUp t c (some group.addr), bus)
      else some (leaveLookingUp t addrName c (i + 1), bus)
    | none => some (leaveLookedUp t c none, bus)
  | (leaveFinding t addr member i, bus) =>
    match bus.groups[i]? with
    | some group =>
      if addr = group.addr then some (leaveRemoving t member i 0 0, bus)
      else some (leaveFinding t addr member (i + 1), bus)
    | none => some (left t, bus)
  | (leaveRemoving t member i first j, bus) =>
    match bus.groups[i]? with
    | some group =>
      match group.destination[j]? with
      | some addr =>
        if member = addr then some (leaveRemoving t member i first (j + 1), bus)
        else
          let group := { group with destination := group.destination.set first addr }
          some (leaveRemoving t member i (first + 1) (j + 1),
            { bus with groups := bus.groups.set i group })
      | none => some (left t, bus)
    | none => none  -- as above
  | (sendFinding t c toAddr msg i, bus) =>
    match bus.groups[i]? with
    | some group =>
      if toAddr = group.addr then some (sendFound t c toAddr msg group.destination, bus)
      else some (sendFinding t c toAddr msg (i + 1), bus)
    | none => some (sendFound t c toAddr msg [], bus)
  | (resolving t m skipped [] _, bus) => some (resolved t m ⟨skipped, none⟩, bus)
  | (resolving t m skipped (addr :: rest) i, bus) =>
    -- `resolve` looks for clients only
    match if addr < 0 then bus.clients[i]? else none with
    | some client =>
      if addr = client.addr then
        some (resolved t m ⟨skipped, some (addr, client.queue, rest.reverse)⟩, bus)
      else some (resolving t m skipped (addr :: rest) (i + 1), bus)
    | none => some (resolving t m (skipped ++ [addr]) rest 0, bus)
  | (connected _ _ _ _ _, _) | (disconnected _ _, _) | (joinLookedUp _ _ _ _, _)
  | (joined _, _) | (leaveLookedUp _ _ _, _) | (left _, _) | (sendFound _ _ _ _ _, _)
  | (resolved _ _ _, _) => none

end Locals

namespace St

/-- `send` with this snapshot. -/
def sendWith (s : St Cmd) (t : TaskId) (c : ClientId) (toAddr : BusAddr) (msg : Cmd)
    (destination : List BusAddr) : St Cmd :=
  { s.setTask t (.sending c ⟨s.next, (s.client c).addr, toAddr, destination, msg⟩) with
    next := s.next + 1
    log := s.log ++ [.sent s.next destination] }

/-- `sendToNextClient` behind its loop. -/
def putWith (s : St Cmd) (t : TaskId) (m : BusMsg Cmd) (hop : Bus.Resolved) : St Cmd :=
  let s' := s.setTask t (s.task t).afterSend
  let log := s.log ++ hop.skipped.map fun a => .missed a .unreachable m.serial
  match hop.found with
  | none => { s' with log := log ++ [.retired [] m.serial] }
  | some (a, q, rest) =>
    match s.queue q with
    | none =>
      { s' with
        deadSends := s.deadSends ++ [q]
        log := log ++ [.retired (rest ++ [a]) m.serial] }
    | some slots =>
      if slots.length < messageQueueLength then
        { s'.setQueue q (some (slots ++ [⟨a, { m with destination := rest }⟩])) with
          log := log ++ [.put a q m.serial] }
      else
        { s' with log := log ++ [.missed a .full m.serial, .retired rest m.serial] }

end St

namespace Locals

/-- What the section does to the clients, the queues and its task. -/
def commit (s : St Cmd) : Locals Cmd → St Cmd
  | connected c created queue addr _ =>
    let s := if created then s.createQueue c queue else s
    { s.setClient c { s.client c with addr := addr } with handed := s.handed ++ [(c, addr)] }
  | disconnected c none => s.setClient c { s.client c with addr := BusAddrInvalid }
  | disconnected c (some t) =>
    { s.setClient c { s.client c with addr := BusAddrInvalid } with
      alive := update s.alive c false }.setTask t (.draining c)
  | joinLookedUp t addrName c addr => s.setTask t (.joining addrName addr c)
  | joined t => s.setTask t .idle
  | leaveLookedUp t c (some addr) => s.setTask t (.leaving addr c)
  | leaveLookedUp _ _ none => s
  | left t => s.setTask t .idle
  | sendFound t c toAddr msg destination => s.sendWith t c toAddr msg destination
  | resolved t m hop => s.putWith t m hop
  | _ => s

/-- The entry is made after the assignment, with `m_addr` and `m_queue` of the client. -/
def rest : Locals Cmd → List (Bus → Bus)
  | connected _ _ queue addr true =>
    [fun bus => { bus with clients := ⟨addr, queue⟩ :: bus.clients }]
  | _ => []

end Locals

def Task.isIdle : Task Cmd → Bool
  | idle => true
  | _ => false

theorem Task.isIdle_iff {task : Task Cmd} : task.isIdle = true ↔ task = idle := by
  cases task <;> simp [isIdle]

/-- The client that a call is made on. -/
def Lbl.client : Lbl Cmd → Option ClientId
  | .initializeClient c _ | .connect c | .disconnect c | .joinLookup _ _ c | .leaveLookup _ _ c
  | .send _ c _ _ | .tryReceive _ c | .destroy _ c => some c
  | .joinCheck _ | .joinSection _ | .leaveCheck _ | .leaveSection _ | .sendNext _ | .drain _
  | .deleteQueue _ => none

/-- Of the same task, or the destruction of the client. -/
def Lbl.excludes (l m : Lbl Cmd) : Bool :=
  match m with
  | .destroy t c => l.task = some t ∨ l.client = some c
  | m => l.task.isSome ∧ l.task = m.task

/-- The section that a step enters, past the guards in front of it. -/
def St.enter (s : St Cmd) : Lbl Cmd → Option (Locals Cmd)
  | .initializeClient c created =>
    match (s.client c).queue, created with
    | none, some h =>
      if s.alive c ∧ (s.queue h).isNone then some (.connecting c true h 0) else none
    | _, _ => none
  | .connect c =>
    if s.alive c then (s.client c).queue.map fun queue => .connecting c false queue 0 else none
  | .disconnect c =>
    if s.alive c then (s.client c).queue.map fun queue => .disconnecting c none queue 0 0 else none
  | .destroy t c =>
    if (s.task t).isIdle ∧ s.alive c then
      (s.client c).queue.map fun queue => .disconnecting c (some t) queue 0 0
    else none
  | .joinLookup t addrName c =>
    if (s.task t).isIdle ∧ s.alive c then some (.joinLookingUp t addrName c 0) else none
  | .joinSection t =>
    match s.task t with
    | .joinChecked _ addr c => some (.joinFinding t addr (s.client c).addr 0)
    | _ => none
  | .leaveLookup t addrName c =>
    if (s.task t).isIdle ∧ s.alive c then some (.leaveLookingUp t addrName c 0) else none
  | .leaveSection t =>
    match s.task t with
    | .leaveChecked addr c => some (.leaveFinding t addr (s.client c).addr 0)
    | _ => none
  | .send t c toAddr msg =>
    -- a client's address is its own destination
    if (s.task t).isIdle ∧ s.alive c ∧ toAddr > 0 then some (.sendFinding t c toAddr msg 0)
    else none
  | .sendNext t =>
    match (s.task t).inHand with
    | some (_, m) =>
      if m.destination = [] then none else some (.resolving t m [] m.destination.reverse 0)
    | none => none
  | .joinCheck _ | .leaveCheck _ | .tryReceive _ _ | .drain _ | .deleteQueue _ => none

/-- The steps of the bus, with its sections one look or change at a time. -/
def sections (Cmd : Type) : Sections (St Cmd) (Lbl Cmd) Bus (Locals Cmd) where
  get := St.bus
  set bus s := { s with bus := bus }
  enter := St.enter
  micro := Locals.micro
  commit v s := v.commit s
  rest := Locals.rest
  excludes := Lbl.excludes

variable {s s' : St Cmd} {l m : Lbl Cmd} {v : Locals Cmd} {bus : Bus}

/-! ## Steps that take no lock -/

/-- The guards in front of a section do not read the tables. -/
theorem enter_setBus (bus : Bus) (s : St Cmd) (l : Lbl Cmd) :
    St.enter { s with bus := bus } l = s.enter l := by
  cases l <;> rfl

/-- Without a queue `connect` returns before the lock. -/
theorem St.connect_of_no_queue {c : ClientId} (h : (s.client c).queue = none) :
    s.connect c = s := by
  simp [St.connect, Bus.connect, h, St.setClient]

/-- So does `disconnect`. -/
theorem St.disconnect_of_no_queue {c : ClientId} (h : (s.client c).queue = none) :
    s.disconnect c = s := by
  simp [St.disconnect, Bus.disconnect, h, St.setClient]

/-- A step that enters no section reads nothing of the tables and changes nothing in them. -/
theorem whole_setBus (bus : Bus) (s : St Cmd) (l : Lbl Cmd) (h : s.enter l = none) :
    step { s with bus := bus } l = (step s l).map fun s => { s with bus := bus } := by
  cases l with
  | initializeClient c created =>
    cases hqueue : (s.client c).queue with
    | some queue =>
      simp only [step, St.initializeClient, hqueue]
      split <;> rfl
    | none =>
      cases created with
      | none =>
        simp only [step, St.initializeClient, hqueue]
        split <;> rfl
      | some h' =>
        have hno : ¬ (s.alive c = true ∧ ∀ h ∈ some h', (s.queue h).isNone = true) := by
          simpa [St.enter, hqueue] using h
        simp only [step]
        rw [if_neg hno, if_neg hno]
        rfl
  | connect c =>
    by_cases halive : s.alive c = true
    · have hqueue : (s.client c).queue = none := by simpa [St.enter, halive] using h
      have hsame : St.connect { s with bus := bus } c = { s with bus := bus } :=
        St.connect_of_no_queue hqueue
      simp only [step, halive, if_true, St.connect_of_no_queue hqueue, Option.map_some, hsame]
    · simp [step, halive]
  | disconnect c =>
    by_cases halive : s.alive c = true
    · have hqueue : (s.client c).queue = none := by simpa [St.enter, halive] using h
      have hsame : St.disconnect { s with bus := bus } c = { s with bus := bus } :=
        St.disconnect_of_no_queue hqueue
      simp only [step, halive, if_true, St.disconnect_of_no_queue hqueue, Option.map_some, hsame]
    · simp [step, halive]
  | joinLookup t addrName c =>
    simp only [step]
    split
    · next htask =>
      have halive : s.alive c = false := by simpa [St.enter, htask, Task.isIdle] using h
      simp [halive]
    · rfl
  | joinSection t =>
    simp only [step]
    split
    · next htask => simp [St.enter, htask] at h
    · rfl
  | leaveLookup t addrName c =>
    simp only [step]
    split
    · next htask =>
      have halive : s.alive c = false := by simpa [St.enter, htask, Task.isIdle] using h
      simp [halive]
    · rfl
  | leaveSection t =>
    simp only [step]
    split
    · next htask => simp [St.enter, htask] at h
    · rfl
  | send t c toAddr msg =>
    simp only [step]
    split
    · next htask =>
      by_cases halive : s.alive c = true
      · have hto : toAddr ≤ 0 := by simpa [St.enter, htask, halive, Task.isIdle] using h
        have hdestination : ∀ bus : Bus,
            bus.destination toAddr = if toAddr < 0 then [toAddr] else [] := by
          intro bus
          simp [Bus.destination, Int.not_lt.mpr hto]
        simp only [halive, if_true, St.send, hdestination]
        split <;> rfl
      · simp [halive]
    · rfl
  | sendNext t =>
    simp only [step]
    split
    · next stop m hhand =>
      have hempty : m.destination = [] := by simpa [St.enter, hhand] using h
      simp only [St.sendToNextClient, hempty]
      rfl
    · rfl
  | destroy t c =>
    simp only [step]
    split
    · next htask =>
      by_cases halive : s.alive c = true
      · have hqueue : (s.client c).queue = none := by
          simpa [St.enter, htask, halive, Task.isIdle] using h
        have hsame : St.disconnect { s with bus := bus } c = { s with bus := bus } :=
          St.disconnect_of_no_queue hqueue
        simp only [halive, if_true, St.destroy, hqueue, St.disconnect_of_no_queue hqueue, hsame]
        rfl
      · simp [halive]
    · rfl
  | joinCheck t =>
    simp only [step]
    split
    · split <;> rfl
    · rfl
  | leaveCheck t =>
    simp only [step]
    split
    · split <;> rfl
    · rfl
  | tryReceive t c =>
    simp only [step, St.tryReceive]
    split
    · split
      · cases (s.client c).queue with
        | none => rfl
        | some h' =>
          simp only
          split <;> rfl
      · rfl
    · rfl
  | drain t =>
    simp only [step, St.drain]
    split
    · next c _ =>
      cases (s.client c).queue with
      | none => rfl
      | some h' =>
        simp only
        split <;> rfl
    · rfl
  | deleteQueue t =>
    simp only [step, St.deleteQueue]
    split
    · next c _ => cases (s.client c).queue <;> rfl
    · rfl

/-- What a section does outside the tables does not depend on them. -/
theorem commit_setBus (v : Locals Cmd) (bus : Bus) (s : St Cmd) :
    v.commit { s with bus := bus } = { v.commit s with bus := bus } := by
  cases v with
  | connected c created queue addr entry => cases created <;> rfl
  | disconnected c destructor => cases destructor <;> rfl
  | leaveLookedUp t c addr => cases addr <;> rfl
  | resolved t m hop =>
    unfold Locals.commit St.putWith
    simp only [St.setTask]
    split
    · rfl
    split
    · rfl
    · split <;> rfl
  | _ => rfl

/-- What a step without the lock leaves alone. -/
structure WholeFrame (s : St Cmd) (m : Lbl Cmd) (s' : St Cmd) : Prop where
  task : ∀ t, m.task ≠ some t → s'.task t = s.task t
  addr : ∀ c, (s'.client c).addr = (s.client c).addr
  alive : ∀ c, (∀ t, m ≠ .destroy t c) → s'.alive c = s.alive c
  queue : ∀ c, s.alive c = true → (s'.client c).queue = (s.client c).queue
  free : ∀ h, s.queue h = none → s'.queue h = none

theorem WholeFrame.refl : WholeFrame s m s :=
  ⟨fun _ _ => rfl, fun _ => rfl, fun _ _ => rfl, fun _ _ => rfl, fun _ h => h⟩

/-- A change of the step's own task is within the frame. -/
theorem WholeFrame.setTask {t : TaskId} {task : Task Cmd} (ht : m.task = some t) :
    WholeFrame s m (s.setTask t task) := by
  refine ⟨?_, fun _ => rfl, fun _ _ => rfl, fun _ _ => rfl, fun _ h => h⟩
  intro u hu
  have hne : u ≠ t := by
    rintro rfl
    exact hu ht
  simp [hne]

/-- A queue that is there gets other contents, and the log another event. -/
theorem WholeFrame.pop {t : TaskId} {task : Task Cmd} {h : QueueHandle}
    {slots slots' : List (Slot Cmd)} {log : List (Relay.Event BusAddr QueueHandle ClientId)}
    (ht : m.task = some t) (hslots : s.queue h = some slots) :
    WholeFrame s m { (s.setQueue h (some slots')).setTask t task with log := log } := by
  refine ⟨?_, fun _ => rfl, fun _ _ => rfl, fun _ _ => rfl, ?_⟩
  · intro u hu
    have hne : u ≠ t := by
      rintro rfl
      exact hu ht
    simp [hne]
  · intro h' hfree
    have hne : h' ≠ h := by
      rintro rfl
      rw [hfree] at hslots
      cases hslots
    simpa [hne] using hfree

/-- A step without the lock keeps the addresses, the other tasks and the clients that live on. -/
theorem whole_frame (hs : Sound s) (hm : s.enter m = none) (hstep : step s m = some s') :
    WholeFrame s m s' := by
  cases fires_of_step hstep with
  | quiet => exact .refl
  | created halive hnone hfree => simp [St.enter, halive, hnone, hfree] at hm
  | connect halive =>
    rw [St.connect_of_no_queue (by simpa [St.enter, halive] using hm)]
    exact .refl
  | disconnect halive =>
    rw [St.disconnect_of_no_queue (by simpa [St.enter, halive] using hm)]
    exact .refl
  | @joinLookup t addrName c htask =>
    have halive : s.alive c = false := by simpa [St.enter, htask, Task.isIdle] using hm
    simp [step, htask, halive] at hstep
  | joinPassed => exact .setTask rfl
  | joinRefused => exact .setTask rfl
  | joinSection htask => simp [St.enter, htask] at hm
  | @leaveLookup t addrName addr c htask =>
    have halive : s.alive c = false := by simpa [St.enter, htask, Task.isIdle] using hm
    simp [step, htask, halive] at hstep
  | leavePassed => exact .setTask rfl
  | leaveRefused => exact .setTask rfl
  | leaveSection htask => simp [St.enter, htask] at hm
  | send htask halive =>
    exact ⟨(WholeFrame.setTask rfl).task, fun _ => rfl, fun _ _ => rfl, fun _ _ => rfl,
      fun _ h => h⟩
  | @sendNext t stop m hhand =>
    -- there is nobody left to send it to
    have hempty : m.destination = [] := by simpa [St.enter, hhand] using hm
    have heq : s.sendToNextClient t m = { s.setTask t (s.task t).afterSend with
        log := s.log ++ [.retired [] m.serial] } := by
      simp [St.sendToNextClient, hempty, Bus.nextHop, Bus.resolveLoop]
    rw [heq]
    exact ⟨(WholeFrame.setTask rfl).task, fun _ => rfl, fun _ _ => rfl, fun _ _ => rfl,
      fun _ h => h⟩
  | received _ _ _ hslots => exact .pop rfl hslots
  | @destroy t c htask halive =>
    have hqueue : (s.client c).queue = none := by
      simpa [St.enter, htask, halive, Task.isIdle] using hm
    have heq : s.destroy t c = { s with alive := update s.alive c false } := by
      simp [St.destroy, hqueue, St.disconnect_of_no_queue hqueue]
    rw [heq]
    refine ⟨fun _ _ => rfl, fun _ => rfl, ?_, fun _ _ => rfl, fun _ h => h⟩
    intro c' hc'
    have hne : c' ≠ c := by
      rintro rfl
      exact hc' t rfl
    simp [hne]
  | popped _ _ hslots => exact .pop rfl hslots
  | drained => exact .setTask rfl
  | @deleteQueue t c h htask hqueue =>
    have hdestroying : (s.task t).destroying = some c := by simp [htask, Task.destroying]
    have hdead : s.alive c = false := hs.destroying hdestroying
    refine ⟨fun u hu => (WholeFrame.setTask rfl).task u hu, ?_, fun _ _ => rfl, ?_, ?_⟩
    · intro c'
      by_cases hc : c' = c
      · rw [hc]
        simp
      · simp [hc]
    · intro c' halive
      have hne : c' ≠ c := by
        rintro rfl
        rw [hdead] at halive
        cases halive
      simp [hne]
    · intro h' hfree
      by_cases hh : h' = h
      · rw [hh]
        simp
      · simpa [hh] using hfree

/-- What a section leaves room for: steps of other tasks, and no destruction of its client. -/
theorem excludes_eq_false (h : l.excludes m = false) :
    (∀ t, l.task = some t → m.task ≠ some t) ∧ ∀ c, l.client = some c → ∀ t, m ≠ .destroy t c := by
  cases m with
  | destroy t c =>
    simp only [Lbl.excludes, decide_eq_false_iff_not, not_or] at h
    refine ⟨?_, ?_⟩
    · rintro u hu ⟨⟩
      exact h.1 hu
    · rintro c' hc' t' ⟨⟩
      exact h.2 hc'
  | _ =>
    refine ⟨?_, nofun⟩
    intro t ht hm
    simp [Lbl.excludes, ht, hm] at h

/-- A task in a section finds everything as it was when it entered. -/
theorem enter_stable (hs : Sound s) (hv : s.enter l = some v) (hm : s.enter m = none)
    (hex : l.excludes m = false) (hstep : step s m = some s') : s'.enter l = some v := by
  obtain ⟨htask, haddr, halive, hqueue, hfree⟩ := whole_frame hs hm hstep
  rcases excludes_eq_false hex with ⟨hother, hkept⟩
  cases l with
  | initializeClient c created =>
    have hc := halive c (hkept c rfl)
    simp only [St.enter] at hv ⊢
    split at hv
    · next h hnone =>
      rcases Option.ite_none_right_eq_some.mp hv with ⟨⟨ha, hh⟩, hv⟩
      have hh' : (s'.queue h).isNone = true := by
        rw [hfree h (Option.isNone_iff_eq_none.mp hh)]
        rfl
      rw [hqueue c ha, hnone]
      simp only
      rw [if_pos ⟨hc.trans ha, hh'⟩]
      exact hv
    · cases hv
  | connect c =>
    have hc := halive c (hkept c rfl)
    simp only [St.enter, Option.ite_none_right_eq_some] at hv ⊢
    rw [hc, hqueue c hv.1]
    exact hv
  | disconnect c =>
    have hc := halive c (hkept c rfl)
    simp only [St.enter, Option.ite_none_right_eq_some] at hv ⊢
    rw [hc, hqueue c hv.1]
    exact hv
  | joinLookup t addrName c =>
    simp only [St.enter]
    rw [htask t (hother t rfl), halive c (hkept c rfl)]
    exact hv
  | joinCheck t => cases hv
  | joinSection t =>
    simp only [St.enter]
    simp only [htask t (hother t rfl), haddr]
    exact hv
  | leaveLookup t addrName c =>
    simp only [St.enter]
    rw [htask t (hother t rfl), halive c (hkept c rfl)]
    exact hv
  | leaveCheck t => cases hv
  | leaveSection t =>
    simp only [St.enter]
    simp only [htask t (hother t rfl), haddr]
    exact hv
  | send t c toAddr msg =>
    simp only [St.enter]
    rw [htask t (hother t rfl), halive c (hkept c rfl)]
    exact hv
  | sendNext t =>
    simp only [St.enter]
    rw [htask t (hother t rfl)]
    exact hv
  | tryReceive t c => cases hv
  | destroy t c =>
    have hc := halive c (hkept c rfl)
    simp only [St.enter, Option.ite_none_right_eq_some] at hv ⊢
    rw [hc, hqueue c hv.1.2, htask t (hother t rfl)]
    exact hv
  | drain t => cases hv
  | deleteQueue t => cases hv

/-! ## What the sections come to -/

/-- The section that starts so ends in the state `t`. -/
def Comes (v : Locals Cmd) (s t : St Cmd) : Prop :=
  ∃ v' bus, Steps Locals.micro (v, s.bus) (v', bus) ∧ Locals.micro (v', bus) = none ∧
    t = (sections Cmd).outcome v' bus s

/-- `connect`, of a client that `initialize` has just given the queue, or of another. -/
theorem comes_connecting {c : ClientId} {created : Bool} {queue : QueueHandle}
    (hqueue : ((if created then s.createQueue c queue else s).client c).queue = some queue) :
    Comes (.connecting c created queue 0) s
      ((if created then s.createQueue c queue else s).connect c) := by
  have hsteps := find_steps (@Locals.micro Cmd) (fun other => queue = other.queue) s.bus.clients
    (fun i => (.connecting c created queue i, s.bus))
    (fun _ other => (.connected c created queue other.addr false, s.bus))
    (.connected c created queue (s.bus.addrLast - 1) true,
      { s.bus with addrLast := s.bus.addrLast - 1 })
    (fun i other hi hp => by simp [Locals.micro, hi, of_decide_eq_false hp])
    (fun i other hi hp => by simp [Locals.micro, hi, of_decide_eq_true hp])
    (fun i hi => by simp [Locals.micro, hi])
  obtain ⟨base, hbase⟩ : ∃ base, base = if created then s.createQueue c queue else s := ⟨_, rfl⟩
  rw [← hbase] at hqueue ⊢
  have hbus : base.bus = s.bus := by
    rw [hbase]
    split <;> rfl
  have hcommit : ∀ addr entry, (Locals.connected c created queue addr entry).commit s =
      { base.setClient c ⟨addr, some queue⟩ with handed := base.handed ++ [(c, addr)] } := by
    intro addr entry
    simp only [Locals.commit, ← hbase, hqueue]
  unfold St.connect Bus.connect
  simp only [hqueue, hbus]
  cases hfind : s.bus.clients.find? fun other => queue = other.queue with
  | some other =>
    rw [hfind] at hsteps
    refine ⟨_, _, hsteps, rfl, ?_⟩
    simp only [Sections.outcome, sections, hcommit]
    rfl
  | none =>
    rw [hfind] at hsteps
    refine ⟨_, _, hsteps, rfl, ?_⟩
    simp only [Sections.outcome, sections, hcommit]
    rfl

/-- `disconnect`, also as the first line of a destructor. -/
theorem comes_disconnecting {c : ClientId} {queue : QueueHandle}
    (hqueue : (s.client c).queue = some queue) :
    Comes (.disconnecting c none queue 0 0) s (s.disconnect c) ∧
      ∀ t, Comes (.disconnecting c (some t) queue 0 0) s (s.destroy t c) := by
  have hsteps : ∀ destructor, Steps (@Locals.micro Cmd)
      (.disconnecting c destructor queue 0 0, s.bus)
      (.disconnected c destructor,
        { s.bus with clients := removeIf (fun other => queue = other.queue) s.bus.clients }) := by
    intro destructor
    exact removeIf_steps (@Locals.micro Cmd) (fun other => queue = other.queue) s.bus.clients
      (fun first i l => (.disconnecting c destructor queue first i, { s.bus with clients := l }))
      (fun l => (.disconnected c destructor, { s.bus with clients := l }))
      (fun first i l other hi hp => by simp [Locals.micro, hi, of_decide_eq_true hp])
      (fun first i l other hi hp => by simp [Locals.micro, hi, of_decide_eq_false hp])
      (fun first i l hi => by simp [Locals.micro, hi])
  constructor
  · refine ⟨_, _, hsteps none, rfl, ?_⟩
    simp only [St.disconnect, Bus.disconnect, hqueue, Sections.outcome, sections, Locals.commit]
    rfl
  · intro t
    refine ⟨_, _, hsteps (some t), rfl, ?_⟩
    simp only [St.destroy, St.disconnect, Bus.disconnect, hqueue, Sections.outcome, sections,
      Locals.commit]
    rfl

/-- The first loop of `join` by name comes to `joinLookup`. -/
theorem comes_joinLookingUp {t : TaskId} {addrName : String} {c : ClientId} :
    Comes (.joinLookingUp t addrName c 0) s
      { s.setTask t (.joining addrName (s.bus.joinLookup addrName).1 c) with
        bus := (s.bus.joinLookup addrName).2 } := by
  have hsteps := find_steps (@Locals.micro Cmd) (fun group => group.addrName = some addrName)
    s.bus.groups
    (fun i => (.joinLookingUp t addrName c i, s.bus))
    (fun _ group => (.joinLookedUp t addrName c group.addr, s.bus))
    (.joinNumbered t addrName c (s.bus.groupLast + 1),
      { s.bus with groupLast := s.bus.groupLast + 1 })
    (fun i group hi hp => by simp [Locals.micro, hi, of_decide_eq_false hp])
    (fun i group hi hp => by simp [Locals.micro, hi, of_decide_eq_true hp])
    (fun i hi => by simp [Locals.micro, hi])
  unfold Bus.joinLookup
  cases hfind : s.bus.groups.find? fun group => group.addrName = some addrName with
  | some group =>
    rw [hfind] at hsteps
    exact ⟨_, _, hsteps, rfl, rfl⟩
  | none =>
    rw [hfind] at hsteps
    exact ⟨_, _, hsteps.tail rfl, rfl, rfl⟩

/-- The loop of `leave` by name comes to `leaveLookup`. -/
theorem comes_leaveLookingUp {t : TaskId} {addrName : String} {c : ClientId} :
    Comes (.leaveLookingUp t addrName c 0) s
      (match s.bus.leaveLookup addrName with
        | some addr => s.setTask t (.leaving addr c)
        | none => s) := by
  have hsteps := find_steps (@Locals.micro Cmd) (fun group => group.addrName = some addrName)
    s.bus.groups
    (fun i => (.leaveLookingUp t addrName c i, s.bus))
    (fun _ group => (.leaveLookedUp t c (some group.addr), s.bus))
    (.leaveLookedUp t c none, s.bus)
    (fun i group hi hp => by simp [Locals.micro, hi, of_decide_eq_false hp])
    (fun i group hi hp => by simp [Locals.micro, hi, of_decide_eq_true hp])
    (fun i hi => by simp [Locals.micro, hi])
  unfold Bus.leaveLookup
  cases hfind : s.bus.groups.find? fun group => group.addrName = some addrName with
  | some group =>
    rw [hfind] at hsteps
    exact ⟨_, _, hsteps, rfl, rfl⟩
  | none =>
    rw [hfind] at hsteps
    exact ⟨_, _, hsteps, rfl, rfl⟩

/-- The loop of `destination` comes to `send` with the list of the group. -/
theorem comes_sendFinding {t : TaskId} {c : ClientId} {toAddr : BusAddr} {msg : Cmd}
    (hto : toAddr > 0) : Comes (.sendFinding t c toAddr msg 0) s (s.send t c toAddr msg) := by
  have hsteps := find_steps (@Locals.micro Cmd) (fun group => toAddr = group.addr) s.bus.groups
    (fun i => (.sendFinding t c toAddr msg i, s.bus))
    (fun _ group => (.sendFound t c toAddr msg group.destination, s.bus))
    (.sendFound t c toAddr msg [], s.bus)
    (fun i group hi hp => by simp [Locals.micro, hi, of_decide_eq_false hp])
    (fun i group hi hp => by simp [Locals.micro, hi, of_decide_eq_true hp])
    (fun i hi => by simp [Locals.micro, hi])
  have hsend : s.send t c toAddr msg = s.sendWith t c toAddr msg (s.bus.destination toAddr) := rfl
  rw [hsend, Bus.destination, if_neg (Int.not_lt.mpr (Int.le_of_lt hto)), if_pos hto]
  cases hfind : s.bus.groups.find? fun group => toAddr = group.addr with
  | some group =>
    rw [hfind] at hsteps
    exact ⟨_, _, hsteps, rfl, rfl⟩
  | none =>
    rw [hfind] at hsteps
    exact ⟨_, _, hsteps, rfl, rfl⟩

/-! ### The members of a group -/

/-- Where `std::find_if` finds the group is where the group is changed. -/
theorem updateFirst_eq_set {α : Type} {p : α → Bool} {f : α → α} {l : List α} {x : α}
    (hfind : l.find? p = some x) : updateFirst p f l = l.set (l.findIdx p) (f x) := by
  induction l with
  | nil => cases hfind
  | cons y ys ih =>
    rw [updateFirst, List.findIdx_cons]
    rw [List.find?_cons] at hfind
    cases hy : p y with
    | true =>
      rw [hy] at hfind
      obtain rfl : y = x := Option.some.inj hfind
      simp
    | false =>
      rw [hy] at hfind
      simpa [hy] using ih hfind

/-- The second loop of `join`. -/
theorem joinScanning_steps {t : TaskId} {member : BusAddr} {i : Nat} {group : Group}
    (hget : bus.groups[i]? = some group) :
    Steps (@Locals.micro Cmd) (.joinScanning t member i 0, bus)
      (.joined t, { bus with groups := bus.groups.set i (group.addMember ⟨member, none⟩) }) := by
  have hsteps := find_steps (@Locals.micro Cmd) (fun addr => member = addr) group.destination
    (fun j => (.joinScanning t member i j, bus)) (fun _ _ => (.joined t, bus))
    (.joined t, { bus with
      groups := bus.groups.set i { group with destination := member :: group.destination } })
    (fun j addr hj hp => by simp [Locals.micro, hget, hj, of_decide_eq_false hp])
    (fun j addr hj hp => by simp [Locals.micro, hget, hj, of_decide_eq_true hp])
    (fun j hj => by simp [Locals.micro, hget, hj])
  unfold Group.addMember
  cases hfind : group.destination.find? fun addr => member = addr with
  | some addr =>
    rw [hfind] at hsteps
    have hmem : member ∈ group.destination := by
      obtain rfl : member = addr := by simpa using List.find?_some hfind
      exact List.mem_of_find?_eq_some hfind
    have hsame : bus.groups.set i group = bus.groups := by
      rcases List.getElem?_eq_some_iff.mp hget with ⟨hi, hgroup⟩
      rw [← hgroup, List.set_getElem_self]
    rw [if_pos hmem, hsame]
    exact hsteps
  | none =>
    rw [hfind] at hsteps
    have hmem : member ∉ group.destination := by simpa using List.find?_eq_none.mp hfind member
    rw [if_neg hmem]
    exact hsteps

/-- Both loops of `join` by address come to `joinSection`. -/
theorem comes_joinFinding {t : TaskId} {addr : BusAddr} {client : IBusClient} :
    Comes (.joinFinding t addr client.addr 0) s
      { s.setTask t .idle with bus := s.bus.joinSection addr client } := by
  have hsteps := find_steps (@Locals.micro Cmd) (fun group => addr = group.addr) s.bus.groups
    (fun i => (.joinFinding t addr client.addr i, s.bus))
    (fun i _ => (.joinScanning t client.addr i 0, s.bus))
    (.joinScanning t client.addr 0 0,
      { s.bus with groups := ⟨addr, none, []⟩ :: s.bus.groups })
    (fun i group hi hp => by simp [Locals.micro, hi, of_decide_eq_false hp])
    (fun i group hi hp => by simp [Locals.micro, hi, of_decide_eq_true hp])
    (fun i hi => by simp [Locals.micro, hi])
  unfold Bus.joinSection
  cases hfind : s.bus.groups.find? fun group => addr = group.addr with
  | some group =>
    rw [hfind] at hsteps
    have hget := List.find?_eq_getElem?_findIdx.symm.trans hfind
    refine ⟨_, _, ReflTransGen.trans hsteps (joinScanning_steps hget), rfl, ?_⟩
    simp only [updateFirst_eq_set hfind]
    rfl
  | none =>
    rw [hfind] at hsteps
    refine ⟨_, _, ReflTransGen.trans hsteps (joinScanning_steps rfl), rfl, ?_⟩
    simp only [updateFirst, decide_true, if_true]
    rfl

/-- The `std::remove_if` of `leave`. -/
theorem leaveRemoving_steps {t : TaskId} {member : BusAddr} {i : Nat} {group : Group}
    (hget : bus.groups[i]? = some group) :
    Steps (@Locals.micro Cmd) (.leaveRemoving t member i 0 0, bus)
      (.left t, { bus with groups := bus.groups.set i (group.removeMember ⟨member, none⟩) }) := by
  rcases List.getElem?_eq_some_iff.mp hget with ⟨hi, hgroup⟩
  have hset : ∀ x, (bus.groups.set i x)[i]? = some x := fun x => List.getElem?_set_self hi
  have hsteps := removeIf_steps (@Locals.micro Cmd) (fun addr => member = addr) group.destination
    (fun first j l => (.leaveRemoving t member i first j,
      { bus with groups := bus.groups.set i { group with destination := l } }))
    (fun l => (.left t, { bus with groups := bus.groups.set i { group with destination := l } }))
    (fun first j l addr hj hp => by simp [Locals.micro, hset, hj, of_decide_eq_true hp])
    (fun first j l addr hj hp => by simp [Locals.micro, hset, hj, of_decide_eq_false hp])
    (fun first j l hj => by simp [Locals.micro, hset, hj])
  have hsame : bus.groups.set i group = bus.groups := by
    rw [← hgroup, List.set_getElem_self]
  simp only [hsame] at hsteps
  exact hsteps

/-- The loops of `leave` by address come to `leaveSection`. -/
theorem comes_leaveFinding {t : TaskId} {addr : BusAddr} {client : IBusClient} :
    Comes (.leaveFinding t addr client.addr 0) s
      { s.setTask t .idle with bus := s.bus.leaveSection addr client } := by
  have hsteps := find_steps (@Locals.micro Cmd) (fun group => addr = group.addr) s.bus.groups
    (fun i => (.leaveFinding t addr client.addr i, s.bus))
    (fun i _ => (.leaveRemoving t client.addr i 0 0, s.bus)) (.left t, s.bus)
    (fun i group hi hp => by simp [Locals.micro, hi, of_decide_eq_false hp])
    (fun i group hi hp => by simp [Locals.micro, hi, of_decide_eq_true hp])
    (fun i hi => by simp [Locals.micro, hi])
  unfold Bus.leaveSection
  cases hfind : s.bus.groups.find? fun group => addr = group.addr with
  | some group =>
    rw [hfind] at hsteps
    have hget := List.find?_eq_getElem?_findIdx.symm.trans hfind
    refine ⟨_, _, ReflTransGen.trans hsteps (leaveRemoving_steps hget), rfl, ?_⟩
    simp only [updateFirst_eq_set hfind]
    rfl
  | none =>
    rw [hfind] at hsteps
    have hsame : updateFirst (fun group => addr = group.addr)
        (fun group => group.removeMember client) s.bus.groups = s.bus.groups := by
      apply updateFirst_eq_self
      intro group hgroup haddr
      exact absurd haddr (List.find?_eq_none.mp hfind group hgroup)
    exact ⟨_, _, hsteps, rfl, by rw [hsame]; rfl⟩

/-! ### The next hop -/

/-- The loop of `sendToNextClient` pops addresses until one has a queue. -/
theorem resolving_steps (bus : Bus) (t : TaskId) (m : BusMsg Cmd) (back skipped : List BusAddr) :
    Steps Locals.micro (.resolving t m skipped back 0, bus) (.resolved t m
      ⟨skipped ++ (bus.resolveLoop back).skipped, (bus.resolveLoop back).found⟩, bus) := by
  induction back generalizing skipped with
  | nil =>
    rw [Bus.resolveLoop, List.append_nil]
    exact .single rfl
  | cons addr rest ih =>
    have hon := ih (skipped ++ [addr])
    rw [List.append_assoc] at hon
    rw [Bus.resolveLoop, Bus.resolve]
    by_cases hneg : addr < 0
    · have hsteps := find_steps (@Locals.micro Cmd) (fun client => addr = client.addr) bus.clients
        (fun i => (.resolving t m skipped (addr :: rest) i, bus))
        (fun _ client =>
          (.resolved t m ⟨skipped, some (addr, client.queue, rest.reverse)⟩, bus))
        (.resolving t m (skipped ++ [addr]) rest 0, bus)
        (fun i client hi hp => by simp [Locals.micro, hi, hneg, of_decide_eq_false hp])
        (fun i client hi hp => by simp [Locals.micro, hi, hneg, ← of_decide_eq_true hp])
        (fun i hi => by simp [Locals.micro, hi, hneg])
      rw [if_pos hneg]
      cases hfind : bus.clients.find? fun client => addr = client.addr with
      | some client =>
        rw [hfind] at hsteps
        simpa using hsteps
      | none =>
        rw [hfind] at hsteps
        exact ReflTransGen.trans hsteps hon
    · -- a group's address, or none
      have hstep : Locals.micro (.resolving t m skipped (addr :: rest) 0, bus) =
          some (.resolving t m (skipped ++ [addr]) rest 0, bus) := by
        simp [Locals.micro, hneg]
      rw [if_neg hneg]
      exact .head hstep hon

/-- Putting a message into a queue leaves the tables alone. -/
theorem St.putWith_bus (s : St Cmd) (t : TaskId) (m : BusMsg Cmd) (hop : Bus.Resolved) :
    { s.putWith t m hop with bus := s.bus } = s.putWith t m hop := by
  unfold St.putWith
  simp only
  split
  · rfl
  split
  · rfl
  · split <;> rfl

/-- The loop of `sendToNextClient`, with the whole list in front of it. -/
theorem comes_resolving {t : TaskId} {m : BusMsg Cmd} :
    Comes (.resolving t m [] m.destination.reverse 0) s (s.sendToNextClient t m) := by
  have hsteps := resolving_steps s.bus t m m.destination.reverse []
  rw [List.nil_append] at hsteps
  exact ⟨_, _, hsteps, rfl, (s.putWith_bus t m (s.bus.nextHop m.destination)).symm⟩

/-! ## The sections are atomic -/

/-- Every section comes to the single step of the model. -/
theorem Comes.step_of_enter {v : Locals Cmd} (hv : s.enter l = some v) :
    ∃ t, Comes v s t ∧ step s l = some t := by
  cases l with
  | initializeClient c created =>
    simp only [St.enter] at hv
    split at hv
    · next h hnone =>
      rcases Option.ite_none_right_eq_some.mp hv with ⟨⟨halive, hfree⟩, hv⟩
      obtain rfl := Option.some.inj hv
      have hcomes : Comes (.connecting c true h 0) s ((s.createQueue c h).connect c) :=
        comes_connecting (by simp)
      have hguard : s.alive c = true ∧ ∀ h' ∈ some h, (s.queue h').isNone = true :=
        ⟨halive, by simpa using hfree⟩
      refine ⟨_, hcomes, ?_⟩
      simp only [step]
      rw [if_pos hguard]
      simp [St.initializeClient, hnone]
    · cases hv
  | connect c =>
    rcases Option.ite_none_right_eq_some.mp hv with ⟨halive, hv⟩
    rcases Option.map_eq_some_iff.mp hv with ⟨queue, hqueue, rfl⟩
    have hcomes : Comes (.connecting c false queue 0) s (s.connect c) := comes_connecting hqueue
    exact ⟨_, hcomes, if_pos halive⟩
  | disconnect c =>
    rcases Option.ite_none_right_eq_some.mp hv with ⟨halive, hv⟩
    rcases Option.map_eq_some_iff.mp hv with ⟨queue, hqueue, rfl⟩
    exact ⟨_, (comes_disconnecting hqueue).1, if_pos halive⟩
  | joinLookup t addrName c =>
    rcases Option.ite_none_right_eq_some.mp hv with ⟨⟨hidle, halive⟩, hv⟩
    obtain rfl := Option.some.inj hv
    refine ⟨_, comes_joinLookingUp, ?_⟩
    simp [step, Task.isIdle_iff.mp hidle, halive]
  | joinCheck t => cases hv
  | joinSection t =>
    simp only [St.enter] at hv
    split at hv
    · next addrName addr c htask =>
      obtain rfl := Option.some.inj hv
      refine ⟨_, comes_joinFinding, ?_⟩
      simp [step, htask]
    · cases hv
  | leaveLookup t addrName c =>
    rcases Option.ite_none_right_eq_some.mp hv with ⟨⟨hidle, halive⟩, hv⟩
    obtain rfl := Option.some.inj hv
    refine ⟨_, comes_leaveLookingUp, ?_⟩
    simp only [step, Task.isIdle_iff.mp hidle, if_pos halive]
    cases s.bus.leaveLookup addrName <;> rfl
  | leaveCheck t => cases hv
  | leaveSection t =>
    simp only [St.enter] at hv
    split at hv
    · next addr c htask =>
      obtain rfl := Option.some.inj hv
      refine ⟨_, comes_leaveFinding, ?_⟩
      simp [step, htask]
    · cases hv
  | send t c toAddr msg =>
    rcases Option.ite_none_right_eq_some.mp hv with ⟨⟨hidle, halive, hto⟩, hv⟩
    obtain rfl := Option.some.inj hv
    refine ⟨_, comes_sendFinding hto, ?_⟩
    have hne : toAddr ≠ BusAddrInvalid := Int.ne_of_gt hto
    simp [step, Task.isIdle_iff.mp hidle, halive, hne]
  | sendNext t =>
    simp only [St.enter] at hv
    split at hv
    · next stop m hhand =>
      rcases Option.ite_none_left_eq_some.mp hv with ⟨-, hv⟩
      obtain rfl := Option.some.inj hv
      refine ⟨_, comes_resolving, ?_⟩
      simp [step, hhand]
    · cases hv
  | tryReceive t c => cases hv
  | destroy t c =>
    rcases Option.ite_none_right_eq_some.mp hv with ⟨⟨hidle, halive⟩, hv⟩
    rcases Option.map_eq_some_iff.mp hv with ⟨queue, hqueue, rfl⟩
    refine ⟨_, (comes_disconnecting hqueue).2 t, ?_⟩
    simp [step, Task.isIdle_iff.mp hidle, halive]
  | drain t => cases hv
  | deleteQueue t => cases hv

/-- What the mutex of the bus makes of its sections. -/
theorem sections_atomic (Cmd : Type) : Atomic (sections Cmd) step Sound where
  get_set _ _ := rfl
  set_get _ := rfl
  set_set _ _ _ := rfl
  enter_set := enter_setBus
  whole := whole_setBus
  commit_set := commit_setBus
  stable hs hv hm hex hstep := enter_stable hs hv hm hex hstep
  runs _ hv := by
    rcases Comes.step_of_enter hv with ⟨t, ⟨v', bus, hsteps, hend, rfl⟩, hstep⟩
    exact ⟨v', bus, hsteps, hend, hstep⟩
  keeps hs hstep := hs.preserved hstep

/-- The mutex makes the sections single steps: with it free, the same steps lead to the same states
as if they were, and at any other time all that has happened is what the commits so far come to. The
task that has it needs nobody to give it back. -/
theorem sections_exact (Cmd : Type) :
    (∀ s ls, (∃ tr, Run ((sections Cmd).step step) ⟨St.init Cmd, none⟩ tr ⟨s, none⟩ ∧
        committed (sections Cmd) tr = ls) ↔
      ∃ tr, Run step (St.init Cmd) tr s ∧ tr.map Prod.snd = ls) ∧
    ∀ tr f, Run ((sections Cmd).step step) ⟨St.init Cmd, none⟩ tr f →
      (∃ tr' s, Run step (St.init Cmd) tr' s ∧ tr'.map Prod.snd = committed (sections Cmd) tr ∧
        Simulates (sections Cmd) f s) ∧
      ComesFree (sections Cmd) step f := by
  have hA := sections_atomic Cmd
  constructor
  · intro s ls
    exact run_exact hA Sound.init s ls
  · intro tr f hrun
    exact ⟨run_atomic hA Sound.init hrun, run_comesFree hA Sound.init hrun⟩

/-- When `join` has numbered its group and not yet made it, another task begins to send to a client,
which takes no lock; then `join` goes on to its commit. -/
def crossingJoin : List (Mutex.Lbl (Lbl Unit)) :=
  [.acquire (.initializeClient 0 (some 7)), .next, .next, .next, .next,
    .acquire (.joinLookup 1 "lamp" 0), .next,
    .whole (.send 2 0 (-1) ()), .next, .next]

theorem crossingJoin_enabled :
    (exec ((sections Unit).step step) ⟨St.init Unit, none⟩ crossingJoin).isSome = true := by
  decide +kernel

/-- The crossing steps are those of a run in which `send` is before `join`, whose lock is still
held. -/
theorem sections_exact_crossing :
    ∃ tr f, Run ((sections Unit).step step) ⟨St.init Unit, none⟩ tr f ∧ f.lock.isSome = true ∧
      (∃ tr' s, Run step (St.init Unit) tr' s ∧
        tr'.map Prod.snd =
          [.initializeClient 0 (some 7), .send 2 0 (-1) (), .joinLookup 1 "lamp" 0] ∧
        Simulates (sections Unit) f s) ∧
      ComesFree (sections Unit) step f := by
  have hrun := run_get ((sections Unit).step step) ⟨St.init Unit, none⟩ crossingJoin
    crossingJoin_enabled
  rcases (sections_exact Unit).2 _ _ hrun with ⟨⟨tr', s, hrun', hlabels, hsim⟩, hfree⟩
  refine ⟨_, _, hrun, by decide +kernel, ⟨tr', s, hrun', ?_, hsim⟩, hfree⟩
  rw [hlabels]
  decide +kernel

end EspAcDimmer
