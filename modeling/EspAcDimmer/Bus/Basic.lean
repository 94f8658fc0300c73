import EspAcDimmer.Lib.StdList

/-! # The message bus: addresses, client table, groups

`Bus.cpp` without its messages: the tables a `Bus` keeps under `m_mutex` and the critical sections
that read and change them. Each function here is one critical section (or one unlocked guard) of
the source; `Bus.join` and `Bus.leave` by name put two of them together.

Addresses are `int32_t` in the source. `m_addrLast` and `m_groupLast` only ever move by one per new
client entry or new group, so they stay inside 32 bits for the first `2 ^ 31 - 1` of either and the
model counts in `Int`.
-/

namespace EspAcDimmer

open StdList

/-- Bus address: `0` is invalid, a client address is negative, a group address positive. -/
abbrev BusAddr := Int

abbrev BusAddrInvalid : BusAddr := 0

/-- `QueueHandle_t`; `nullptr` is `none` of `Option QueueHandle`. -/
abbrev QueueHandle := Nat

/-- `Bus::Client`, an entry of the client table. -/
structure Client where
  addr : BusAddr
  queue : QueueHandle
deriving DecidableEq, Repr

/-- `Bus::Group`. The constructor's default name is a null pointer; `none` stands for a group
built with it. -/
structure Group where
  addr : BusAddr
  addrName : Option String
  destination : List BusAddr := []
deriving DecidableEq, Repr

structure Bus where
  addrLast : BusAddr := BusAddrInvalid
  groupLast : BusAddr := BusAddrInvalid
  clients : List Client := []
  groups : List Group := []
deriving DecidableEq, Repr

/-- The two members of `IBusClient` the bus works on. -/
structure IBusClient where
  addr : BusAddr := BusAddrInvalid
  queue : Option QueueHandle := none
deriving DecidableEq, Repr

/-- `IBusClient::isConnectedToBus`. -/
def IBusClient.isConnectedToBus (client : IBusClient) : Prop :=
  client.queue.isSome ∧ client.addr ≠ BusAddrInvalid

instance (client : IBusClient) : Decidable client.isConnectedToBus :=
  inferInstanceAs (Decidable (_ ∧ _))

/-- What `join(BusAddr)` does to its group: the member is put in front, once. -/
def Group.addMember (group : Group) (client : IBusClient) : Group :=
  if client.addr ∈ group.destination then group
  else { group with destination := client.addr :: group.destination }

/-- The `std::remove_if` of `leave(BusAddr)`, with nothing erased. -/
def Group.removeMember (group : Group) (client : IBusClient) : Group :=
  { group with destination := removeIf (fun addr => client.addr = addr) group.destination }

namespace Bus

/-! ## Clients -/

/-- `Bus::connect`: the returned flag, the bus and the client afterwards. -/
def connect (bus : Bus) (client : IBusClient) : Bool × Bus × IBusClient :=
  match client.queue with
  | none => (false, bus, client)
  | some queue =>
    match bus.clients.find? fun other => queue = other.queue with
    | some i => (true, bus, { client with addr := i.addr })  -- already connected, recovery addr
    | none =>
      -- `--m_addrLast`, and a new entry in front
      let addr := bus.addrLast - 1
      (true, { bus with addrLast := addr, clients := ⟨addr, queue⟩ :: bus.clients },
        { client with addr := addr })

/-- `Bus::disconnect`. The iterator `std::remove_if` returns is dropped. -/
def disconnect (bus : Bus) (client : IBusClient) : Bus × IBusClient :=
  match client.queue with
  | none => (bus, client)
  | some queue =>
    ({ bus with clients := removeIf (fun other => queue = other.queue) bus.clients },
      { client with addr := BusAddrInvalid })

/-- `Bus::resolve(BusAddr)`. -/
def resolve (bus : Bus) (addr : BusAddr) : Option QueueHandle :=
  if addr < 0 then (bus.clients.find? fun client => addr = client.addr).map Client.queue else none

/-! ## Groups -/

/-- `Bus::resolve(const char*)` for a name that is not null. -/
def resolveName (bus : Bus) (addrName : String) : BusAddr :=
  match bus.groups.find? fun group => group.addrName = some addrName with
  | some i => i.addr
  | none => BusAddrInvalid

/-- `Bus::destination`. -/
def destination (bus : Bus) (addr : BusAddr) : List BusAddr :=
  -- a client's address stands for itself, whether anybody has it or not
  if addr < 0 then [addr]
  else if addr > 0 then
    match bus.groups.find? fun group => addr = group.addr with
    | some i => i.destination
    | none => []
  else []

/-- The unlocked guard of `join(BusAddr)` and of `leave(BusAddr)`. -/
def addrGuard (addr : BusAddr) (client : IBusClient) : Bool :=
  !(decide (addr ≤ BusAddrInvalid) || decide (client.addr ≥ BusAddrInvalid))

/-- First critical section of `join(const char*)`: find the group of that name or make one. -/
def joinLookup (bus : Bus) (addrName : String) : BusAddr × Bus :=
  match bus.groups.find? fun group => group.addrName = some addrName with
  | some i => (i.addr, bus)
  | none =>
    let addr := bus.groupLast + 1
    (addr, { bus with groupLast := addr, groups := ⟨addr, some addrName, []⟩ :: bus.groups })

/-- Critical section of `join(BusAddr)`: an unknown address makes a new group, without a name. -/
def joinSection (bus : Bus) (addr : BusAddr) (client : IBusClient) : Bus :=
  let groups :=
    match bus.groups.find? fun group => addr = group.addr with
    | some _ => bus.groups
    | none => ⟨addr, none, []⟩ :: bus.groups
  { bus with
    groups := updateFirst (fun group => addr = group.addr)
      (fun group => group.addMember client) groups }

/-- First critical section of `leave(const char*)`: the group's address, if there is one. -/
def leaveLookup (bus : Bus) (addrName : String) : Option BusAddr :=
  (bus.groups.find? fun group => group.addrName = some addrName).map Group.addr

/-- Critical section of `leave(BusAddr)`. -/
def leaveSection (bus : Bus) (addr : BusAddr) (client : IBusClient) : Bus :=
  { bus with
    groups := updateFirst (fun group => addr = group.addr)
      (fun group => group.removeMember client) bus.groups }

/-- `Bus::join(BusAddr)`. -/
def joinAddr (bus : Bus) (addr : BusAddr) (client : IBusClient) : Bool × Bus :=
  if addrGuard addr client then (true, joinSection bus addr client) else (false, bus)

/-- `Bus::join(const char*)`, run without interruption; `none` is a null name. -/
def join (bus : Bus) (addrName : Option String) (client : IBusClient) : Bool × Bus :=
  match addrName with
  | none => (false, bus)
  | some name =>
    -- the lock is given back here, and the group is looked up again by its address
    let (addr, bus) := joinLookup bus name
    joinAddr bus addr client

/-- `Bus::leave(BusAddr)`. -/
def leaveAddr (bus : Bus) (addr : BusAddr) (client : IBusClient) : Bus :=
  if addrGuard addr client then leaveSection bus addr client else bus

/-- `Bus::leave(const char*)`, run without interruption. -/
def leave (bus : Bus) (addrName : Option String) (client : IBusClient) : Bus :=
  match addrName with
  | none => bus
  | some name =>
    match leaveLookup bus name with
    | none => bus
    | some addr => leaveAddr bus addr client

/-! ## The next hop of a message -/

/-- What the resolve loop of `sendToNextClient` comes to: the addresses popped without finding a
queue, and then the address that has one, its queue, and the destinations left behind it. -/
structure Resolved where
  skipped : List BusAddr
  found : Option (BusAddr × QueueHandle × List BusAddr)
deriving DecidableEq, Repr

/-- The resolve loop on the destination list read from its back. -/
def resolveLoop (bus : Bus) : List BusAddr → Resolved
  | [] => ⟨[], none⟩
  | addr :: rest =>
    match bus.resolve addr with
    | some queue => ⟨[], some (addr, queue, rest.reverse)⟩
    | none =>
      let hop := resolveLoop bus rest
      { hop with skipped := addr :: hop.skipped }

/-- `do { dest = resolve(back()); pop_back(); } while (!empty() && !dest)`. -/
def nextHop (bus : Bus) (destination : List BusAddr) : Resolved :=
  resolveLoop bus destination.reverse

end Bus

end EspAcDimmer
