import EspAcDimmer.Lib.Run
import EspAcDimmer.Lib.SearchTree

/-! # The discovery server

`UdpSrv.cpp`: `udp_srv::run` step by step, and `udp_srv::sendData`. What the sockets and the clock
answer comes with the label of a step. `int` and `size_t` have 32 bits, and bytes are in
little-endian order.

`g_clients` is a `std::set`: a search tree that compares keys with `ClientInfo::operator<` only. How
it is rebalanced is a parameter.
-/

namespace EspAcDimmer

/-- `ClientInfo`, the key type of `g_clients`; also what is kept of a `sockaddr_in`. -/
structure ClientInfo where
  addr : BitVec 32
  port : BitVec 16
deriving DecidableEq, Repr

/-- `ClientInfo::operator<`. -/
def ClientInfo.lt (client info : ClientInfo) : Prop :=
  client.addr < info.addr ∨ client.port < info.port

instance : DecidableRel ClientInfo.lt := fun client info =>
  inferInstanceAs (Decidable (client.addr < info.addr ∨ client.port < info.port))

/-- `sizeof(BufferType)`. -/
abbrev bufferSize : Nat := 512

/-- `messages::Discovery::ID`. -/
def discoveryId : BitVec 32 := 0x045f0f63

/-- `sizeof(MsgIdType)`, a `size_t`. -/
def sizeofMsgIdType : BitVec 32 := 4

/-- `sizeof(DiscoveryMessage)`, a `size_t`. -/
def sizeofDiscoveryMessage : BitVec 32 := 4

/-- What `messages::create` writes for a discovery message: the id and `devId`. It fits the
buffer, so `create` never returns 0 here. -/
def discoveryMessageLength : Int := 8

/-- `DISCOVERY_MESSAGE_TIMEOUT_SEC`, in the ticks of `steady_clock`. -/
def discoveryTimeout : Int := 5 * 1000000000

/-- What `recvfrom` can put into a buffer of 512 bytes. -/
structure Datagram where
  bytes : List (BitVec 8)
  size_le : bytes.length ≤ bufferSize
  sender : ClientInfo
deriving DecidableEq

/-- A result of `recvfrom`; `none` is -1. -/
abbrev Received := Option Datagram

/-- The returned `len`. -/
def Received.len : Received → BitVec 32
  | none => -1
  | some datagram => BitVec.ofNat 32 datagram.bytes.length

/-- The globals of `UdpSrv.cpp`, `sourceAddr` of `run`, and whether `run` is in its loop. -/
structure UdpSrv where
  sock : Int := -1
  rxBuffer : Fin bufferSize → BitVec 8 := fun _ => 0
  sourceAddr : ClientInfo := ⟨0, 0⟩
  clients : BinaryTree ClientInfo := .nil
  discoveryTimepoint : Int := 0
  running : Bool := false

namespace UdpSrv

def closeSocket (s : UdpSrv) : UdpSrv :=
  if s.sock < 0 then s else { s with sock := -1 }

/-- The effect of `recvfrom` on its arguments: a failure has none, a datagram leaves what lies
behind it in the buffer. -/
def recvfrom (s : UdpSrv) : Received → UdpSrv
  | none => s
  | some datagram =>
    { s with
      rxBuffer := fun i =>
        if h : (i : Nat) < datagram.bytes.length then datagram.bytes[i] else s.rxBuffer i
      sourceAddr := datagram.sender }

/-- The `uint32_t` at offset `i` of the buffer. -/
def word (s : UdpSrv) (i : Nat) : BitVec 32 :=
  let byte j := s.rxBuffer (Fin.ofNat bufferSize (i + j))
  byte 3 ++ byte 2 ++ byte 1 ++ byte 0

/-- `sendDiscoveryMessage`, given what `sendto` returns. -/
def sendDiscoveryMessage (s : UdpSrv) (sended : Int) : Bool × UdpSrv :=
  if discoveryMessageLength = sended then (true, s) else (false, s.closeSocket)

/-- The end of an iteration: a discovery message is sent when it is time. -/
def announce (s : UdpSrv) (currTime sended : Int) : UdpSrv :=
  if currTime - s.discoveryTimepoint ≥ discoveryTimeout then
    { (s.sendDiscoveryMessage sended).2 with discoveryTimepoint := currTime }
  else s

/-- `close_socket(); return;` -/
def leave (s : UdpSrv) : UdpSrv :=
  { s.closeSocket with running := false }

section Run

variable (rebalance : BinaryTree ClientInfo → BinaryTree ClientInfo)

/-- `g_clients.emplace(...)`. -/
def emplace (s : UdpSrv) : UdpSrv :=
  { s with clients := SearchTree.emplace ClientInfo.lt rebalance s.clients s.sourceAddr }

/-- One iteration of the loop of `run`. Both comparisons are of `size_t` with `int`, so `len` is
taken as unsigned. -/
def receive (s : UdpSrv) (received : Received) (currTime sended : Int) : UdpSrv :=
  let s := s.recvfrom received
  let len := received.len
  if sizeofMsgIdType > len then s.leave  -- "recvfrom failed"
  else
    let len := len - sizeofMsgIdType
    -- `msgId` refers to the buffer, whatever of it this datagram filled
    if s.word 0 = discoveryId then
      if sizeofDiscoveryMessage > len then s.leave
      else (s.emplace rebalance).announce currTime sended
    else s.announce currTime sended

end Run

/-- The loop of `sendData`: `sendto i` is what its `i`th call of `sendto` returns. The endpoints
are those that were sent to. -/
def sendLoop (sendto : Nat → Int) : Nat → List ClientInfo → Bool × List ClientInfo
  | _, [] => (true, [])
  | i, info :: infos =>
    -- the endpoints behind a failed `sendto` get nothing
    if sendto i < 0 then (false, [])
    else
      let (ok, sent) := sendLoop sendto (i + 1) infos
      (ok, info :: sent)

/-- `sendData`: what it returns, the endpoints it sent the data to, and the state left. -/
def sendData (s : UdpSrv) (sendto : Nat → Int) : Bool × List ClientInfo × UdpSrv :=
  if s.sock < 0 then (false, [], s)
  else
    let (ok, sent) := sendLoop sendto 0 (SearchTree.inorder s.clients)
    (ok, sent, if ok then s else s.closeSocket)

end UdpSrv

inductive UdpLbl where
  /-- `run` is called, and `socket` returns this. -/
  | run (sock : Int)
  | receive (received : Received) (currTime sended : Int)
  | sendData (sendto : Nat → Int)

/-- `run` is called again after it has returned; `sendData` is another task's. -/
def UdpSrv.step (rebalance : BinaryTree ClientInfo → BinaryTree ClientInfo) (s : UdpSrv) :
    UdpLbl → Option UdpSrv
  | .run sock => if s.running then none else some { s with sock := sock, running := sock ≥ 0 }
  | .receive received currTime sended =>
    if s.running then some (s.receive rebalance received currTime sended) else none
  | .sendData sendto => some (s.sendData sendto).2.2

end EspAcDimmer
