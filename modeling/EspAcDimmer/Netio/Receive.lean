import EspAcDimmer.Netio.UdpSrv

/-! # When a receive is acted on

`udp_srv::run` compares `sizeof` with the `int` that `recvfrom` returned, so the -1 of a failure
counts as a very long datagram: the iteration goes on with what an earlier one left in the buffer
and in the sender's address. Every datagram is handled as it should be.
-/

namespace EspAcDimmer

open Lts

variable {rebalance : BinaryTree ClientInfo → BinaryTree ClientInfo} {s s' : UdpSrv} {l : UdpLbl}

/-- The bytes of `Discovery::ID` in memory. -/
def discoveryIdBytes : List (BitVec 8) :=
  [0x63, 0x0f, 0x5f, 0x04]

/-- A whole discovery message. -/
def Datagram.isDiscovery (datagram : Datagram) : Prop :=
  8 ≤ datagram.bytes.length ∧ datagram.bytes.take 4 = discoveryIdBytes

instance (datagram : Datagram) : Decidable datagram.isDiscovery :=
  inferInstanceAs (Decidable (_ ∧ _))

/-- A failure ends `run` with the socket closed and the clients as they were; a datagram adds its
sender if it is a discovery message, and nobody otherwise. -/
def ActsOn (rebalance : BinaryTree ClientInfo → BinaryTree ClientInfo) (s s' : UdpSrv) :
    Received → Prop
  | none => s'.sock < 0 ∧ s'.running = false ∧ s'.clients = s.clients
  | some datagram => s'.clients =
      if datagram.isDiscovery then
        SearchTree.emplace ClientInfo.lt rebalance s.clients datagram.sender
      else s.clients

/-- The step acts on what it received, if it received. -/
def ActsRight (rebalance : BinaryTree ClientInfo → BinaryTree ClientInfo) (s : UdpSrv)
    (l : UdpLbl) : Prop :=
  ∀ received currTime sended s', l = .receive received currTime sended →
    s.step rebalance l = some s' → ActsOn rebalance s s' received

/-- The label is not that of a failed `recvfrom`. -/
def UdpLbl.succeeds : UdpLbl → Bool
  | .receive none _ _ => false
  | _ => true

def RecvSucceeds (_ : UdpSrv) (l : UdpLbl) : Prop :=
  l.succeeds = true

instance (s : UdpSrv) (l : UdpLbl) : Decidable (RecvSucceeds s l) :=
  inferInstanceAs (Decidable (_ = _))

/-! ## The frame of the helpers -/

@[simp] theorem closeSocket_clients : s.closeSocket.clients = s.clients := by
  unfold UdpSrv.closeSocket
  split <;> rfl

@[simp] theorem closeSocket_running : s.closeSocket.running = s.running := by
  unfold UdpSrv.closeSocket
  split <;> rfl

@[simp] theorem recvfrom_clients (received : Received) :
    (s.recvfrom received).clients = s.clients := by
  cases received <;> rfl

@[simp] theorem recvfrom_running (received : Received) :
    (s.recvfrom received).running = s.running := by
  cases received <;> rfl

/-- A discovery message leaves the clients and the loop alone. -/
theorem sendDiscoveryMessage_frame (sended : Int) :
    (s.sendDiscoveryMessage sended).2.clients = s.clients ∧
      (s.sendDiscoveryMessage sended).2.running = s.running := by
  unfold UdpSrv.sendDiscoveryMessage
  split <;> simp

@[simp] theorem announce_clients (currTime sended : Int) :
    (s.announce currTime sended).clients = s.clients := by
  unfold UdpSrv.announce
  split
  · exact (sendDiscoveryMessage_frame sended).1
  · rfl

@[simp] theorem announce_running (currTime sended : Int) :
    (s.announce currTime sended).running = s.running := by
  unfold UdpSrv.announce
  split
  · exact (sendDiscoveryMessage_frame sended).2
  · rfl

/-! ## Datagrams -/

/-- A datagram is not too short for a comparison with a small size when it is that long. -/
theorem Datagram.gt_len (datagram : Datagram) {n : Nat} (hn : n ≤ bufferSize) :
    BitVec.ofNat 32 n > Received.len (some datagram) ↔ datagram.bytes.length < n := by
  have hsize := datagram.size_le
  simp only [bufferSize] at hn hsize
  simp only [Received.len, gt_iff_lt, BitVec.lt_def, BitVec.toNat_ofNat]
  omega

/-- What is behind the id is too short for a discovery message. -/
theorem Datagram.gt_rest (datagram : Datagram) (hlen : 4 ≤ datagram.bytes.length) :
    sizeofDiscoveryMessage > Received.len (some datagram) - sizeofMsgIdType ↔
      datagram.bytes.length < 8 := by
  have hsize := datagram.size_le
  simp only [bufferSize] at hsize
  have hsizes : sizeofDiscoveryMessage.toNat = 4 ∧ sizeofMsgIdType.toNat = 4 := ⟨rfl, rfl⟩
  simp only [Received.len, gt_iff_lt, BitVec.lt_def, BitVec.toNat_sub, BitVec.toNat_ofNat, hsizes]
  omega

/-- Bit vectors of the same parts are equal part by part. -/
theorem append_eq_append_iff {n m : Nat} {a a' : BitVec n} {b b' : BitVec m} :
    a ++ b = a' ++ b' ↔ a = a' ∧ b = b' := by
  constructor
  · intro h
    have hleft := congrArg (BitVec.extractLsb' m n) h
    have hright := congrArg (BitVec.extractLsb' 0 m) h
    rw [BitVec.extractLsb'_append_eq_left, BitVec.extractLsb'_append_eq_left] at hleft
    rw [BitVec.extractLsb'_append_eq_right, BitVec.extractLsb'_append_eq_right] at hright
    exact ⟨hleft, hright⟩
  · rintro ⟨rfl, rfl⟩
    rfl

/-- The buffer begins with the datagram. -/
theorem Datagram.rxBuffer_eq (datagram : Datagram) {j : Nat} (hj : j < datagram.bytes.length) :
    (s.recvfrom (some datagram)).rxBuffer (Fin.ofNat bufferSize j) = datagram.bytes[j] := by
  have hmod : j % bufferSize = j := Nat.mod_eq_of_lt (Nat.lt_of_lt_of_le hj datagram.size_le)
  simp only [UdpSrv.recvfrom, Fin.ofNat, hmod, dif_pos hj, Fin.getElem_fin]

/-- The message id is that of the datagram, if it is long enough to have one. -/
theorem Datagram.word_eq (datagram : Datagram) (hlen : 4 ≤ datagram.bytes.length) :
    (s.recvfrom (some datagram)).word 0 = discoveryId ↔
      datagram.bytes.take 4 = discoveryIdBytes := by
  have hword : (s.recvfrom (some datagram)).word 0 = datagram.bytes[3] ++ datagram.bytes[2] ++
      datagram.bytes[1] ++ datagram.bytes[0] := by
    simp only [UdpSrv.word, Nat.zero_add]
    rw [datagram.rxBuffer_eq (by omega), datagram.rxBuffer_eq (by omega),
      datagram.rxBuffer_eq (by omega), datagram.rxBuffer_eq (by omega)]
  have hid : discoveryId = 0x04#8 ++ 0x5f#8 ++ 0x0f#8 ++ 0x63#8 := by decide
  have htake : datagram.bytes.take 4 =
      [datagram.bytes[0], datagram.bytes[1], datagram.bytes[2], datagram.bytes[3]] := by
    refine List.ext_getElem (by simp; omega) ?_
    intro j _ hj
    obtain rfl | rfl | rfl | rfl : j = 0 ∨ j = 1 ∨ j = 2 ∨ j = 3 := by
      simp only [List.length_cons, List.length_nil] at hj
      omega
    all_goals simp
  rw [hword, hid, htake, append_eq_append_iff, append_eq_append_iff, append_eq_append_iff]
  simp only [discoveryIdBytes, List.cons.injEq]
  tauto

/-- Step lemma for datagrams: all of them are acted on as they should be. -/
theorem receive_datagram (datagram : Datagram) (currTime sended : Int) :
    ActsOn rebalance s (s.receive rebalance (some datagram) currTime sended) (some datagram) := by
  have hid : sizeofMsgIdType > Received.len (some datagram) ↔ datagram.bytes.length < 4 :=
    datagram.gt_len (n := 4) (by decide)
  simp only [ActsOn, UdpSrv.receive]
  by_cases hshort : datagram.bytes.length < 4
  · -- too short for an id
    have hnot : ¬ datagram.isDiscovery := fun h => by have := h.1; omega
    rw [if_pos (hid.mpr hshort), if_neg hnot]
    simp [UdpSrv.leave]
  · rw [if_neg (fun h => hshort (hid.mp h))]
    have hword := datagram.word_eq (s := s) (by omega)
    have hrest := datagram.gt_rest (by omega)
    by_cases hmsg : datagram.bytes.take 4 = discoveryIdBytes
    · rw [if_pos (hword.mpr hmsg)]
      by_cases hless : datagram.bytes.length < 8
      · -- an id with less than a message behind it
        have hnot : ¬ datagram.isDiscovery := fun h => by have := h.1; omega
        rw [if_pos (hrest.mpr hless), if_neg hnot]
        simp [UdpSrv.leave]
      · have hdisc : datagram.isDiscovery := ⟨by omega, hmsg⟩
        rw [if_neg (fun h => hless (hrest.mp h)), if_pos hdisc, announce_clients]
        rfl
    · have hnot : ¬ datagram.isDiscovery := fun h => hmsg h.2
      rw [if_neg (fun h => hmsg (hword.mp h)), if_neg hnot, announce_clients, recvfrom_clients]

/-- A failure never ends `run`. -/
theorem receive_failure (currTime sended : Int) :
    (s.receive rebalance none currTime sended).running = s.running := by
  have hid : ¬ sizeofMsgIdType > Received.len none := by decide
  have hrest : ¬ sizeofDiscoveryMessage > Received.len none - sizeofMsgIdType := by decide
  -- neither length check stops -1, so only the message id decides what follows
  simp only [UdpSrv.receive, if_neg hid, if_neg hrest]
  split <;> rw [announce_running] <;> rfl

/-- Step lemma: a failed receive is the only step that does not act as it should. -/
theorem actsRight_iff (hstep : s.step rebalance l = some s') :
    ActsRight rebalance s l ↔ RecvSucceeds s l := by
  cases l with
  | receive received currTime sended =>
    simp only [UdpSrv.step, Option.ite_none_right_eq_some, Option.some.injEq] at hstep
    rcases hstep with ⟨hrunning, rfl⟩
    cases received with
    | none =>
      simp only [RecvSucceeds, UdpLbl.succeeds, Bool.false_eq_true, iff_false]
      intro h
      obtain ⟨-, hstopped, -⟩ := h none currTime sended (s.receive rebalance none currTime sended)
        rfl (by simp [UdpSrv.step, hrunning])
      rw [receive_failure, hrunning] at hstopped
      cases hstopped
    | some datagram =>
      simp only [RecvSucceeds, UdpLbl.succeeds, iff_true]
      rintro received currTime sended s' ⟨⟩ hs'
      obtain rfl : s.receive rebalance (some datagram) currTime sended = s' := by
        simpa [UdpSrv.step, hrunning] using hs'
      exact receive_datagram datagram currTime sended
  | _ => simp [ActsRight, RecvSucceeds, UdpLbl.succeeds]

/-- From any state, every iteration acts on what it received, and on nothing else, iff no
`recvfrom` fails. -/
theorem receives_right_iff {s₀ : UdpSrv} {tr : List (UdpSrv × UdpLbl)}
    (hrun : Run (UdpSrv.step rebalance) s₀ tr s) :
    EveryStep (ActsRight rebalance) tr ↔ EveryStep RecvSucceeds tr :=
  hrun.everyStep_congr fun _ _ _ => actsRight_iff

/-- A discovery message, and the first three bytes of one from somebody else. -/
def greeting : Datagram :=
  ⟨discoveryIdBytes ++ [1, 0, 0, 0], by decide, ⟨10, 1000⟩⟩

def fragment : Datagram :=
  ⟨[0x63, 0x0f, 0x5f], by decide, ⟨20, 2000⟩⟩

/-- The server greets a client and gives up at the fragment. -/
def greetingThenFragment : List UdpLbl :=
  [.run 3, .receive (some greeting) 0 8, .receive (some fragment) 0 8]

theorem greetingThenFragment_enabled :
    (exec (UdpSrv.step id) {} greetingThenFragment).isSome = true := by
  decide +kernel

/-- A greeting and a fragment, without a failure. -/
theorem receives_right_iff_greeting :
    ∃ tr s, Run (UdpSrv.step id) {} tr s ∧ tr.map Prod.snd = greetingThenFragment ∧
      SearchTree.inorder s.clients = [⟨10, 1000⟩] ∧ EveryStep (ActsRight id) tr := by
  have hrun := run_get (UdpSrv.step id) {} greetingThenFragment greetingThenFragment_enabled
  exact ⟨_, _, hrun, rfl, by decide +kernel, (receives_right_iff hrun).mpr (by decide +kernel)⟩

/-- The server greets a client, and the next receive fails. -/
def greetingThenFailure : List UdpLbl :=
  [.run 3, .receive (some greeting) 0 8, .receive none 0 8]

theorem greetingThenFailure_enabled :
    (exec (UdpSrv.step id) {} greetingThenFailure).isSome = true := by
  decide +kernel

/-- A failed receive is taken for the discovery message before it: the server goes on, with the
socket open. -/
theorem failure_acted_on :
    ∃ tr s, Run (UdpSrv.step id) {} tr s ∧ tr.map Prod.snd = greetingThenFailure ∧
      s.running = true ∧ s.sock = 3 ∧ ¬ EveryStep (ActsRight id) tr := by
  have hrun := run_get (UdpSrv.step id) {} greetingThenFailure greetingThenFailure_enabled
  refine ⟨_, _, hrun, rfl, by decide +kernel, by decide +kernel, ?_⟩
  intro h
  have hsucceeds := (hrun.everyStep_congr fun _ _ _ => actsRight_iff).mp h
  exact absurd hsucceeds (by decide +kernel)

end EspAcDimmer
