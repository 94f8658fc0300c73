import EspAcDimmer.Netio.Receive

/-! # What becomes of the socket

`run` opens a socket and leaves its loop with the socket closed. Two other places close it,
`sendData` and a discovery message that is not sent, and the loop goes on. `recvfrom` fails from
then on, which `run` takes for a long datagram: it never comes back to open another socket.
-/

namespace EspAcDimmer

open Lts SearchTree

variable {rebalance : BinaryTree ClientInfo → BinaryTree ClientInfo} {s s' : UdpSrv} {l : UdpLbl}
  {tr : List (UdpSrv × UdpLbl)}

/-! ## One iteration -/

/-- Too short for an id, or for the message that the id promises. -/
def Datagram.isCut (datagram : Datagram) : Prop :=
  datagram.bytes.length < 4 ∨
    datagram.bytes.take 4 = discoveryIdBytes ∧ datagram.bytes.length < 8

/-- The receive ends `run`. -/
def Received.ends : Received → Prop
  | none => False
  | some datagram => datagram.isCut

namespace UdpSrv

/-- An iteration at this time sends a discovery message. -/
def Due (s : UdpSrv) (currTime : Int) : Prop :=
  currTime - s.discoveryTimepoint ≥ discoveryTimeout

/-- All that an iteration does to the socket, the loop and the time of the last message. -/
theorem receive_cases (rebalance : BinaryTree ClientInfo → BinaryTree ClientInfo) (s : UdpSrv)
    (received : Received) (currTime sended : Int) :
    (received.ends ∧
      s.receive rebalance received currTime sended = (s.recvfrom received).leave) ∨
    (¬ received.ends ∧ ∃ t : UdpSrv, t.sock = s.sock ∧ t.running = s.running ∧
      t.discoveryTimepoint = s.discoveryTimepoint ∧
      s.receive rebalance received currTime sended = t.announce currTime sended) := by
  cases received with
  | none =>
    have hid : ¬ sizeofMsgIdType > Received.len none := by decide
    have hrest : ¬ sizeofDiscoveryMessage > Received.len none - sizeofMsgIdType := by decide
    refine Or.inr ⟨nofun, ?_⟩
    simp only [receive, if_neg hid, if_neg hrest]
    split
    · exact ⟨s.emplace rebalance, rfl, rfl, rfl, rfl⟩
    · exact ⟨s, rfl, rfl, rfl, rfl⟩
  | some datagram =>
    have hid : sizeofMsgIdType > Received.len (some datagram) ↔ datagram.bytes.length < 4 :=
      datagram.gt_len (n := 4) (by decide)
    simp only [receive, Received.ends, Datagram.isCut]
    by_cases hshort : datagram.bytes.length < 4
    · exact Or.inl ⟨Or.inl hshort, if_pos (hid.mpr hshort)⟩
    rw [if_neg (mt hid.mp hshort)]
    have hword := datagram.word_eq (s := s) (by omega)
    have hrest := datagram.gt_rest (by omega)
    by_cases hmsg : datagram.bytes.take 4 = discoveryIdBytes
    · rw [if_pos (hword.mpr hmsg)]
      by_cases hless : datagram.bytes.length < 8
      · exact Or.inl ⟨Or.inr ⟨hmsg, hless⟩, if_pos (hrest.mpr hless)⟩
      · rw [if_neg (mt hrest.mp hless)]
        exact Or.inr ⟨by tauto, (s.recvfrom _).emplace rebalance, rfl, rfl, rfl, rfl⟩
    · rw [if_neg (mt hword.mp hmsg)]
      exact Or.inr ⟨by tauto, s.recvfrom _, rfl, rfl, rfl, rfl⟩

theorem closeSocket_sock : s.closeSocket.sock < 0 := by
  unfold closeSocket
  split
  · assumption
  · exact Int.negSucc_lt_zero 0

/-- A discovery message closes the socket when not all of it is sent. -/
theorem announce_sock_lt_iff (currTime sended : Int) : (s.announce currTime sended).sock < 0 ↔
    s.sock < 0 ∨ s.Due currTime ∧ sended ≠ discoveryMessageLength := by
  unfold announce sendDiscoveryMessage Due
  by_cases hdue : currTime - s.discoveryTimepoint ≥ discoveryTimeout
  · rw [if_pos hdue]
    by_cases hsended : discoveryMessageLength = sended
    · simp [hsended.symm]
    · rw [if_neg hsended]
      exact iff_of_true closeSocket_sock (Or.inr ⟨hdue, Ne.symm hsended⟩)
  · rw [if_neg hdue]
    simp [hdue]

/-! ## Dead servers -/

/-- In the loop of `run` without a socket. -/
def Dead (s : UdpSrv) : Prop := s.running = true ∧ s.sock < 0

/-- In the loop with one. -/
def Live (s : UdpSrv) : Prop := s.running = true ∧ 0 ≤ s.sock

/-- The socket is closed while the loop goes on: by a discovery message of which not everything is
sent, or by data that an endpoint is not sent. -/
def Kills (s : UdpSrv) : UdpLbl → Prop
  | .run _ => False
  | .receive received currTime sended =>
    s.Live ∧ ¬ received.ends ∧ s.Due currTime ∧ sended ≠ discoveryMessageLength
  | .sendData sendto => s.Live ∧ ∃ i, i < (inorder s.clients).length ∧ sendto i < 0

/-- Nothing is received from a closed socket. -/
def ClosedFails (s : UdpSrv) : UdpLbl → Prop
  | .receive (some _) _ _ => 0 ≤ s.sock
  | .receive none _ _ | .run _ | .sendData _ => True

instance (s : UdpSrv) : (l : UdpLbl) → Decidable (ClosedFails s l)
  | .receive (some _) _ _ => inferInstanceAs (Decidable (0 ≤ s.sock))
  | .receive none _ _ | .run _ | .sendData _ => inferInstanceAs (Decidable True)

/-- The loop fails at the first endpoint that is not sent its copy, if there is one. -/
theorem sendLoop_failed_iff (sendto : Nat → Int) (infos : List ClientInfo) (i : Nat) :
    (sendLoop sendto i infos).1 = false ↔ ∃ j, j < infos.length ∧ sendto (i + j) < 0 := by
  induction infos generalizing i with
  | nil => simp [sendLoop]
  | cons info infos ih =>
    simp only [sendLoop]
    split
    · next hi => exact iff_of_true rfl ⟨0, Nat.succ_pos _, hi⟩
    · next hi =>
      rw [ih]
      constructor
      · rintro ⟨j, hj, hsendto⟩
        exact ⟨j + 1, Nat.succ_lt_succ hj, by rwa [← Nat.add_right_comm, Nat.add_assoc] at hsendto⟩
      · rintro ⟨j, hj, hsendto⟩
        cases j with
        | zero => exact absurd hsendto hi
        | succ j => exact ⟨j, Nat.lt_of_succ_lt_succ hj, by rwa [Nat.add_right_comm, Nat.add_assoc]⟩

/-- `sendData` closes the socket when an endpoint is not sent its copy. -/
theorem sendData_sock_lt_iff (sendto : Nat → Int) : (s.sendData sendto).2.2.sock < 0 ↔
    s.sock < 0 ∨ ∃ i, i < (inorder s.clients).length ∧ sendto i < 0 := by
  have hfailed := sendLoop_failed_iff sendto (inorder s.clients) 0
  simp only [Nat.zero_add] at hfailed
  unfold sendData
  by_cases hsock : s.sock < 0
  · simp [hsock]
  rw [if_neg hsock, ← hfailed]
  simp only
  cases (sendLoop sendto 0 (inorder s.clients)).1 with
  | false => simpa using closeSocket_sock
  | true => simp

/-- It never ends the loop of `run`. -/
theorem sendData_running (sendto : Nat → Int) : (s.sendData sendto).2.2.running = s.running := by
  unfold sendData
  split
  · rfl
  · simp only
    split
    · rfl
    · exact closeSocket_running

/-- Outside its loop the server has no socket. -/
def Shut (s : UdpSrv) : Prop := s.running = false → s.sock < 0

/-- Step lemma: the server is dead behind a step if it was dead before or the step killed it. -/
theorem step_dead (hshut : s.Shut) (hclosed : ClosedFails s l)
    (hstep : s.step rebalance l = some s') : (s'.Dead ↔ s.Dead ∨ Kills s l) ∧ s'.Shut := by
  cases l with
  | run sock =>
    simp only [step, Option.ite_none_left_eq_some, Option.some.injEq] at hstep
    rcases hstep with ⟨hrunning, rfl⟩
    simp only [Dead, Kills, Shut, hrunning]
    simp
  | receive received currTime sended =>
    simp only [step, Option.ite_none_right_eq_some, Option.some.injEq] at hstep
    rcases hstep with ⟨hrunning, rfl⟩
    rcases receive_cases rebalance s received currTime sended with
      ⟨hends, heq⟩ | ⟨hends, t, hsock, hrun, htime, heq⟩
    · rw [heq]
      refine ⟨iff_of_false ?_ ?_, fun _ => closeSocket_sock⟩
      · exact fun hdead => Bool.noConfusion hdead.1
      · rintro (hdead | hkills)
        · cases received with
          | none => exact hends
          | some datagram => exact absurd hdead.2 (Int.not_lt.mpr hclosed)
        · exact hkills.2.1 hends
    · have hdue : t.Due currTime ↔ s.Due currTime := by rw [Due, htime, Due]
      rw [heq]
      refine ⟨?_, ?_⟩
      · rw [Dead, announce_running, hrun, announce_sock_lt_iff, hsock, hdue]
        simp only [Dead, Kills, Live, hrunning, hends]
        simp only [true_and, not_false_eq_true]
        constructor
        · rintro (h | h)
          · exact Or.inl h
          · by_cases hsock : s.sock < 0
            · exact Or.inl hsock
            · exact Or.inr ⟨by omega, h⟩
        · tauto
      · intro h
        rw [announce_running, hrun, hrunning] at h
        exact Bool.noConfusion h
  | sendData sendto =>
    obtain rfl := Option.some.inj hstep
    refine ⟨?_, ?_⟩
    · rw [Dead, sendData_running, sendData_sock_lt_iff]
      simp only [Dead, Kills, Live]
      constructor
      · rintro ⟨hrunning, h | h⟩
        · exact Or.inl ⟨hrunning, h⟩
        · by_cases hsock : s.sock < 0
          · exact Or.inl ⟨hrunning, hsock⟩
          · exact Or.inr ⟨⟨hrunning, by omega⟩, h⟩
      · tauto
    · intro h
      rw [sendData_running] at h
      exact (sendData_sock_lt_iff sendto).mpr (Or.inl (hshut h))

/-- Run lemma: a server is dead iff a step has killed it. -/
theorem dead_iff_kills (hrun : Run (step rebalance) {} tr s) (hclosed : EveryStep ClosedFails tr) :
    (s.Dead ↔ ∃ p ∈ tr, Kills p.1 p.2) ∧ s.Shut := by
  induction hrun with
  | nil => exact ⟨by simp [Dead], fun _ => Int.negSucc_lt_zero 0⟩
  | @snoc t t' tr l _ hs ih =>
    rcases everyStep_snoc.mp hclosed with ⟨hpast, hlast⟩
    rcases ih hpast with ⟨hdead, hshut⟩
    rcases step_dead hshut hlast hs with ⟨hdead', hshut'⟩
    refine ⟨?_, hshut'⟩
    rw [hdead', hdead]
    simp [or_and_right, exists_or]

/-- Nothing brings a dead server back. -/
theorem Dead.run {t : UdpSrv} (h : s.Dead) (hshut : s.Shut) (hrun : Run (step rebalance) s tr t)
    (hclosed : EveryStep ClosedFails tr) : t.Dead ∧ t.Shut := by
  refine hrun.invariant (I := fun t => t.Dead ∧ t.Shut) ⟨h, hshut⟩ ?_ hclosed
  intro t l t' ht hl hs
  rcases step_dead ht.2 hl hs with ⟨hdead, hshut'⟩
  exact ⟨hdead.mpr (Or.inl ht.1), hshut'⟩

/-- A dead server sends nothing. -/
theorem Dead.sendData (h : s.Dead) (sendto : Nat → Int) : s.sendData sendto = (false, [], s) := by
  unfold UdpSrv.sendData
  rw [if_pos h.2]

/-! ## Discovery messages -/

end UdpSrv

end EspAcDimmer
