import EspAcDimmer.Netio.Receive

/-! # Who gets the data

`g_clients` is to hold every endpoint that announced itself once, and `sendData` is to send it one
copy. Both need `ClientInfo::operator<` to be a strict total order. It compares addresses or ports,
so it is one exactly among endpoints of which none has the smaller address and the greater port of
another: of two such crossed endpoints each is less than the other, and where the search for one of
them ends depends on the shape of the tree.
-/

namespace EspAcDimmer

open Lts SearchTree

variable {rebalance : BinaryTree ClientInfo → BinaryTree ClientInfo} {s s' : UdpSrv} {l : UdpLbl}
  {E : ClientInfo → Prop}

/-- Endpoints of which none has the smaller address and the greater port of another. -/
def Uncrossed (E : ClientInfo → Prop) : Prop :=
  ∀ a b, E a → E b → ¬ (a.addr < b.addr ∧ b.port < a.port)

/-- The endpoint a step announces: the sender of a discovery message. -/
def UdpLbl.announces : UdpLbl → Option ClientInfo
  | .receive (some datagram) _ _ => if datagram.isDiscovery then some datagram.sender else none
  | _ => none

/-- The endpoints that announced themselves in a run, in order and with repetitions. -/
def announced (tr : List (UdpSrv × UdpLbl)) : List ClientInfo :=
  tr.filterMap fun p => p.2.announces

/-- The set holds the given endpoints once each, and no other. -/
def HeldOnce (s : UdpSrv) (infos : List ClientInfo) : Prop :=
  ∀ info, (inorder s.clients).count info = if info ∈ infos then 1 else 0

/-- With an open socket that takes everything, the data goes to the given endpoints once each, and
to no other. -/
def SentOnce (s : UdpSrv) (infos : List ClientInfo) : Prop :=
  ∀ sendto : Nat → Int, 0 ≤ s.sock → (∀ i, 0 ≤ sendto i) →
    (s.sendData sendto).1 = true ∧
      ∀ info, (s.sendData sendto).2.1.count info = if info ∈ infos then 1 else 0

/-! ## The order -/

/-- Two endpoints are each less than the other exactly if they are crossed. -/
theorem lt_both_iff {a b : ClientInfo} : (a.lt b ∧ b.lt a) ↔
    (a.addr < b.addr ∧ b.port < a.port) ∨ (b.addr < a.addr ∧ a.port < b.port) := by
  simp only [ClientInfo.lt, BitVec.lt_def]
  omega

/-- The order is a strict one exactly among uncrossed endpoints. -/
theorem strictOn_iff : StrictOn ClientInfo.lt E ↔ Uncrossed E := by
  constructor
  · intro h a b ha hb hcrossed
    rcases lt_both_iff.mpr (Or.inl hcrossed) with ⟨hab, hba⟩
    exact h.asymm a b ha hb hab hba
  · intro h
    refine ⟨fun a _ => ?_, fun a b ha hb hab hba => ?_, fun a b c ha hb hc hab hbc => ?_,
      fun a b _ _ hab hba => ?_⟩
    · simp [ClientInfo.lt]
    · rcases lt_both_iff.mp ⟨hab, hba⟩ with hcrossed | hcrossed
      · exact h a b ha hb hcrossed
      · exact h b a hb ha hcrossed
    · -- uncrossed endpoints are compared in both fields the same way
      have h₁ := h a b ha hb
      have h₂ := h b a hb ha
      have h₃ := h b c hb hc
      have h₄ := h c b hc hb
      simp only [ClientInfo.lt, BitVec.lt_def] at *
      omega
    · simp only [ClientInfo.lt, BitVec.lt_def, not_or, Nat.not_lt] at hab hba
      rcases a with ⟨addr, port⟩
      rcases b with ⟨addr', port'⟩
      simp only at hab hba
      rw [BitVec.eq_of_toNat_eq (Nat.le_antisymm hba.1 hab.1),
        BitVec.eq_of_toNat_eq (Nat.le_antisymm hba.2 hab.2)]

/-! ## The set along a run -/

/-- What a step does to the set, if its receive does not fail. -/
theorem clients_of_step (hok : RecvSucceeds s l) (hstep : s.step rebalance l = some s') :
    s'.clients = match l.announces with
      | some info => emplace ClientInfo.lt rebalance s.clients info
      | none => s.clients := by
  cases l with
  | run sock =>
    simp only [UdpSrv.step, Option.ite_none_left_eq_some, Option.some.injEq] at hstep
    rcases hstep with ⟨-, rfl⟩
    rfl
  | receive received currTime sended =>
    cases received with
    | none => simp [RecvSucceeds, UdpLbl.succeeds] at hok
    | some datagram =>
      have hacts := (actsRight_iff hstep).mpr hok (some datagram) currTime sended s' rfl hstep
      simp only [ActsOn] at hacts
      rw [hacts]
      by_cases h : datagram.isDiscovery <;> simp [UdpLbl.announces, h]
  | sendData sendto =>
    simp only [UdpSrv.step, Option.some.injEq] at hstep
    rw [← hstep]
    simp only [UdpSrv.sendData, UdpLbl.announces]
    split
    · rfl
    · simp only
      split <;> simp

/-- The set is sorted and holds what was announced. -/
structure Listed (tr : List (UdpSrv × UdpLbl)) (s : UdpSrv) : Prop where
  sorted : (inorder s.clients).Pairwise ClientInfo.lt
  mem : ∀ info, info ∈ inorder s.clients ↔ info ∈ announced tr

/-- Run lemma: among uncrossed endpoints the set stays sorted. -/
theorem Listed.run (hE : StrictOn ClientInfo.lt E)
    (hrebalance : ∀ t, inorder (rebalance t) = inorder t) {tr : List (UdpSrv × UdpLbl)}
    (hrun : Run (UdpSrv.step rebalance) {} tr s) (hok : EveryStep RecvSucceeds tr)
    (hfrom : ∀ info ∈ announced tr, E info) : Listed tr s := by
  induction hrun with
  | nil => exact ⟨by simp [inorder], by simp [inorder, announced]⟩
  | @snoc s s' tr l _ hstep ih =>
    rcases everyStep_snoc.mp hok with ⟨hpast, hlast⟩
    have happend : announced (tr ++ [(s, l)]) = announced tr ++ l.announces.toList := by
      simp only [announced, List.filterMap_append]
      cases h : l.announces <;> simp [h]
    rw [happend] at hfrom
    obtain ⟨hsorted, hmem⟩ := ih hpast fun info h => hfrom info (List.mem_append_left _ h)
    have hclients := clients_of_step hlast hstep
    cases hl : l.announces with
    | none =>
      simp only [hl] at hclients
      refine ⟨by rw [hclients]; exact hsorted, ?_⟩
      intro info
      rw [hclients, happend, hl]
      simp [hmem]
    | some info =>
      simp only [hl] at hclients
      have hin : E info := hfrom info (by simp [hl])
      obtain ⟨hsorted', hmem'⟩ := emplace_spec hE hrebalance hin
        (fun x hx => hfrom x (List.mem_append_left _ ((hmem x).mp hx))) hsorted
      refine ⟨by rw [hclients]; exact hsorted', ?_⟩
      intro x
      rw [hclients, hmem', happend, hl, hmem]
      simp [or_comm]

/-- A sorted set holds nobody twice. -/
theorem Listed.heldOnce {tr : List (UdpSrv × UdpLbl)} (h : Listed tr s)
    (hE : StrictOn ClientInfo.lt E) (hfrom : ∀ info ∈ announced tr, E info) :
    HeldOnce s (announced tr) := by
  intro info
  have hnodup : (inorder s.clients).Nodup :=
    hE.nodup (fun x hx => hfrom x ((h.mem x).mp hx)) h.sorted
  split
  · next hin => exact List.count_eq_one_of_mem hnodup ((h.mem info).mpr hin)
  · next hout => exact List.count_eq_zero.mpr fun hin => hout ((h.mem info).mp hin)

/-- When nothing fails, everybody is sent a copy. -/
theorem sendLoop_all {sendto : Nat → Int} (hsendto : ∀ i, 0 ≤ sendto i) :
    ∀ (infos : List ClientInfo) (i : Nat), UdpSrv.sendLoop sendto i infos = (true, infos)
  | [], _ => rfl
  | info :: infos, i => by
    have hi : ¬ sendto i < 0 := by have := hsendto i; omega
    simp only [UdpSrv.sendLoop, if_neg hi, sendLoop_all hsendto infos (i + 1)]

/-- Who is held once is sent one copy. -/
theorem HeldOnce.sentOnce {infos : List ClientInfo} (h : HeldOnce s infos) : SentOnce s infos := by
  intro sendto hsock hsendto
  have hopen : ¬ s.sock < 0 := by omega
  simp only [UdpSrv.sendData, if_neg hopen, sendLoop_all hsendto]
  exact ⟨trivial, h⟩

/-! ## Crossed endpoints -/

/-- The right rotation at the root. -/
def rotateRight : BinaryTree ClientInfo → BinaryTree ClientInfo
  | .node x (.node y l m) r => .node y l (.node x m r)
  | t => t

/-- A rotation keeps the order. -/
theorem inorder_rotateRight (t : BinaryTree ClientInfo) : inorder (rotateRight t) = inorder t := by
  unfold rotateRight
  split <;> simp [inorder]

/-- A discovery message from an endpoint. -/
def discoveryFrom (info : ClientInfo) : Datagram :=
  ⟨discoveryIdBytes ++ [0, 0, 0, 0], by decide, info⟩

/-- The server goes on after a discovery message. -/
theorem discovery_goes_on (info : ClientInfo) (hrunning : s.running = true) :
    (s.receive rebalance (some (discoveryFrom info)) 0 8).running = true := by
  have hlen : Received.len (some (discoveryFrom info)) = 8 := rfl
  have hword := (discoveryFrom info).word_eq (s := s) (by simp [discoveryFrom, discoveryIdBytes])
  have hid : ¬ sizeofMsgIdType > 8 := by decide
  have hrest : ¬ sizeofDiscoveryMessage > 8 - sizeofMsgIdType := by decide
  simp only [UdpSrv.receive, hlen, if_neg hid, if_pos (hword.mpr rfl), if_neg hrest,
    announce_running]
  simp [UdpSrv.emplace, hrunning]

/-- The step of a discovery message. -/
def greet (info : ClientInfo) : UdpLbl :=
  .receive (some (discoveryFrom info)) 0 8

@[simp] theorem greet_announces (info : ClientInfo) : (greet info).announces = some info := by
  have hdiscovery : (discoveryFrom info).isDiscovery := by
    simp [Datagram.isDiscovery, discoveryFrom, discoveryIdBytes]
  simp only [greet, UdpLbl.announces, if_pos hdiscovery]
  rfl

theorem greet_succeeds (info : ClientInfo) : RecvSucceeds s (greet info) :=
  rfl

/-- The sender of a discovery message goes into the set, and the server goes on. -/
theorem greet_step (info : ClientInfo) (hrunning : s.running = true) :
    ∃ s', s.step rebalance (greet info) = some s' ∧ s'.running = true ∧
      s'.clients = emplace ClientInfo.lt rebalance s.clients info := by
  have hstep : s.step rebalance (greet info) =
      some (s.receive rebalance (some (discoveryFrom info)) 0 8) := by
    simp [greet, UdpSrv.step, hrunning]
  have hclients := clients_of_step (greet_succeeds info) hstep
  rw [greet_announces] at hclients
  exact ⟨_, hstep, discovery_goes_on info hrunning, hclients⟩

/-- Two crossed endpoints can be held more than once. -/
theorem crossed_held_twice {a b : ClientInfo} (hab : a.lt b) (hba : b.lt a) :
    ∃ tr s, Run (UdpSrv.step rotateRight) {} tr s ∧ EveryStep RecvSucceeds tr ∧
      announced tr = [a, b, a] ∧ inorder s.clients = [a, b, a] := by
  have hopen : UdpSrv.step rotateRight {} (.run 3) = some { sock := 3, running := true } := rfl
  rcases greet_step (s := { sock := 3, running := true }) a rfl with ⟨s₁, hs₁, hr₁, hc₁⟩
  rcases greet_step b hr₁ with ⟨s₂, hs₂, hr₂, hc₂⟩
  rcases greet_step a hr₂ with ⟨s₃, hs₃, -, hc₃⟩
  have hirrefl : ∀ info : ClientInfo, ¬ info.lt info := by simp [ClientInfo.lt]
  refine ⟨_, s₃, ((((Run.nil.snoc hopen).snoc hs₁).snoc hs₂).snoc hs₃), ?_, ?_, ?_⟩
  · simp [RecvSucceeds, UdpLbl.succeeds, greet, EveryStep]
  · have hrun : (UdpLbl.run 3).announces = none := rfl
    simp [announced, hrun]
  · -- the rotation puts `b` above `a`, and the search for `a` passes it on the left
    rw [hc₃, hc₂, hc₁]
    simp [emplace, insertUnique, rotateRight, inorder, hab, hba]

/-- Among the endpoints of `E`, `operator<` is a strict weak ordering that tells all of them apart
iff no two of them are crossed; and so far, and no further, every run without failed receives
holds each endpoint that announced itself once and sends it the data once, however the set
rebalances its tree. -/
theorem clients_held_once_iff (E : ClientInfo → Prop) :
    (StrictOn ClientInfo.lt E ↔ Uncrossed E) ∧
      ((∀ rebalance : BinaryTree ClientInfo → BinaryTree ClientInfo,
        (∀ t, inorder (rebalance t) = inorder t) →
        ∀ tr s, Run (UdpSrv.step rebalance) {} tr s → EveryStep RecvSucceeds tr →
          (∀ info ∈ announced tr, E info) →
          HeldOnce s (announced tr) ∧ SentOnce s (announced tr)) ↔ Uncrossed E) := by
  refine ⟨strictOn_iff, ?_, ?_⟩
  · intro h a b ha hb hcrossed
    -- a crossed pair has a run that stores one of the two twice
    rcases lt_both_iff.mpr (Or.inl hcrossed) with ⟨hab, hba⟩
    rcases crossed_held_twice hab hba with ⟨tr, s, hrun, hok, hann, hclients⟩
    rcases h rotateRight inorder_rotateRight tr s hrun hok (by simp [hann, ha, hb]) with ⟨hheld, -⟩
    have hcount := hheld a
    rw [hclients, hann, if_pos (by simp), List.count_cons_self] at hcount
    have hmem : a ∈ [b, a] := by simp
    have := List.count_pos_iff.mpr hmem
    omega
  · intro h
    have hE := strictOn_iff.mpr h
    intro rebalance hrebalance tr s hrun hok hfrom
    have hheld := (Listed.run hE hrebalance hrun hok hfrom).heldOnce hE hfrom
    exact ⟨hheld, hheld.sentOnce⟩

/-- What a red-black tree does with three keys that came in from right to left. -/
def rotateChain : BinaryTree ClientInfo → BinaryTree ClientInfo
  | .node x (.node y (.node z .nil .nil) .nil) .nil =>
    .node y (.node z .nil .nil) (.node x .nil .nil)
  | t => t

/-- Three endpoints announce themselves, and the first of them once more. -/
def threePeers : List UdpLbl :=
  [.run 3, greet ⟨2, 1⟩, greet ⟨1, 2⟩, greet ⟨0, 0⟩, greet ⟨2, 1⟩]

theorem threePeers_enabled :
    (exec (UdpSrv.step rotateChain) {} threePeers).isSome = true := by
  decide +kernel

/-- `operator<` puts each of two crossed endpoints before the other, and the peer that announced
itself again gets every payload twice. -/
theorem crossed_peer_sent_twice :
    ClientInfo.lt ⟨2, 1⟩ ⟨1, 2⟩ ∧ ClientInfo.lt ⟨1, 2⟩ ⟨2, 1⟩ ∧
    ∃ tr s, Run (UdpSrv.step rotateChain) {} tr s ∧ tr.map Prod.snd = threePeers ∧
      EveryStep RecvSucceeds tr ∧
      inorder s.clients = [⟨0, 0⟩, ⟨2, 1⟩, ⟨1, 2⟩, ⟨2, 1⟩] ∧
      (s.sendData fun _ => 0).2.1 = [⟨0, 0⟩, ⟨2, 1⟩, ⟨1, 2⟩, ⟨2, 1⟩] ∧
      ¬ HeldOnce s (announced tr) := by
  have hrun := run_get (UdpSrv.step rotateChain) {} threePeers threePeers_enabled
  refine ⟨by decide, by decide, _, _, hrun, rfl, by decide +kernel, by decide +kernel,
    by decide +kernel, fun h => ?_⟩
  exact absurd (h ⟨2, 1⟩) (by decide +kernel)

end EspAcDimmer
