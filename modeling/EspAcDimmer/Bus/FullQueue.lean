import EspAcDimmer.Bus.Delivery

/-! # What a full queue costs

In runs without destructors every queue in the client table is live, and `sendToNextClient` passes
a member over for one of two reasons: its address does not resolve, or its queue is full. In the
second case the message is destroyed with the destinations it still has. All members are accounted
for exactly as long as it has none.
-/

namespace EspAcDimmer

open Function StdList Lts
open Relay (Place Parcel load received missedAt leftOut settled)

variable {Cmd : Type} {s s' : St Cmd} {l : Lbl Cmd}

/-- The destinations that the step destroys without having tried them: those behind a member whose
queue is full. -/
def St.cutOff (s : St Cmd) : Lbl Cmd → List BusAddr
  | .sendNext t =>
    match (s.task t).inHand with
    | none => []
    | some (_, m) =>
      match (s.bus.nextHop m.destination).found with
      | none => []
      | some (_, q, rest) =>
        match s.queue q with
        | none => []
        | some slots => if slots.length < messageQueueLength then [] else rest
  | _ => []

/-- The queue of the first reachable destination has room, or no destination comes behind it. -/
def CutsNobodyOff (s : St Cmd) (l : Lbl Cmd) : Prop :=
  s.cutOff l = []

instance (s : St Cmd) (l : Lbl Cmd) : Decidable (CutsNobodyOff s l) :=
  inferInstanceAs (Decidable (_ = _))

/-- The steps of `~IBusClient`. -/
def Lbl.destroys : Lbl Cmd → Bool
  | .destroy _ _ | .drain _ | .deleteQueue _ => true
  | _ => false

def NoDestructor (_ : St Cmd) (l : Lbl Cmd) : Prop :=
  l.destroys = false

instance (s : St Cmd) (l : Lbl Cmd) : Decidable (NoDestructor s l) :=
  inferInstanceAs (Decidable (_ = _))

/-- Every message is in one place at most, and every destination of its snapshot has received it,
was tried and missed, is the one whose queue holds it, or is still on its list: each exactly as
often as it stands in the snapshot. -/
structure Accounted (s : St Cmd) : Prop where
  one_place : ∀ pl pl' p p', p ∈ s.relay.held pl → p' ∈ s.relay.held pl' →
    p.serial = p'.serial → pl = pl' ∧ p = p'
  carried : ∀ n stops pl p, .sent n stops ∈ s.log → p ∈ s.relay.held pl → p.serial = n →
    stops.Perm (load pl p ++ (received n s.log ++ missedAt n s.log))
  ended : ∀ n stops, .sent n stops ∈ s.log → (∀ pl, ∀ p ∈ s.relay.held pl, p.serial ≠ n) →
    stops.Perm (received n s.log ++ missedAt n s.log)

/-- A step passes a member over only when its address does not resolve or its queue is full. -/
def MissesForCause (s : St Cmd) (l : Lbl Cmd) : Prop :=
  ∀ s', step s l = some s' → ∀ a why n, .missed a why n ∈ s'.log.drop s.log.length →
    s.bus.resolve a = none ∨
      ∃ q slots, s.bus.resolve a = some q ∧ s.queue q = some slots ∧
        messageQueueLength ≤ slots.length

/-- Without destructors a member is passed over only for its address or its queue. -/
theorem missesForCause (hl : NoDestructor s l) : MissesForCause s l := by
  intro s' hstep a why n hmem
  rcases missed_new hstep hmem with ⟨_, _, _, -, -, -, -, ⟨-, hr⟩ |
    ⟨-, q, _, slots, hfound, hslots, hfull⟩⟩ | ⟨t, _, _, _, _, rfl, -⟩
  · exact Or.inl hr
  · exact Or.inr ⟨q, slots, (Bus.nextHop_some hfound).2, hslots, hfull⟩
  · simp [NoDestructor, Lbl.destroys] at hl

/-- What a run without destructors keeps as long as no full queue cuts anybody off. -/
structure QueueInv (s : St Cmd) : Prop where
  sound : Sound s
  live : ∀ {e}, e ∈ s.bus.clients → (s.queue e.queue).isSome = true
  ledger : Ledger s
  whole : ∀ {rest n}, .retired rest n ∈ s.log → rest = []

theorem QueueInv.init : QueueInv (St.init Cmd) :=
  ⟨Sound.init, by simp [St.init], Ledger.init, by simp [St.init]⟩

theorem deletesEmpty_of_noDestructor (hl : NoDestructor s l) : DeletesEmpty s l := by
  rintro t c h slots rfl
  simp [NoDestructor, Lbl.destroys] at hl

/-- Without destructors every entry keeps its queue. -/
theorem QueueInv.live_preserved (h : QueueInv s) (hl : NoDestructor s l)
    (hstep : step s l = some s') {e : Client} (he : e ∈ s'.bus.clients) :
    (s'.queue e.queue).isSome = true := by
  have hconnect : ∀ {s₁ : St Cmd} {c : ClientId}, Sound s₁ →
      (∀ e ∈ s₁.bus.clients, (s₁.queue e.queue).isSome = true) →
      ∀ e ∈ (s₁.connect c).bus.clients, (s₁.queue e.queue).isSome = true := by
    intro s₁ c hs hlive e he
    rcases s₁.connect_cases c with ⟨-, heq⟩ | ⟨q, e', -, -, -, heq⟩ | ⟨q, hq, -, heq⟩ <;>
      rw [heq] at he
    · exact hlive e he
    · exact hlive e he
    · rcases List.mem_cons.mp he with rfl | he
      · exact hs.queue_live hq
      · exact hlive e he
  cases tableMove_of_fires (fires_of_step hstep) with
  | same hsame =>
    rw [hsame.clients] at he
    rw [hsame.live]
    exact h.live he
  | @created c q halive hnone hfree =>
    refine hconnect (h.sound.createQueue halive hnone hfree) ?_ e he
    intro e he
    by_cases hq : e.queue = q
    · simp [hq]
    · simpa [hq] using h.live he
  | connect => exact hconnect h.sound (fun e he => h.live he) e he
  | @disconnect c _ =>
    rcases s.disconnect_cases c with ⟨-, heq⟩ | ⟨q, -, heq⟩ <;> rw [heq] at he
    · exact h.live he
    · exact h.live (mem_of_mem_removeIf he)
  | destroy => simp [NoDestructor, Lbl.destroys] at hl
  | deleted => simp [NoDestructor, Lbl.destroys] at hl

/-- Step lemma: a step that cuts nobody off destroys no message that still has destinations. -/
theorem QueueInv.preserved (h : QueueInv s) (hl : NoDestructor s l) (hcut : CutsNobodyOff s l)
    (hstep : step s l = some s') : QueueInv s' := by
  refine ⟨h.sound.preserved hstep, fun he => h.live_preserved hl hstep he,
    h.ledger.preserved (deletesEmpty_of_noDestructor hl) hstep, fun {rest n} hmem => ?_⟩
  rcases retired_cases hstep hmem with hmem | hnil | ⟨t, stop, m, a, q, left, rfl, hhand, -, hfound,
    ⟨hdead, -⟩ | ⟨slots, hslots, hfull, rfl⟩⟩
  · exact h.whole hmem
  · exact hnil
  · -- no queue in the table has been deleted
    have hlive := h.live (mem_clients_of_resolve (Bus.nextHop_some hfound).2)
    simp [hdead] at hlive
  · simpa [CutsNobodyOff, St.cutOff, hhand, hfound, hslots, Nat.not_lt.mpr hfull] using hcut

/-- What a run keeps says where every member stands. -/
theorem QueueInv.accounted (h : QueueInv s) : Accounted s := by
  have hsettled : ∀ n, (settled n s.log).Perm (received n s.log ++ missedAt n s.log) := fun n => by
    have hperm := Relay.settled_perm n s.log
    rwa [leftOut_eq_nil fun rest hr => h.whole hr, List.append_nil] at hperm
  constructor
  · intro pl pl' p p' hp hp' he
    exact ⟨h.ledger.apart _ _ _ _ hp hp' he, h.ledger.parcel_unique hp hp' he⟩
  · intro n stops pl p hsent hp hn
    exact (h.ledger.conserved hsent hp hn).trans ((hsettled n).append_left _)
  · intro n stops hsent hnone
    exact (h.ledger.ended n stops hsent hnone).trans (hsettled n)

/-- Only `sendToNextClient` at a full queue cuts anybody off. -/
theorem cutsOff_cases (hcut : ¬ CutsNobodyOff s l) :
    ∃ t stop m a q rest slots, l = .sendNext t ∧ (s.task t).inHand = some (stop, m) ∧
      (s.bus.nextHop m.destination).found = some (a, q, rest) ∧ s.queue q = some slots ∧
      messageQueueLength ≤ slots.length ∧ rest ≠ [] := by
  cases l with
  | sendNext t =>
    simp only [CutsNobodyOff, St.cutOff] at hcut
    split at hcut
    · exact absurd rfl hcut
    · next stop m hhand =>
      split at hcut
      · exact absurd rfl hcut
      · next a q rest hfound =>
        split at hcut
        · exact absurd rfl hcut
        · next slots hslots =>
          split at hcut
          · exact absurd rfl hcut
          · next hfull =>
            exact ⟨t, stop, m, a, q, rest, slots, rfl, hhand, hfound, hslots,
              Nat.not_lt.mp hfull, hcut⟩
  | _ => exact absurd rfl hcut

/-- At a full queue the message is destroyed, with the destinations behind it. -/
theorem St.sendToNextClient_full {t : TaskId} {m : BusMsg Cmd} {a : BusAddr} {q : QueueHandle}
    {rest : List BusAddr} {slots : List (Slot Cmd)}
    (hfound : (s.bus.nextHop m.destination).found = some (a, q, rest))
    (hslots : s.queue q = some slots) (hfull : messageQueueLength ≤ slots.length) :
    s.sendToNextClient t m = { s.setTask t (s.task t).afterSend with
      log := (s.log ++ (s.bus.nextHop m.destination).skipped.map fun a =>
        .missed a .unreachable m.serial) ++
          [.missed a .full m.serial, .retired rest m.serial] } := by
  simp only [St.sendToNextClient, hfound, hslots, if_neg (Nat.not_lt.mpr hfull)]

/-- Destinations that were cut off are missing from the account. -/
theorem QueueInv.broken (h : QueueInv s) (hl : NoDestructor s l) (hcut : ¬ CutsNobodyOff s l)
    (hstep : step s l = some s') : ¬ Accounted s' := by
  have hledger := h.ledger.preserved (deletesEmpty_of_noDestructor hl) hstep
  obtain ⟨t, stop, m, a, q, rest, slots, rfl, hhand, hfound, hslots, hfull, hrest⟩ :=
    cutsOff_cases hcut
  have heq := St.sendToNextClient_full (t := t) hfound hslots hfull
  obtain rfl : s.sendToNextClient t m = s' := by simpa [step, hhand] using hstep
  have hheld : (⟨m.serial, stop, m.destination⟩ : Parcel BusAddr) ∈ s.relay.held (.hand t) := by
    simp [relay_hand hhand]
  rcases h.ledger.carried _ _ hheld with ⟨stops, hsent, -⟩
  have hsent' : .sent m.serial stops ∈ (s.sendToNextClient t m).log :=
    (log_extends hstep).subset hsent
  have hqueue : (s.sendToNextClient t m).queue = s.queue := by
    rw [heq]
    rfl
  -- the message was in this hand and is nowhere now
  have hgone : ∀ pl, ∀ p ∈ (s.sendToNextClient t m).relay.held pl, p.serial ≠ m.serial := by
    intro pl p hp hn
    by_cases hpl : pl = .hand t
    · subst hpl
      rw [relay_hand_empty (by simp [heq, afterSend_inHand])] at hp
      simp at hp
    · rw [relay_frame_hand hqueue (s.sendToNextClient_task t m) pl hpl] at hp
      exact hpl (h.ledger.apart _ _ _ _ hp hheld hn)
  intro hacc
  -- this account and the ledger's differ by what was left out, so that would be nothing
  have hlen := (hacc.ended _ _ hsent' hgone).length_eq
  have hlen' := ((hledger.ended _ _ hsent' hgone).trans (Relay.settled_perm _ _)).length_eq
  simp only [List.length_append, relay_log] at hlen hlen'
  have hnil : leftOut m.serial (s.sendToNextClient t m).log = [] := by
    rw [← List.length_eq_zero_iff]
    omega
  -- but the destinations behind the full queue were left out
  rcases List.exists_mem_of_ne_nil rest hrest with ⟨b, hb⟩
  have hmem : b ∈ leftOut m.serial (s.sendToNextClient t m).log := mem_leftOut (by simp [heq]) hb
  rw [hnil] at hmem
  simp at hmem

/-- In a run without destructors, every member of every snapshot is accounted for in every state,
and members are passed over for cause only, iff at every forwarding the first reachable member has
room in its queue or is the last one on the list. -/
theorem members_accounted_iff {tr : List (St Cmd × Lbl Cmd)} (hrun : Run step (St.init Cmd) tr s)
    (hno : EveryStep NoDestructor tr) :
    (Always Accounted tr s ∧ EveryStep MissesForCause tr) ↔ EveryStep CutsNobodyOff tr := by
  have hiff : Always Accounted tr s ↔ EveryStep CutsNobodyOff tr :=
    hrun.always_iff_everyStep hno QueueInv.init (fun _ h => h.accounted)
      (fun _ _ _ h hl hcut hstep => h.preserved hl hcut hstep)
      fun _ _ _ h hl hcut hstep => h.broken hl hcut hstep
  exact ⟨fun h => hiff.mp h.1, fun h => ⟨hiff.mpr h, fun p hp => missesForCause (hno p hp)⟩⟩

/-- A message goes through both members. -/
theorem members_accounted_iff_two :
    ∃ tr s, Run step (St.init Unit) tr s ∧
      tr.map Prod.snd = twoMembers ++ [.send 0 0 1 (), .sendNext 0, .tryReceive 0 0, .sendNext 0,
        .tryReceive 0 1, .sendNext 0] ∧
      Always Accounted tr s ∧ EveryStep MissesForCause tr := by
  have hrun := run_get step (St.init Unit) (twoMembers ++ [.send 0 0 1 (), .sendNext 0,
    .tryReceive 0 0, .sendNext 0, .tryReceive 0 1, .sendNext 0]) (by decide +kernel)
  exact ⟨_, _, hrun, rfl, (members_accounted_iff hrun (by decide +kernel)).mpr (by decide +kernel)⟩

/-- The queue of the first member is filled, and a message is sent to the group. -/
def firstMemberFull : List (Lbl Unit) :=
  twoMembers ++ (List.replicate 32 [.send 0 0 (-1) (), .sendNext 0]).flatten ++ [.send 0 1 1 ()]

/-- The first member's queue can be filled. -/
theorem firstMemberFull_enabled : (exec step (St.init Unit) firstMemberFull).isSome = true := by
  decide +kernel

/-- And the message for the group can then be sent on. -/
theorem firstMemberFull_sends : (step ((exec step (St.init Unit) firstMemberFull).get
    firstMemberFull_enabled).2 (.sendNext 0)).isSome = true := by
  decide +kernel

/-- The full queue of client 0 costs client 1, which waits with an empty queue, its copy. -/
theorem members_not_accounted_when_full :
    ∃ tr s, Run step (St.init Unit) tr s ∧ tr.map Prod.snd = firstMemberFull ++ [.sendNext 0] ∧
      EveryStep NoDestructor tr ∧ s.bus.resolve (-2) = some 8 ∧ s.queue 8 = some [] ∧
      .retired [-2] 32 ∈ s.log ∧ ¬ Accounted s := by
  have hfilled := run_get step (St.init Unit) firstMemberFull firstMemberFull_enabled
  have hno : EveryStep NoDestructor
      ((exec step (St.init Unit) firstMemberFull).get firstMemberFull_enabled).1 := by
    decide +kernel
  have hcut : EveryStep CutsNobodyOff
      ((exec step (St.init Unit) firstMemberFull).get firstMemberFull_enabled).1 := by
    decide +kernel
  have hinv := hfilled.invariant (I := QueueInv) QueueInv.init
    (fun _ _ _ h hl hstep => h.preserved hl.1 hl.2 hstep) (hno.and hcut)
  have hstep := (Option.some_get firstMemberFull_sends).symm
  refine ⟨_, _, hfilled.snoc hstep, ?_, ?_, ?_, ?_, ?_, ?_⟩
  · decide +kernel
  · exact everyStep_snoc.mpr ⟨hno, rfl⟩
  · decide +kernel
  · decide +kernel
  · decide +kernel
  · exact hinv.broken (l := .sendNext 0) rfl (by decide +kernel) hstep

end EspAcDimmer
