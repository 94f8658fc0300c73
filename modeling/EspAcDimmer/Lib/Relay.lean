import Mathlib.Data.List.Nodup
import Mathlib.Data.List.Perm.Basic

/-! # Relays: parcels handed from inbox to inbox

A parcel carries a route, the stops it still has to visit, the next one last. It lies in the inbox
of a stop or is held in one hand, and a log records what happened to it. The module states how
parcels may move and proves the conservation law: whatever the order of the steps, the stops a
parcel was sent to are those it has settled, the one whose inbox holds it and those still on its
route, each exactly as often as it was sent to.

* `Step`: the moves, each with the events it logs;
* `Inv`: the ledger, `Inv.step` its step lemma;
* `received`, `missedAt`, `leftOut`: what the log says about one parcel.
-/

namespace Relay

variable {ι Q H ρ : Type*}

/-- Where a parcel can be. -/
inductive Place (Q H : Type*) where
  | inbox (q : Q)
  | hand (h : H)
deriving DecidableEq

/-- Why a stop was passed over. -/
inductive Miss where
  | unreachable
  | full
  | withdrawn
deriving DecidableEq, Repr

/-- `stop` is the stop the parcel was last put down at, `none` while its sender holds it. -/
structure Parcel (ι : Type*) where
  serial : Nat
  stop : Option ι
  route : List ι
deriving DecidableEq

/-- `retired rest n`: the parcel is destroyed with `rest` unvisited. -/
inductive Event (ι Q ρ : Type*) where
  | sent (n : Nat) (stops : List ι)
  | put (a : ι) (q : Q) (n : Nat)
  | got (a : ι) (r : ρ) (n : Nat)
  | missed (a : ι) (why : Miss) (n : Nat)
  | retired (rest : List ι) (n : Nat)
deriving DecidableEq

namespace Event

def serial : Event ι Q ρ → Nat
  | sent n _ => n
  | put _ _ n => n
  | got _ _ n => n
  | missed _ _ n => n
  | retired _ n => n

/-- The stops of parcel `n` an event settles, for better or worse. -/
def settles (n : Nat) : Event ι Q ρ → List ι
  | got a _ m => if m = n then [a] else []
  | missed a _ m => if m = n then [a] else []
  | retired rest m => if m = n then rest else []
  | _ => []

def isSent : Event ι Q ρ → Bool
  | sent _ _ => true
  | _ => false

end Event

structure St (ι Q H ρ : Type*) where
  held : Place Q H → List (Parcel ι)
  next : Nat
  log : List (Event ι Q ρ)

/-! ## What the log says about one parcel -/

def settled (n : Nat) (log : List (Event ι Q ρ)) : List ι :=
  log.flatMap (Event.settles n)

/-- The stops that got the parcel, in the order they got it. -/
def received (n : Nat) (log : List (Event ι Q ρ)) : List ι :=
  log.filterMap fun
    | .got a _ m => if m = n then some a else none
    | _ => none

/-- The stops that were passed over. -/
def missedAt (n : Nat) (log : List (Event ι Q ρ)) : List ι :=
  log.filterMap fun
    | .missed a _ m => if m = n then some a else none
    | _ => none

/-- The stops that were still on the route when the parcel was destroyed. -/
def leftOut (n : Nat) (log : List (Event ι Q ρ)) : List ι :=
  log.flatMap fun
    | .retired rest m => if m = n then rest else []
    | _ => []

@[simp] theorem settled_append (n : Nat) (l₁ l₂ : List (Event ι Q ρ)) :
    settled n (l₁ ++ l₂) = settled n l₁ ++ settled n l₂ := by
  simp [settled]

/-- Events about other parcels settle nothing of this one. -/
theorem settled_of_other {n : Nat} {es : List (Event ι Q ρ)} (h : ∀ e ∈ es, e.serial ≠ n) :
    settled n es = [] := by
  apply List.flatMap_eq_nil_iff.mpr
  intro e he
  have hne := h e he
  cases e <;> simp_all [Event.settles, Event.serial]

@[simp] theorem settled_missed (n : Nat) (ms : List (ι × Miss)) (m : Nat) :
    settled n (ms.map fun x => (Event.missed x.1 x.2 m : Event ι Q ρ)) =
      if m = n then ms.map Prod.fst else [] := by
  induction ms with
  | nil => simp [settled]
  | cons x xs ih =>
    have ih' : List.flatMap (Event.settles n)
        (xs.map fun x => (Event.missed x.1 x.2 m : Event ι Q ρ)) =
        if m = n then xs.map Prod.fst else [] := ih
    by_cases hm : m = n <;> simp [settled, Event.settles, hm] at ih' ⊢
    · exact ih'
    · exact ih'

/-- Every settled stop was received, passed over or left out. -/
theorem settled_perm (n : Nat) (log : List (Event ι Q ρ)) :
    (settled n log).Perm (received n log ++ (missedAt n log ++ leftOut n log)) := by
  induction log with
  | nil => simp [settled, received, missedAt, leftOut]
  | cons e es ih =>
    have hcons : settled n (e :: es) = e.settles n ++ settled n es := by simp [settled]
    rw [hcons]
    cases e with
    | sent => simpa [Event.settles, received, missedAt, leftOut] using ih
    | put => simpa [Event.settles, received, missedAt, leftOut] using ih
    | got a r m =>
      by_cases hm : m = n
      · simpa [Event.settles, received, missedAt, leftOut, hm] using ih
      · simpa [Event.settles, received, missedAt, leftOut, hm] using ih
    | missed a w m =>
      by_cases hm : m = n
      · have hrot : (received n es ++ (a :: (missedAt n es ++ leftOut n es))).Perm
            (a :: (received n es ++ (missedAt n es ++ leftOut n es))) := List.perm_middle
        simpa [Event.settles, received, missedAt, leftOut, hm] using
          (ih.cons a).trans hrot.symm
      · simpa [Event.settles, received, missedAt, leftOut, hm] using ih
    | retired rest m =>
      by_cases hm : m = n
      · have hrot : (rest ++ (received n es ++ (missedAt n es ++ leftOut n es))).Perm
            (received n es ++ (missedAt n es ++ (rest ++ leftOut n es))) := by
          refine (List.perm_append_comm_assoc _ _ _).trans (List.Perm.append_left _ ?_)
          exact List.perm_append_comm_assoc _ _ _
        simpa [Event.settles, received, missedAt, leftOut, hm] using
          (ih.append_left rest).trans hrot
      · simpa [Event.settles, received, missedAt, leftOut, hm] using ih

/-! ## The moves -/

/-- What a parcel still owes: its route, and the stop whose inbox it waits in. -/
def load : Place Q H → Parcel ι → List ι
  | .inbox _, p => p.stop.toList ++ p.route
  | .hand _, p => p.route

inductive Step (s s' : St ι Q H ρ) : Prop where
  /-- A hand takes a fresh parcel. -/
  | send (h : H) (stops : List ι)
      (hsrc : s.held (.hand h) = [])
      (hdst : s'.held (.hand h) = [⟨s.next, none, stops⟩])
      (hframe : ∀ pl, pl ≠ .hand h → s'.held pl = s.held pl)
      (hnext : s'.next = s.next + 1)
      (hlog : s'.log = s.log ++ [.sent s.next stops])
  /-- A hand puts its parcel down at the next stop that can be reached. -/
  | forward (h : H) (p : Parcel ι) (skipped : List ι) (a : ι) (q : Q) (rest : List ι)
      (hsrc : s.held (.hand h) = [p])
      (hroute : p.route.reverse = skipped ++ a :: rest.reverse)
      (hempty : s'.held (.hand h) = [])
      (hdst : s'.held (.inbox q) = s.held (.inbox q) ++ [⟨p.serial, some a, rest⟩])
      (hframe : ∀ pl, pl ≠ .hand h → pl ≠ .inbox q → s'.held pl = s.held pl)
      (hnext : s'.next = s.next)
      (hlog : s'.log = s.log ++ (skipped.map fun x => .missed x .unreachable p.serial) ++
        [.put a q p.serial])
  /-- A hand destroys its parcel. -/
  | retire (h : H) (p : Parcel ι) (ms : List (ι × Miss)) (rest : List ι)
      (hsrc : s.held (.hand h) = [p])
      (hroute : p.route.reverse = ms.map Prod.fst ++ rest.reverse)
      (hempty : s'.held (.hand h) = [])
      (hframe : ∀ pl, pl ≠ .hand h → s'.held pl = s.held pl)
      (hnext : s'.next = s.next)
      (hlog : s'.log = s.log ++ (ms.map fun x => .missed x.1 x.2 p.serial) ++
        [.retired rest p.serial])
  /-- The owner of an inbox takes the oldest parcel and gets it. -/
  | take (q : Q) (h : H) (p : Parcel ι) (ps : List (Parcel ι)) (a : ι) (r : ρ)
      (hsrc : s.held (.inbox q) = p :: ps)
      (hstop : p.stop = some a)
      (hfree : s.held (.hand h) = [])
      (hrest : s'.held (.inbox q) = ps)
      (hdst : s'.held (.hand h) = [p])
      (hframe : ∀ pl, pl ≠ .hand h → pl ≠ .inbox q → s'.held pl = s.held pl)
      (hnext : s'.next = s.next)
      (hlog : s'.log = s.log ++ [.got a r p.serial])
  /-- The oldest parcel is taken out of an inbox unread. -/
  | withdraw (q : Q) (h : H) (p : Parcel ι) (ps : List (Parcel ι)) (a : ι)
      (hsrc : s.held (.inbox q) = p :: ps)
      (hstop : p.stop = some a)
      (hfree : s.held (.hand h) = [])
      (hrest : s'.held (.inbox q) = ps)
      (hdst : s'.held (.hand h) = [p])
      (hframe : ∀ pl, pl ≠ .hand h → pl ≠ .inbox q → s'.held pl = s.held pl)
      (hnext : s'.next = s.next)
      (hlog : s'.log = s.log ++ [.missed a .withdrawn p.serial])
  /-- Nothing happens to any parcel. -/
  | stutter (hheld : s'.held = s.held) (hnext : s'.next = s.next) (hlog : s'.log = s.log)

/-! ## The ledger -/

structure Inv (s : St ι Q H ρ) : Prop where
  fresh : ∀ e ∈ s.log, e.serial < s.next
  sent_once : ∀ n x y, .sent n x ∈ s.log → .sent n y ∈ s.log → x = y
  nodup : ∀ pl, ((s.held pl).map Parcel.serial).Nodup
  apart : ∀ pl pl' p p', p ∈ s.held pl → p' ∈ s.held pl' → p.serial = p'.serial → pl = pl'
  carried : ∀ pl p, p ∈ s.held pl →
    ∃ stops, .sent p.serial stops ∈ s.log ∧ stops.Perm (load pl p ++ settled p.serial s.log)
  ended : ∀ n stops, .sent n stops ∈ s.log → (∀ pl, ∀ p ∈ s.held pl, p.serial ≠ n) →
    stops.Perm (settled n s.log)

/-- A relay that holds nothing and has no history is in order. -/
theorem Inv.init {s : St ι Q H ρ} (hheld : ∀ pl, s.held pl = []) (hlog : s.log = []) :
    Inv s := by
  constructor <;> simp [hheld, hlog]

/-- A parcel that is held has been sent, so its serial is used up. -/
theorem Inv.serial_lt {s : St ι Q H ρ} (hinv : Inv s) {pl : Place Q H} {p : Parcel ι}
    (hp : p ∈ s.held pl) : p.serial < s.next := by
  rcases hinv.carried pl p hp with ⟨stops, hsent, _⟩
  exact hinv.fresh _ hsent

/-- A serial determines the parcel that carries it. -/
theorem Inv.parcel_unique {s : St ι Q H ρ} (hinv : Inv s) {pl pl' : Place Q H} {p p' : Parcel ι}
    (hp : p ∈ s.held pl) (hp' : p' ∈ s.held pl') (h : p.serial = p'.serial) : p = p' := by
  obtain rfl := hinv.apart _ _ _ _ hp hp' h
  exact List.inj_on_of_nodup_map (hinv.nodup pl) hp hp' h

/-- The law of conservation, wherever the parcel is. -/
theorem Inv.conserved {s : St ι Q H ρ} (hinv : Inv s) {n : Nat} {stops : List ι}
    (hsent : .sent n stops ∈ s.log) {pl : Place Q H} {p : Parcel ι} (hp : p ∈ s.held pl)
    (hn : p.serial = n) : stops.Perm (load pl p ++ settled n s.log) := by
  rcases hinv.carried pl p hp with ⟨stops', hsent', hperm⟩
  rw [hn] at hsent' hperm
  rw [hinv.sent_once n stops stops' hsent hsent']
  exact hperm

/-! ## The ledger is kept -/

variable {s s' : St ι Q H ρ}

/-- Events about parcel `n`, which has been sent before. -/
def Concerns (n : Nat) (es : List (Event ι Q ρ)) : Prop :=
  ∀ e ∈ es, e.serial = n ∧ e.isSent = false

namespace Concerns

variable {n : Nat} {es : List (Event ι Q ρ)}

/-- Events about parcel `n` settle nothing of the others. -/
theorem settled_other (hes : Concerns n es) {m : Nat} (hm : m ≠ n) : settled m es = [] :=
  settled_of_other fun e he => by
    rw [(hes e he).1]
    exact hm.symm

/-- Events about a parcel that has been sent send nothing. -/
theorem mem_sent (hes : Concerns n es) {log : List (Event ι Q ρ)} {m : Nat} {stops : List ι} :
    .sent m stops ∈ log ++ es ↔ .sent m stops ∈ log := by
  rw [List.mem_append]
  refine ⟨fun h => h.resolve_right fun h => ?_, Or.inl⟩
  simpa [Event.isSent] using (hes _ h).2

end Concerns

/-- Events about a parcel that is held keep the facts about the log alone. -/
theorem Inv.log_kept (hinv : Inv s) {pl : Place Q H} {p : Parcel ι} (hp : p ∈ s.held pl)
    {es : List (Event ι Q ρ)} (hes : Concerns p.serial es) :
    (∀ e ∈ s.log ++ es, e.serial < s.next) ∧
      ∀ n x y, .sent n x ∈ s.log ++ es → .sent n y ∈ s.log ++ es → x = y := by
  constructor
  · intro e he
    rcases List.mem_append.mp he with he | he
    · exact hinv.fresh e he
    · rw [(hes e he).1]
      exact hinv.serial_lt hp
  · intro n x y hx hy
    exact hinv.sent_once n x y (hes.mem_sent.mp hx) (hes.mem_sent.mp hy)

/-- The parcel at the head of a place is the only one there with its serial. -/
theorem Inv.head_nodup (hinv : Inv s) {src : Place Q H} {p : Parcel ι} {ps : List (Parcel ι)}
    (hsrc : s.held src = p :: ps) :
    p.serial ∉ ps.map Parcel.serial ∧ (ps.map Parcel.serial).Nodup := by
  have h := hinv.nodup src
  rw [hsrc, List.map_cons, List.nodup_cons] at h
  exact h

/-- One parcel goes from the head of one place to the end of another, and the log settles the
stops it sheds on the way. -/
theorem Inv.move (hinv : Inv s) {src dst : Place Q H} {p p' : Parcel ι} {ps : List (Parcel ι)}
    {es : List (Event ι Q ρ)} (hne : src ≠ dst)
    (hsrc : s.held src = p :: ps) (hrest : s'.held src = ps)
    (hdst : s'.held dst = s.held dst ++ [p'])
    (hframe : ∀ pl, pl ≠ src → pl ≠ dst → s'.held pl = s.held pl)
    (hserial : p'.serial = p.serial) (hnext : s'.next = s.next) (hlog : s'.log = s.log ++ es)
    (hes : Concerns p.serial es)
    (hload : (load src p).Perm (load dst p' ++ settled p.serial es)) : Inv s' := by
  have hp : p ∈ s.held src := by simp [hsrc]
  have hnodup := hinv.head_nodup hsrc
  -- what is held afterwards: the moved parcel, and every parcel of another serial
  have hmem : ∀ pl x, x ∈ s'.held pl →
      (pl = dst ∧ x = p') ∨ (x ∈ s.held pl ∧ x.serial ≠ p.serial) := by
    intro pl x hx
    by_cases hps : pl = src
    · subst hps
      rw [hrest] at hx
      refine Or.inr ⟨by simp [hsrc, hx], fun h => hnodup.1 ?_⟩
      exact h ▸ List.mem_map_of_mem hx
    · by_cases hpd : pl = dst
      · subst hpd
        rw [hdst, List.mem_append, List.mem_singleton] at hx
        rcases hx with hx | hx
        · exact Or.inr ⟨hx, fun h => hps (hinv.apart _ _ _ _ hx hp h)⟩
        · exact Or.inl ⟨rfl, hx⟩
      · rw [hframe pl hps hpd] at hx
        exact Or.inr ⟨hx, fun h => hps (hinv.apart _ _ _ _ hx hp h)⟩
  have hkeep : ∀ pl x, x ∈ s.held pl → x.serial ≠ p.serial → x ∈ s'.held pl := by
    intro pl x hx hxp
    by_cases hps : pl = src
    · subst hps
      rw [hsrc, List.mem_cons] at hx
      rw [hrest]
      rcases hx with rfl | hx
      · exact absurd rfl hxp
      · exact hx
    · by_cases hpd : pl = dst
      · subst hpd
        rw [hdst]
        exact List.mem_append_left _ hx
      · rw [hframe pl hps hpd]
        exact hx
  have hsent : ∀ n x, .sent n x ∈ s'.log ↔ .sent n x ∈ s.log := fun n x => by
    rw [hlog, hes.mem_sent]
  rcases hinv.log_kept hp hes with ⟨hfresh, honce⟩
  constructor
  · rwa [hlog, hnext]
  · rwa [hlog]
  · -- a place may gain the parcel, which was elsewhere before
    intro pl
    by_cases hps : pl = src
    · subst hps
      rw [hrest]
      exact hnodup.2
    · by_cases hpd : pl = dst
      · subst hpd
        rw [hdst, List.map_append, List.map_singleton, List.nodup_append]
        refine ⟨hinv.nodup pl, List.nodup_singleton _, ?_⟩
        intro a ha b hb hab
        rcases List.mem_map.mp ha with ⟨x, hx, rfl⟩
        obtain rfl : b = p'.serial := by simpa using hb
        exact hps (hinv.apart _ _ _ _ hx hp (hab.trans hserial))
      · rw [hframe pl hps hpd]
        exact hinv.nodup pl
  · -- no other parcel has the serial of the one that moved
    intro pl pl' x x' hx hx' hxx
    rcases hmem pl x hx with ⟨rfl, rfl⟩ | ⟨hx, hxp⟩ <;>
      rcases hmem pl' x' hx' with ⟨rfl, rfl⟩ | ⟨hx', hxp'⟩
    · rfl
    · exact absurd (hxx.symm.trans hserial) hxp'
    · exact absurd (hxx.trans hserial) hxp
    · exact hinv.apart _ _ _ _ hx hx' hxx
  · -- what the parcel has shed, the log has settled
    intro pl x hx
    rcases hmem pl x hx with ⟨rfl, rfl⟩ | ⟨hx, hxp⟩
    · rcases hinv.carried src p hp with ⟨stops, hs, hperm⟩
      refine ⟨stops, by rw [hserial, hsent]; exact hs, hperm.trans ?_⟩
      rw [hlog, settled_append, hserial]
      refine (hload.append_right _).trans ?_
      rw [List.append_assoc]
      exact List.perm_append_comm.append_left _
    · rcases hinv.carried pl x hx with ⟨stops, hs, hperm⟩
      refine ⟨stops, (hsent _ _).mpr hs, ?_⟩
      rw [hlog, settled_append, hes.settled_other hxp, List.append_nil]
      exact hperm
  · -- the moved parcel is still held
    intro n stops hs hnone
    have hn : n ≠ p.serial := by
      rintro rfl
      exact hnone dst p' (by simp [hdst]) hserial
    have hperm := hinv.ended n stops ((hsent _ _).mp hs) fun pl x hx h =>
      hnone pl x (hkeep pl x hx (h ▸ hn)) h
    rw [hlog, settled_append, hes.settled_other hn, List.append_nil]
    exact hperm

/-- One parcel leaves for good, and the log settles all it owed. -/
theorem Inv.remove (hinv : Inv s) {src : Place Q H} {p : Parcel ι} {ps : List (Parcel ι)}
    {es : List (Event ι Q ρ)}
    (hsrc : s.held src = p :: ps) (hrest : s'.held src = ps)
    (hframe : ∀ pl, pl ≠ src → s'.held pl = s.held pl)
    (hnext : s'.next = s.next) (hlog : s'.log = s.log ++ es)
    (hes : Concerns p.serial es)
    (hload : (load src p).Perm (settled p.serial es)) : Inv s' := by
  have hp : p ∈ s.held src := by simp [hsrc]
  have hnodup := hinv.head_nodup hsrc
  have hmem : ∀ pl x, x ∈ s'.held pl ↔ x ∈ s.held pl ∧ x.serial ≠ p.serial := by
    intro pl x
    by_cases hps : pl = src
    · subst hps
      rw [hrest, hsrc, List.mem_cons]
      constructor
      · intro hx
        exact ⟨Or.inr hx, fun h => hnodup.1 (h ▸ List.mem_map_of_mem hx)⟩
      · rintro ⟨rfl | hx, hxp⟩
        · exact absurd rfl hxp
        · exact hx
    · rw [hframe pl hps]
      exact ⟨fun hx => ⟨hx, fun h => hps (hinv.apart _ _ _ _ hx hp h)⟩, And.left⟩
  have hsent : ∀ n x, .sent n x ∈ s'.log ↔ .sent n x ∈ s.log := fun n x => by
    rw [hlog, hes.mem_sent]
  rcases hinv.log_kept hp hes with ⟨hfresh, honce⟩
  constructor
  · rwa [hlog, hnext]
  · rwa [hlog]
  · intro pl
    by_cases hps : pl = src
    · subst hps
      rw [hrest]
      exact hnodup.2
    · rw [hframe pl hps]
      exact hinv.nodup pl
  · intro pl pl' x x' hx hx' hxx
    exact hinv.apart _ _ _ _ ((hmem _ _).mp hx).1 ((hmem _ _).mp hx').1 hxx
  · intro pl x hx
    rcases (hmem pl x).mp hx with ⟨hx, hxp⟩
    rcases hinv.carried pl x hx with ⟨stops, hs, hperm⟩
    refine ⟨stops, (hsent _ _).mpr hs, ?_⟩
    rw [hlog, settled_append, hes.settled_other hxp, List.append_nil]
    exact hperm
  · -- the parcel that left owed what the log has settled; the others were nowhere before
    intro n stops hs hnone
    have hs' := (hsent _ _).mp hs
    rw [hlog, settled_append]
    by_cases hn : n = p.serial
    · subst hn
      refine (hinv.conserved hs' hp rfl).trans ?_
      exact (hload.append_right _).trans List.perm_append_comm
    · have hperm := hinv.ended n stops hs' fun pl x hx h =>
        hnone pl x ((hmem pl x).mpr ⟨hx, h ▸ hn⟩) h
      rw [hes.settled_other hn, List.append_nil]
      exact hperm

/-- A fresh parcel owes all its stops. -/
theorem Inv.add (hinv : Inv s) {h : H} {stops : List ι}
    (hsrc : s.held (.hand h) = [])
    (hdst : s'.held (.hand h) = [⟨s.next, none, stops⟩])
    (hframe : ∀ pl, pl ≠ .hand h → s'.held pl = s.held pl)
    (hnext : s'.next = s.next + 1) (hlog : s'.log = s.log ++ [.sent s.next stops]) : Inv s' := by
  have hmem : ∀ pl x, x ∈ s'.held pl →
      (pl = .hand h ∧ x = ⟨s.next, none, stops⟩) ∨ x ∈ s.held pl := by
    intro pl x hx
    by_cases hpl : pl = .hand h
    · subst hpl
      rw [hdst, List.mem_singleton] at hx
      exact Or.inl ⟨rfl, hx⟩
    · rw [hframe pl hpl] at hx
      exact Or.inr hx
  -- the next serial is nobody's yet
  have hold : ∀ {pl x}, x ∈ s.held pl → x.serial ≠ s.next := fun hx =>
    Nat.ne_of_lt (hinv.serial_lt hx)
  have hsettled : ∀ n, settled n s'.log = settled n s.log := by
    intro n
    rw [hlog, settled_append]
    simp [settled, Event.settles]
  have hunsettled : settled s.next s.log = [] :=
    settled_of_other fun e he => Nat.ne_of_lt (hinv.fresh e he)
  constructor
  · intro e he
    rw [hlog, List.mem_append, List.mem_singleton] at he
    rw [hnext]
    rcases he with he | rfl
    · exact Nat.lt_succ_of_lt (hinv.fresh e he)
    · exact Nat.lt_succ_self _
  · -- the serial is new, so no earlier event has it
    intro n x y hx hy
    rw [hlog, List.mem_append, List.mem_singleton] at hx hy
    rcases hx with hx | hx <;> rcases hy with hy | hy
    · exact hinv.sent_once n x y hx hy
    · obtain ⟨rfl, rfl⟩ : n = s.next ∧ y = stops := by simpa using hy
      exact absurd (hinv.fresh _ hx) (Nat.lt_irrefl _)
    · obtain ⟨rfl, rfl⟩ : n = s.next ∧ x = stops := by simpa using hx
      exact absurd (hinv.fresh _ hy) (Nat.lt_irrefl _)
    · obtain ⟨-, rfl⟩ : n = s.next ∧ x = stops := by simpa using hx
      obtain ⟨-, rfl⟩ : n = s.next ∧ y = x := by simpa using hy
      rfl
  · intro pl
    by_cases hpl : pl = .hand h
    · subst hpl
      simp [hdst]
    · rw [hframe pl hpl]
      exact hinv.nodup pl
  · intro pl pl' x x' hx hx' hxx
    rcases hmem pl x hx with ⟨rfl, rfl⟩ | hx <;> rcases hmem pl' x' hx' with ⟨rfl, rfl⟩ | hx'
    · rfl
    · exact absurd hxx.symm (hold hx')
    · exact absurd hxx (hold hx)
    · exact hinv.apart _ _ _ _ hx hx' hxx
  · intro pl x hx
    rw [hsettled]
    rcases hmem pl x hx with ⟨rfl, rfl⟩ | hx
    · exact ⟨stops, by simp [hlog], by simp [load, hunsettled]⟩
    · rcases hinv.carried pl x hx with ⟨stops', hs, hperm⟩
      exact ⟨stops', by rw [hlog]; exact List.mem_append_left _ hs, hperm⟩
  · -- the fresh parcel is held
    intro n stops' hs hnone
    rw [hsettled]
    rw [hlog, List.mem_append, List.mem_singleton] at hs
    rcases hs with hs | hs
    · refine hinv.ended n stops' hs fun pl x hx => hnone pl x ?_
      by_cases hpl : pl = .hand h
      · subst hpl
        simp [hsrc] at hx
      · rw [hframe pl hpl]
        exact hx
    · obtain ⟨rfl, rfl⟩ : n = s.next ∧ stops' = stops := by simpa using hs
      exact absurd rfl (hnone (.hand h) ⟨s.next, none, stops'⟩ (by simp [hdst]))

/-- The oldest parcel of an inbox goes to a free hand, with one event that settles its stop. -/
theorem Inv.pop (hinv : Inv s) {q : Q} {h : H} {p : Parcel ι} {ps : List (Parcel ι)} {a : ι}
    {e : Event ι Q ρ} (hsrc : s.held (.inbox q) = p :: ps) (hstop : p.stop = some a)
    (hfree : s.held (.hand h) = []) (hrest : s'.held (.inbox q) = ps)
    (hdst : s'.held (.hand h) = [p])
    (hframe : ∀ pl, pl ≠ .hand h → pl ≠ .inbox q → s'.held pl = s.held pl)
    (hnext : s'.next = s.next) (hlog : s'.log = s.log ++ [e])
    (he : e.serial = p.serial ∧ e.isSent = false) (hsettles : e.settles p.serial = [a]) :
    Inv s' := by
  have hgiven : s'.held (.hand h) = s.held (.hand h) ++ [p] := by simp [hfree, hdst]
  refine hinv.move (by simp) hsrc hrest hgiven (fun pl h₁ h₂ => hframe pl h₂ h₁) rfl hnext hlog
    (by simpa [Concerns] using he) ?_
  -- the stop moves from the load of the parcel to what the log has settled
  simpa [load, hstop, settled, hsettles] using (List.perm_append_singleton a p.route).symm

/-- Such a move brings no parcel from elsewhere. -/
theorem mem_held_of_pop {q : Q} {h : H} {p : Parcel ι} {ps : List (Parcel ι)}
    (hsrc : s.held (.inbox q) = p :: ps) (hrest : s'.held (.inbox q) = ps)
    (hdst : s'.held (.hand h) = [p])
    (hframe : ∀ pl, pl ≠ .hand h → pl ≠ .inbox q → s'.held pl = s.held pl) {pl : Place Q H}
    {x : Parcel ι} (hx : x ∈ s'.held pl) : (pl = .hand h ∧ x = p) ∨ x ∈ s.held pl := by
  by_cases hph : pl = .hand h
  · subst hph
    rw [hdst, List.mem_singleton] at hx
    exact Or.inl ⟨rfl, hx⟩
  · by_cases hpq : pl = .inbox q
    · subst hpq
      rw [hrest] at hx
      exact Or.inr (by simp [hsrc, hx])
    · rw [hframe pl hph hpq] at hx
      exact Or.inr hx

/-- Step lemma: every move keeps the ledger. -/
theorem Inv.step (hinv : Inv s) (hstep : Step s s') : Inv s' := by
  cases hstep with
  | send h stops hsrc hdst hframe hnext hlog =>
    exact hinv.add hsrc hdst hframe hnext hlog
  | forward h p skipped a q rest hsrc hroute hempty hdst hframe hnext hlog =>
    rw [List.append_assoc] at hlog
    refine hinv.move (by simp) hsrc hempty hdst hframe rfl hnext hlog ?_ ?_
    · intro e he
      simp only [List.mem_append, List.mem_map, List.mem_singleton] at he
      rcases he with ⟨x, _, rfl⟩ | rfl <;> exact ⟨rfl, rfl⟩
    · have hsettled : settled p.serial ((skipped.map fun x =>
          (Event.missed x .unreachable p.serial : Event ι Q ρ)) ++ [.put a q p.serial]) =
          skipped := by
        have h := settled_missed (Q := Q) (ρ := ρ) p.serial
          (skipped.map fun x => (x, Miss.unreachable)) p.serial
        simp only [List.map_map, Function.comp_def, if_true, List.map_id'] at h
        rw [settled_append, h]
        simp [settled, Event.settles]
      rw [hsettled]
      have hperm : p.route.Perm (skipped ++ a :: rest.reverse) :=
        hroute ▸ (List.reverse_perm _).symm
      refine hperm.trans (List.perm_append_comm.trans ?_)
      exact (List.Perm.cons a (List.reverse_perm rest)).append_right _
  | retire h p ms rest hsrc hroute hempty hframe hnext hlog =>
    rw [List.append_assoc] at hlog
    refine hinv.remove hsrc hempty hframe hnext hlog ?_ ?_
    · intro e he
      simp only [List.mem_append, List.mem_map, List.mem_singleton] at he
      rcases he with ⟨x, _, rfl⟩ | rfl <;> exact ⟨rfl, rfl⟩
    · have hsettled : settled p.serial ((ms.map fun x =>
          (Event.missed x.1 x.2 p.serial : Event ι Q ρ)) ++ [.retired rest p.serial]) =
          ms.map Prod.fst ++ rest := by
        rw [settled_append, settled_missed]
        simp [settled, Event.settles]
      rw [hsettled]
      have hperm : p.route.Perm (ms.map Prod.fst ++ rest.reverse) :=
        hroute ▸ (List.reverse_perm _).symm
      exact hperm.trans ((List.reverse_perm rest).append_left _)
  | take q h p ps a r hsrc hstop hfree hrest hdst hframe hnext hlog =>
    exact hinv.pop hsrc hstop hfree hrest hdst hframe hnext hlog ⟨rfl, rfl⟩
      (by simp [Event.settles])
  | withdraw q h p ps a hsrc hstop hfree hrest hdst hframe hnext hlog =>
    exact hinv.pop hsrc hstop hfree hrest hdst hframe hnext hlog ⟨rfl, rfl⟩
      (by simp [Event.settles])
  | stutter hheld hnext hlog =>
    rcases hinv with ⟨h₁, h₂, h₃, h₄, h₅, h₆⟩
    constructor <;> simpa only [hheld, hnext, hlog]

end Relay
