import EspAcDimmer.Lib.Relay

/-! # The common order of a relay

When every stop has one inbox, every inbox is read by one hand at a time and no stop of a longer
route is passed over, parcels that follow the same route stay in line: a parcel that is ahead at
one stop is ahead at every stop both reach. Parcels may still be destroyed on the way.

* `Before`: the order of two elements in a list without repetitions;
* `Orderly`: what the states of such a relay have in common;
* `Line`: the invariant, `Line.step` its step lemma;
* `Line.same_order`, `Line.sent_order`: the results.
-/

namespace Relay

/-! ## Two elements in a list -/

section Before

variable {α : Type*} {l l₁ l₂ : List α} {x y z : α}

/-- `x` stands somewhere before `y` in `l`. -/
def Before (l : List α) (x y : α) : Prop :=
  [x, y].Sublist l

theorem Before.mem_left (h : Before l x y) : x ∈ l :=
  List.Sublist.subset h (by simp)

theorem Before.mem_right (h : Before l x y) : y ∈ l :=
  List.Sublist.subset h (by simp)

theorem Before.append_right (h : Before l₁ x y) : Before (l₁ ++ l₂) x y :=
  List.Sublist.trans h (List.sublist_append_left _ _)

/-- Two elements of two lists one behind the other: both in one of them, or one in each. -/
theorem before_append : Before (l₁ ++ l₂) x y ↔
    Before l₁ x y ∨ (x ∈ l₁ ∧ y ∈ l₂) ∨ Before l₂ x y := by
  unfold Before
  constructor
  · intro h
    rcases List.sublist_append_iff.mp h with ⟨k₁, k₂, hk, h₁, h₂⟩
    match k₁, k₂, hk with
    | [], _, hk => exact Or.inr (Or.inr (by simpa [hk] using h₂))
    | [a], [b], hk =>
      obtain ⟨rfl, rfl⟩ : x = a ∧ y = b := by simpa using hk
      exact Or.inr (Or.inl ⟨List.singleton_sublist.mp h₁, List.singleton_sublist.mp h₂⟩)
    | [a, b], [], hk =>
      obtain ⟨rfl, rfl⟩ : x = a ∧ y = b := by simpa using hk
      exact Or.inl h₁
  · rintro (h | ⟨hx, hy⟩ | h)
    · exact h.trans (List.sublist_append_left _ _)
    · exact List.Sublist.append (List.singleton_sublist.mpr hx) (List.singleton_sublist.mpr hy)
    · exact h.trans (List.sublist_append_right _ _)

@[simp] theorem before_concat : Before (l ++ [z]) x y ↔ Before l x y ∨ (x ∈ l ∧ y = z) := by
  have h : ¬ Before [z] x y := fun h => by simpa using List.Sublist.length_le h
  simp [before_append, h]

/-- In a list without repetitions nothing stands before itself. -/
theorem Before.ne (h : Before l x y) (hl : l.Nodup) : x ≠ y := by
  have h' : [x, y].Nodup := List.Nodup.sublist h hl
  simpa using h'

/-- In a list without repetitions two elements have one order. -/
theorem Before.asymm (h : Before l x y) (hl : l.Nodup) : ¬ Before l y x := by
  intro h'
  induction l with
  | nil => simpa using h.mem_left
  | cons a t ih =>
    rcases List.nodup_cons.mp hl with ⟨ha, ht⟩
    rw [show a :: t = [a] ++ t from rfl, before_append] at h h'
    have hone : ∀ u v, ¬ Before [a] u v := fun u v h => by simpa using List.Sublist.length_le h
    rcases h with h | ⟨hx, hy⟩ | h <;> rcases h' with h' | ⟨hy', hx'⟩ | h'
    · exact hone _ _ h
    · exact hone _ _ h
    · exact hone _ _ h
    · exact hone _ _ h'
    · obtain rfl : x = a := by simpa using hx
      exact ha hx'
    · obtain rfl : x = a := by simpa using hx
      exact ha h'.mem_right
    · exact hone _ _ h'
    · obtain rfl : y = a := by simpa using hy'
      exact ha h.mem_right
    · exact ih h ht h'

/-- Two different elements stand in one order or the other. -/
theorem before_total (hx : x ∈ l) (hy : y ∈ l) (hne : x ≠ y) : Before l x y ∨ Before l y x := by
  induction l with
  | nil => simp at hx
  | cons a t ih =>
    rw [show a :: t = [a] ++ t from rfl, before_append, before_append]
    rcases List.mem_cons.mp hx with hxa | hxt <;> rcases List.mem_cons.mp hy with hya | hyt
    · exact absurd (hxa.trans hya.symm) hne
    · exact Or.inl (Or.inr (Or.inl ⟨by simp [hxa], hyt⟩))
    · exact Or.inr (Or.inr (Or.inl ⟨by simp [hya], hxt⟩))
    · rcases ih hxt hyt with h | h
      · exact Or.inl (Or.inr (Or.inr h))
      · exact Or.inr (Or.inr (Or.inr h))

/-- What stands before an element of a prefix lies in that prefix. -/
theorem Before.mem_of_append (h : Before (l₁ ++ l₂) x y) (hl : (l₁ ++ l₂).Nodup) (hy : y ∈ l₁) :
    x ∈ l₁ := by
  have hdisj := (List.nodup_append.mp hl).2.2
  rcases before_append.mp h with h | ⟨hx, _⟩ | h
  · exact h.mem_left
  · exact hx
  · exact absurd rfl (hdisj y hy y h.mem_right)

/-- The order in a prefix is the order in the list. -/
theorem before_of_append (h : Before (l₁ ++ l₂) x y) (hl : (l₁ ++ l₂).Nodup) (hy : y ∈ l₁) :
    Before l₁ x y := by
  have hx := h.mem_of_append hl hy
  rcases before_total hx hy (h.ne hl) with h' | h'
  · exact h'
  · exact absurd h (h'.append_right.asymm hl)

end Before

/-! ## Routes -/

section Route

variable {ι : Type*} {stops : List ι}

/-- `b` comes right after `a` on the way through `stops`, which are visited from the back. -/
def Hop (stops : List ι) (a b : ι) : Prop :=
  ∃ u v, stops = u ++ b :: a :: v

/-- A place in a list without repetitions is determined by its element. -/
theorem split_unique {b : ι} : ∀ {u u' v v' : List ι}, (u ++ b :: v).Nodup →
    u ++ b :: v = u' ++ b :: v' → u = u' ∧ v = v'
  | [], [], _, _, _, h => ⟨rfl, (List.cons.inj h).2⟩
  | [], _ :: _, _, _, hnodup, h => by
    rcases List.cons.inj h with ⟨rfl, rfl⟩
    simp at hnodup
  | _ :: _, [], _, _, hnodup, h => by
    rcases List.cons.inj h with ⟨rfl, rfl⟩
    simp at hnodup
  | _ :: _, _ :: _, _, _, hnodup, h => by
    rcases List.cons.inj h with ⟨rfl, htail⟩
    rcases split_unique (List.nodup_cons.mp hnodup).2 htail with ⟨hu, hv⟩
    exact ⟨by rw [hu], hv⟩

end Route

/-! ## The line -/

variable {ι Q H ρ : Type*} [DecidableEq ι]

/-- The parcels put down at stop `a`, oldest first. -/
def puts (a : ι) (log : List (Event ι Q ρ)) : List Nat :=
  log.filterMap fun
    | .put b _ n => if b = a then some n else none
    | _ => none

/-- The parcels stop `a` got, oldest first. -/
def gots (a : ι) (log : List (Event ι Q ρ)) : List Nat :=
  log.filterMap fun
    | .got b _ n => if b = a then some n else none
    | _ => none

@[simp] theorem puts_append (a : ι) (l₁ l₂ : List (Event ι Q ρ)) :
    puts a (l₁ ++ l₂) = puts a l₁ ++ puts a l₂ := by
  simp [puts]

@[simp] theorem gots_append (a : ι) (l₁ l₂ : List (Event ι Q ρ)) :
    gots a (l₁ ++ l₂) = gots a l₁ ++ gots a l₂ := by
  simp [gots]

/-- Which parcels were put down at a stop, by the log. -/
theorem mem_puts {a : ι} {n : Nat} {log : List (Event ι Q ρ)} :
    n ∈ puts a log ↔ ∃ q, .put a q n ∈ log := by
  simp only [puts, List.mem_filterMap]
  constructor
  · rintro ⟨e, he, hn⟩
    cases e <;> simp at hn
    rcases hn with ⟨rfl, rfl⟩
    exact ⟨_, he⟩
  · rintro ⟨q, h⟩
    exact ⟨_, h, by simp⟩

/-- Which parcels a stop got, by the log. -/
theorem mem_gots {a : ι} {n : Nat} {log : List (Event ι Q ρ)} :
    n ∈ gots a log ↔ ∃ r, .got a r n ∈ log := by
  simp only [gots, List.mem_filterMap]
  constructor
  · rintro ⟨e, he, hn⟩
    cases e <;> simp at hn
    rcases hn with ⟨rfl, rfl⟩
    exact ⟨_, he⟩
  · rintro ⟨r, h⟩
    exact ⟨_, h, by simp⟩

/-- A relay in which a stop has one inbox, one hand at a time reads it, and no stop is passed
over unless the parcel goes nowhere else; a route visits a stop at most once. -/
structure Orderly (s : St ι Q H ρ) : Prop where
  one_inbox : ∀ {a q q' n n'}, .put a q n ∈ s.log → .put a q' n' ∈ s.log → q = q'
  one_reader : ∀ {h h' p p' a}, p ∈ s.held (.hand h) → p' ∈ s.held (.hand h') →
    p.stop = some a → p'.stop = some a → h = h'
  reached : ∀ {a n}, .missed a .unreachable n ∈ s.log → .sent n [a] ∈ s.log
  kept : ∀ {a n}, .missed a .withdrawn n ∉ s.log
  no_repeat : ∀ {n stops}, .sent n stops ∈ s.log → stops.Nodup

/-- The parcels in inbox `q` that were put down at stop `a`. -/
def waiting (s : St ι Q H ρ) (a : ι) (q : Q) : List Nat :=
  ((s.held (.inbox q)).filter fun p => p.stop = some a).map Parcel.serial

structure Line (s : St ι Q H ρ) : Prop where
  fifo : ∀ {a q n}, .put a q n ∈ s.log → puts a s.log = gots a s.log ++ waiting s a q
  got_put : ∀ {a n}, n ∈ gots a s.log → n ∈ puts a s.log
  boxed : ∀ {q p}, p ∈ s.held (.inbox q) → ∃ a, p.stop = some a ∧ .put a q p.serial ∈ s.log
  in_hand : ∀ {h p a}, p ∈ s.held (.hand h) → p.stop = some a → p.serial ∈ gots a s.log
  unsent : ∀ {pl p a}, p ∈ s.held pl → p.stop = none → p.serial ∉ puts a s.log
  trail : ∀ {pl p stops}, p ∈ s.held pl → .sent p.serial stops ∈ s.log →
    ∃ visited, stops = p.route ++ (p.stop.toList ++ visited) ∧ (p.stop = none → visited = [])
  put_sent : ∀ {a n}, n ∈ puts a s.log → ∃ stops, .sent n stops ∈ s.log
  hop : ∀ {b n stops}, n ∈ puts b s.log → .sent n stops ∈ s.log →
    (∃ u, stops = u ++ [b]) ∨ ∃ a, Hop stops a b ∧ n ∈ gots a s.log
  ahead : ∀ {pl p b}, p ∈ s.held pl → b ∈ p.route → p.serial ∉ puts b s.log
  nodup : ∀ a, (puts a s.log).Nodup
  /-- A parcel that is ahead at `a` of one that has already reached `b` has left `a`. -/
  passed : ∀ {x y X Y a b}, .sent x X ∈ s.log → .sent y Y ∈ s.log → Hop X a b → Hop Y a b →
    Before (puts a s.log) x y → y ∈ puts b s.log →
    ∀ {pl p}, p ∈ s.held pl → p.serial = x → p.stop ≠ some a
  line : ∀ {x y X Y a b}, .sent x X ∈ s.log → .sent y Y ∈ s.log → Hop X a b → Hop Y a b →
    Before (puts a s.log) x y → x ∈ puts b s.log → y ∈ puts b s.log →
    Before (puts b s.log) x y
  /-- A parcel put down anywhere before another was sent is ahead of it at their first stop. -/
  first : ∀ {x y X Y a q o}, Before s.log (.put a q x) (.sent y Y) → .sent x X ∈ s.log →
    (∃ u, X = u ++ [o]) → (∃ u, Y = u ++ [o]) → y ∈ puts o s.log → Before (puts o s.log) x y

theorem Line.init {s : St ι Q H ρ} (hheld : ∀ pl, s.held pl = []) (hlog : s.log = []) :
    Line s := by
  constructor <;> simp [hheld, hlog, puts, gots]

variable {s s' : St ι Q H ρ}

/-- Events that neither send nor put down nor deliver a parcel. -/
def Quiet (es : List (Event ι Q ρ)) : Prop :=
  ∀ e ∈ es, (∀ n stops, e ≠ .sent n stops) ∧ (∀ a q n, e ≠ .put a q n) ∧ ∀ a r n, e ≠ .got a r n

/-- A move that puts nothing down, with the events `es`. What is held afterwards was held before or
has been nowhere yet. -/
structure Still (s s' : St ι Q H ρ) (es : List (Event ι Q ρ)) : Prop where
  log : s'.log = s.log ++ es
  no_put : ∀ {a q n}, .put a q n ∉ es
  sent_new : ∀ {a n stops}, .sent n stops ∈ es → n ∉ puts a s.log
  held : ∀ {pl p}, p ∈ s'.held pl →
    (∃ pl', p ∈ s.held pl') ∨ (p.stop = none ∧ ∀ a, p.serial ∉ puts a s.log)

namespace Still

variable {es : List (Event ι Q ρ)}

/-- Such a move puts nothing down. -/
theorem puts_eq (h : Still s s' es) (a : ι) : puts a s'.log = puts a s.log := by
  have hnone : puts a es = [] := by
    refine List.eq_nil_iff_forall_not_mem.mpr fun n hn => ?_
    rcases mem_puts.mp hn with ⟨q, hq⟩
    exact h.no_put hq
  rw [h.log, puts_append, hnone, List.append_nil]

theorem put (h : Still s s' es) {a : ι} {q : Q} {n : Nat} :
    .put a q n ∈ s'.log ↔ .put a q n ∈ s.log := by
  rw [h.log, List.mem_append]
  exact ⟨fun hn => hn.resolve_right h.no_put, Or.inl⟩

/-- A parcel that was put down before the move was sent before it. -/
theorem sent (h : Still s s' es) {a : ι} {n : Nat} {stops : List ι} (hn : n ∈ puts a s.log)
    (hs : .sent n stops ∈ s'.log) : .sent n stops ∈ s.log := by
  rw [h.log, List.mem_append] at hs
  exact hs.resolve_right fun hs => h.sent_new hs hn

/-- Nothing is put down in front of a parcel after it was sent. -/
theorem before (h : Still s s' es) {a o : ι} {q : Q} {x y : Nat} {stops : List ι}
    (hb : Before s'.log (.put a q x) (.sent y stops)) (hy : y ∈ puts o s.log) :
    Before s.log (.put a q x) (.sent y stops) := by
  rw [h.log, before_append] at hb
  rcases hb with hb | ⟨-, hs⟩ | hb
  · exact hb
  · exact absurd hy (h.sent_new hs)
  · exact absurd hb.mem_left h.no_put

end Still

/-- The part of the line that depends on what was put down only. -/
theorem Line.still (hline : Line s) {es : List (Event ι Q ρ)} (h : Still s s' es)
    (hfifo : ∀ {a q n}, .put a q n ∈ s.log → puts a s.log = gots a s'.log ++ waiting s' a q)
    (hgot_put : ∀ {a n}, n ∈ gots a s'.log → n ∈ puts a s.log)
    (hboxed : ∀ {q p}, p ∈ s'.held (.inbox q) → p ∈ s.held (.inbox q))
    (hin_hand : ∀ {h p a}, p ∈ s'.held (.hand h) → p.stop = some a → p.serial ∈ gots a s'.log)
    (htrail : ∀ {pl p stops}, p ∈ s'.held pl → .sent p.serial stops ∈ s'.log →
      ∃ visited, stops = p.route ++ (p.stop.toList ++ visited) ∧
        (p.stop = none → visited = [])) : Line s' := by
  have hgots : ∀ {a n}, n ∈ gots a s.log → n ∈ gots a s'.log := fun hn => by
    rw [h.log, gots_append]
    exact List.mem_append_left _ hn
  constructor
  · intro a q n hn
    rw [h.puts_eq]
    exact hfifo (h.put.mp hn)
  · intro a n hn
    rw [h.puts_eq]
    exact hgot_put hn
  · intro q p hp
    rcases hline.boxed (hboxed hp) with ⟨a, ha, hn⟩
    exact ⟨a, ha, h.put.mpr hn⟩
  · exact hin_hand
  · intro pl p a hp hstop
    rw [h.puts_eq]
    rcases h.held hp with ⟨_, hp⟩ | ⟨-, hnew⟩
    · exact hline.unsent hp hstop
    · exact hnew a
  · exact htrail
  · intro a n hn
    rw [h.puts_eq] at hn
    rcases hline.put_sent hn with ⟨stops, hs⟩
    exact ⟨stops, by rw [h.log]; exact List.mem_append_left _ hs⟩
  · intro b n stops hn hs
    rw [h.puts_eq] at hn
    rcases hline.hop hn (h.sent hn hs) with hfirst | ⟨a, ha, hgot⟩
    · exact Or.inl hfirst
    · exact Or.inr ⟨a, ha, hgots hgot⟩
  · intro pl p b hp hb
    rw [h.puts_eq]
    rcases h.held hp with ⟨_, hp⟩ | ⟨-, hnew⟩
    · exact hline.ahead hp hb
    · exact hnew b
  · intro a
    rw [h.puts_eq]
    exact hline.nodup a
  · intro x y X Y a b hX hY hXab hYab hxy hy pl p hp hpx
    rw [h.puts_eq] at hxy hy
    rcases h.held hp with ⟨_, hp⟩ | ⟨hnone, -⟩
    · exact hline.passed (h.sent hxy.mem_left hX) (h.sent hy hY) hXab hYab hxy hy hp hpx
    · simp [hnone]
  · intro x y X Y a b hX hY hXab hYab hxy hx hy
    rw [h.puts_eq] at hxy hx hy ⊢
    exact hline.line (h.sent hx hX) (h.sent hy hY) hXab hYab hxy hx hy
  · intro x y X Y a q o hb hX hXo hYo hy
    rw [h.puts_eq] at hy ⊢
    have hb' := h.before hb hy
    exact hline.first hb' (h.sent (mem_puts.mpr ⟨q, hb'.mem_left⟩) hX) hXo hYo hy

/-- Hands may lose parcels, with a quiet log. -/
theorem Line.shrink (hline : Line s) {es : List (Event ι Q ρ)}
    (hbox : ∀ q, s'.held (.inbox q) = s.held (.inbox q))
    (hhand : ∀ h p, p ∈ s'.held (.hand h) → p ∈ s.held (.hand h))
    (hlog : s'.log = s.log ++ es) (hes : Quiet es) : Line s' := by
  have hheld : ∀ {pl p}, p ∈ s'.held pl → p ∈ s.held pl := by
    intro pl p hp
    cases pl with
    | inbox q => rwa [hbox] at hp
    | hand h => exact hhand h p hp
  have hgots : ∀ a, gots a s'.log = gots a s.log := fun a => by
    have hnone : gots a es = [] := by
      refine List.eq_nil_iff_forall_not_mem.mpr fun n hn => ?_
      rcases mem_gots.mp hn with ⟨r, hr⟩
      exact (hes _ hr).2.2 _ _ _ rfl
    rw [hlog, gots_append, hnone, List.append_nil]
  have hstill : Still s s' es :=
    ⟨hlog, fun h => (hes _ h).2.1 _ _ _ rfl, fun h => absurd rfl ((hes _ h).1 _ _),
      fun hp => Or.inl ⟨_, hheld hp⟩⟩
  refine hline.still hstill (fun hn => ?_) (fun hn => ?_) hheld (fun hp ha => ?_) fun hp hs => ?_
  · rw [hgots, waiting, hbox]
    exact hline.fifo hn
  · rw [hgots] at hn
    exact hline.got_put hn
  · rw [hgots]
    exact hline.in_hand (hheld hp) ha
  · rw [hlog, List.mem_append] at hs
    exact hline.trail (hheld hp) (hs.resolve_right fun hs => (hes _ hs).1 _ _ rfl)

/-- A fresh parcel has been nowhere. -/
theorem Line.send (hline : Line s) (hinv : Inv s) (hinv' : Inv s') {h : H} {stops : List ι}
    (hdst : s'.held (.hand h) = [⟨s.next, none, stops⟩])
    (hframe : ∀ pl, pl ≠ .hand h → s'.held pl = s.held pl)
    (hlog : s'.log = s.log ++ [.sent s.next stops]) : Line s' := by
  have hgots : ∀ a, gots a s'.log = gots a s.log := fun a => by simp [hlog, gots]
  have hbox : ∀ q, s'.held (.inbox q) = s.held (.inbox q) := fun q => hframe _ (by simp)
  -- no event about the next serial has been logged
  have hnew : ∀ a, s.next ∉ puts a s.log := fun a hn => by
    rcases mem_puts.mp hn with ⟨q, hq⟩
    exact Nat.lt_irrefl _ (hinv.fresh _ hq)
  have hheld : ∀ {pl p}, p ∈ s'.held pl → p = ⟨s.next, none, stops⟩ ∨ p ∈ s.held pl := by
    intro pl p hp
    by_cases hpl : pl = .hand h
    · subst hpl
      rw [hdst, List.mem_singleton] at hp
      exact Or.inl hp
    · rw [hframe pl hpl] at hp
      exact Or.inr hp
  have hstill : Still s s' [.sent s.next stops] := by
    refine ⟨hlog, by simp, fun {a n X} hs => ?_, fun hp => ?_⟩
    · obtain ⟨rfl, -⟩ : n = s.next ∧ X = stops := by simpa using hs
      exact hnew a
    · rcases hheld hp with rfl | hp
      · exact Or.inr ⟨rfl, hnew⟩
      · exact Or.inl ⟨_, hp⟩
  refine hline.still hstill (fun hn => ?_) (fun hn => ?_) (fun {q p} hp => ?_)
    (fun {h' p a} hp ha => ?_) fun {pl p X} hp hX => ?_
  · rw [hgots, waiting, hbox]
    exact hline.fifo hn
  · rw [hgots] at hn
    exact hline.got_put hn
  · rwa [hbox] at hp
  · rw [hgots]
    rcases hheld hp with rfl | hp
    · simp at ha
    · exact hline.in_hand hp ha
  · rcases hheld hp with rfl | hp
    · refine ⟨[], ?_, fun _ => rfl⟩
      simpa using hinv'.sent_once _ _ _ hX (by simp [hlog])
    · have hold : .sent p.serial X ∈ s.log := by
        rw [hlog, List.mem_append, List.mem_singleton] at hX
        refine hX.resolve_right fun hX => Nat.ne_of_lt (hinv.serial_lt hp) ?_
        exact (Event.sent.inj hX).1
      exact hline.trail hp hold

/-- Taking the oldest parcel of an inbox keeps every queue of arrivals. -/
theorem Line.take (hline : Line s) {q : Q} {h : H} {p : Parcel ι} {ps : List (Parcel ι)} {a : ι}
    {r : ρ} (hord : Orderly s)
    (hsrc : s.held (.inbox q) = p :: ps) (hstop : p.stop = some a)
    (hrest : s'.held (.inbox q) = ps) (hdst : s'.held (.hand h) = [p])
    (hframe : ∀ pl, pl ≠ .hand h → pl ≠ .inbox q → s'.held pl = s.held pl)
    (hlog : s'.log = s.log ++ [.got a r p.serial]) : Line s' := by
  have hp : p ∈ s.held (.inbox q) := by simp [hsrc]
  have hgots : ∀ b, gots b s'.log = if b = a then gots b s.log ++ [p.serial]
      else gots b s.log := by
    intro b
    by_cases hb : b = a
    · simp [hlog, gots, hb]
    · simp [hlog, gots, hb, Ne.symm hb]
  have hput_p : .put a q p.serial ∈ s.log := by
    rcases hline.boxed hp with ⟨b, hb, hn⟩
    obtain rfl : a = b := by simpa [hstop] using hb
    exact hn
  have hheld : ∀ {pl x}, x ∈ s'.held pl → (pl = .hand h ∧ x = p) ∨ x ∈ s.held pl :=
    mem_held_of_pop hsrc hrest hdst hframe
  -- the same parcels are held, so a fact about all of them carries over
  have hsame : ∀ {x : Parcel ι} {pl}, x ∈ s'.held pl → ∃ pl', x ∈ s.held pl' := by
    intro x pl hx
    rcases hheld hx with ⟨_, rfl⟩ | hx
    · exact ⟨_, hp⟩
    · exact ⟨_, hx⟩
  have hstill : Still s s' [.got a r p.serial] :=
    ⟨hlog, by simp, by simp, fun hx => Or.inl (hsame hx)⟩
  refine hline.still hstill (fun {b q' n} hn => ?_) (fun {b n} hn => ?_)
    (fun {q' x} hx => (hheld hx).resolve_left (by simp)) (fun {h' x b} hx hb => ?_)
    fun {pl x X} hx hX => ?_
  · -- the queue of arrivals loses its head, and the log gains it
    rw [hgots, hline.fifo hn, waiting, waiting]
    by_cases hb : b = a
    · subst hb
      obtain rfl := hord.one_inbox hn hput_p
      simp [hsrc, hrest, hstop]
    · by_cases hq : q' = q
      · subst hq
        simp [hsrc, hrest, hstop, hb, Ne.symm hb]
      · rw [hframe _ (by simp) (by simp [hq])]
        simp [hb]
  · rw [hgots] at hn
    by_cases hb : b = a
    · subst hb
      simp only [if_true, List.mem_append, List.mem_singleton] at hn
      rcases hn with hn | rfl
      · exact hline.got_put hn
      · exact mem_puts.mpr ⟨q, hput_p⟩
    · rw [if_neg hb] at hn
      exact hline.got_put hn
  · rcases hheld hx with ⟨_, rfl⟩ | hx
    · obtain rfl : a = b := by simpa [hstop] using hb
      simp [hgots]
    · rw [hlog, gots_append]
      exact List.mem_append_left _ (hline.in_hand hx hb)
  · rcases hsame hx with ⟨pl', hx'⟩
    exact hline.trail hx' (by simpa [hlog] using hX)

/-- Whatever was put down at `c` came there from the stop before. -/
theorem Line.from_prev (hline : Line s) {n : Nat} {u v : List ι} {c d : ι}
    (hX : .sent n (u ++ c :: d :: v) ∈ s.log) (hnodup : (u ++ c :: d :: v).Nodup)
    (hn : n ∈ puts c s.log) : n ∈ gots d s.log := by
  rcases hline.hop hn hX with ⟨w, hw⟩ | ⟨d', ⟨w, v', hw⟩, hgot⟩
  · have h := (split_unique hnodup hw).2
    simp at h
  · obtain rfl : d = d' := (List.cons.inj (split_unique hnodup hw).2).1
    exact hgot

/-- Whatever was put down anywhere was first put down at the first stop of its route. -/
theorem Line.put_first (hline : Line s) {n : Nat} {o : ι} : ∀ {v u : List ι} {c : ι},
    .sent n (u ++ c :: v) ∈ s.log → (u ++ c :: v).Nodup → (c :: v).getLast? = some o →
    n ∈ puts c s.log → n ∈ puts o s.log
  | [], _, c, _, _, hlast, hn => by
    obtain rfl : c = o := by simpa using hlast
    exact hn
  | d :: v, u, c, hX, hnodup, hlast, hn => by
    have hgot := hline.from_prev hX hnodup hn
    have hsplit : u ++ c :: d :: v = (u ++ [c]) ++ d :: v := by simp
    rw [hsplit] at hX hnodup
    exact hline.put_first hX hnodup (by simpa using hlast) (hline.got_put hgot)

/-- A parcel is put down at stops of its route only. -/
theorem Line.mem_route (hline : Line s) {n : Nat} {X : List ι} {c : ι}
    (hX : .sent n X ∈ s.log) (hn : n ∈ puts c s.log) : c ∈ X := by
  rcases hline.hop hn hX with ⟨u, rfl⟩ | ⟨a, ⟨u, v, rfl⟩, _⟩ <;> simp

/-- The parcel in hand is put down at its next stop `b`, the one stop with inbox `q`. -/
structure PutDown (s s' : St ι Q H ρ) (h : H) (p : Parcel ι) (b : ι) (q : Q) (rest : List ι) :
    Prop where
  one : ∀ {q' n}, .put b q' n ∈ s.log → q' = q
  src : s.held (.hand h) = [p]
  route : p.route = rest ++ [b]
  empty : s'.held (.hand h) = []
  dst : s'.held (.inbox q) = s.held (.inbox q) ++ [⟨p.serial, some b, rest⟩]
  frame : ∀ pl, pl ≠ .hand h → pl ≠ .inbox q → s'.held pl = s.held pl
  log : s'.log = s.log ++ [.put b q p.serial]

namespace PutDown

variable {h : H} {p : Parcel ι} {b : ι} {q : Q} {rest : List ι}

omit [DecidableEq ι] in
theorem mem_src (hd : PutDown s s' h p b q rest) : p ∈ s.held (.hand h) := by
  simp [hd.src]

/-! The log, and what is held -/

/-- The parcel is put down at `b` and nowhere else. -/
theorem puts_eq (hd : PutDown s s' h p b q rest) (c : ι) :
    puts c s'.log = if c = b then puts c s.log ++ [p.serial] else puts c s.log := by
  by_cases hc : c = b
  · simp [hd.log, puts, hc]
  · simp [hd.log, puts, hc, Ne.symm hc]

theorem gots_eq (hd : PutDown s s' h p b q rest) (c : ι) : gots c s'.log = gots c s.log := by
  simp [hd.log, gots]

omit [DecidableEq ι] in
theorem sent_iff (hd : PutDown s s' h p b q rest) {n : Nat} {stops : List ι} :
    .sent n stops ∈ s'.log ↔ .sent n stops ∈ s.log := by
  simp [hd.log]

/-- What was put down before stays put down. -/
theorem put_mono (hd : PutDown s s' h p b q rest) {c : ι} {n : Nat} (hn : n ∈ puts c s.log) :
    n ∈ puts c s'.log := by
  rw [hd.log, puts_append]
  exact List.mem_append_left _ hn

/-- What is put down afterwards was put down before, or is the parcel at `b`. -/
theorem put_cases (hd : PutDown s s' h p b q rest) {c : ι} {n : Nat} (hn : n ∈ puts c s'.log) :
    n ∈ puts c s.log ∨ (c = b ∧ n = p.serial) := by
  rw [hd.puts_eq] at hn
  by_cases hc : c = b
  · rw [if_pos hc, List.mem_append, List.mem_singleton] at hn
    exact hn.imp id fun hn => ⟨hc, hn⟩
  · rw [if_neg hc] at hn
    exact Or.inl hn

/-- Old pairs of arrivals keep their order. -/
theorem before_mono (hd : PutDown s s' h p b q rest) {c : ι} {x y : Nat}
    (hxy : Before (puts c s.log) x y) : Before (puts c s'.log) x y := by
  rw [hd.log, puts_append]
  exact hxy.append_right

/-- An old pair of arrivals, unless the second is the new arrival. -/
theorem before_cases (hd : PutDown s s' h p b q rest) {c : ι} {x y : Nat}
    (hxy : Before (puts c s'.log) x y) :
    Before (puts c s.log) x y ∨ (c = b ∧ y = p.serial ∧ x ∈ puts b s.log) := by
  rw [hd.puts_eq] at hxy
  by_cases hc : c = b
  · rw [if_pos hc, before_concat] at hxy
    exact hxy.imp id fun hxy => ⟨hc, hxy.2, hc ▸ hxy.1⟩
  · rw [if_neg hc] at hxy
    exact Or.inl hxy

/-- The new arrival comes last. -/
theorem before_last (hd : PutDown s s' h p b q rest) {x : Nat} (hx : x ∈ puts b s.log) :
    Before (puts b s'.log) x p.serial := by
  rw [hd.puts_eq, if_pos rfl, before_concat]
  exact Or.inr ⟨hx, rfl⟩

omit [DecidableEq ι] in
/-- What is held afterwards is the parcel in its new inbox, or another one where it was before. -/
theorem held_cases (hd : PutDown s s' h p b q rest) (hinv : Inv s) {pl : Place Q H}
    {x : Parcel ι} (hx : x ∈ s'.held pl) :
    (pl = .inbox q ∧ x = ⟨p.serial, some b, rest⟩) ∨ (x ∈ s.held pl ∧ x.serial ≠ p.serial) := by
  by_cases hph : pl = .hand h
  · subst hph
    simp [hd.empty] at hx
  · by_cases hpq : pl = .inbox q
    · subst hpq
      rw [hd.dst, List.mem_append, List.mem_singleton] at hx
      rcases hx with hx | hx
      · exact Or.inr ⟨hx, fun he => hph (hinv.apart _ _ _ _ hx hd.mem_src he)⟩
      · exact Or.inl ⟨rfl, hx⟩
    · rw [hd.frame pl hph hpq] at hx
      exact Or.inr ⟨hx, fun he => hph (hinv.apart _ _ _ _ hx hd.mem_src he)⟩

/-! The way of the parcel -/

/-- The parcel has not been at `b` before. -/
theorem fresh (hd : PutDown s s' h p b q rest) (hline : Line s) : p.serial ∉ puts b s.log :=
  hline.ahead hd.mem_src (by simp [hd.route])

/-- What the parcel was sent with: what is left, the stop it is put down at, where it was. -/
theorem snapshot (hd : PutDown s s' h p b q rest) (hline : Line s) {X : List ι}
    (hX : .sent p.serial X ∈ s.log) :
    ∃ visited, X = rest ++ b :: (p.stop.toList ++ visited) ∧ (p.stop = none → visited = []) := by
  rcases hline.trail hd.mem_src hX with ⟨visited, hXeq, hvisited⟩
  rw [hd.route, List.append_assoc, List.singleton_append] at hXeq
  exact ⟨visited, hXeq, hvisited⟩

/-- The parcel has not been further on. -/
theorem not_on (hd : PutDown s s' h p b q rest) (hline : Line s) (hinv : Inv s) (hord : Orderly s)
    {c : ι} (hc : c ∈ rest) : p.serial ∉ puts c s'.log := by
  intro hn
  rcases hd.put_cases hn with hn | ⟨rfl, -⟩
  · exact hline.ahead hd.mem_src (by simp [hd.route, hc]) hn
  · rcases hinv.carried _ _ hd.mem_src with ⟨X, hX, -⟩
    rcases hd.snapshot hline hX with ⟨visited, hXeq, -⟩
    have hnodup := hord.no_repeat hX
    rw [hXeq] at hnodup
    exact (List.nodup_append.mp hnodup).2.2 c hc c (by simp) rfl

/-- It comes to `b` from the stop whose hand held it. -/
theorem prev (hd : PutDown s s' h p b q rest) (hline : Line s) (hord : Orderly s) {X : List ι}
    {a : ι} (hX : .sent p.serial X ∈ s.log) (hab : Hop X a b) : p.stop = some a := by
  have hnodup := hord.no_repeat hX
  rcases hd.snapshot hline hX with ⟨visited, hXeq, hvisited⟩
  rcases hab with ⟨u, v, hu⟩
  have htail := (split_unique (hXeq ▸ hnodup) (hXeq.symm.trans hu)).2
  cases hstop : p.stop with
  | none => simp [hstop, hvisited hstop] at htail
  | some a' =>
    rw [hstop, Option.toList_some, List.singleton_append] at htail
    rw [(List.cons.inj htail).1]

/-- And it goes on from `b` to a stop of `rest`. -/
theorem next (hd : PutDown s s' h p b q rest) (hline : Line s) (hord : Orderly s) {X : List ι}
    {c : ι} (hX : .sent p.serial X ∈ s.log) (hbc : Hop X b c) : c ∈ rest := by
  have hnodup := hord.no_repeat hX
  rcases hd.snapshot hline hX with ⟨visited, hXeq, -⟩
  rcases hbc with ⟨u, v, hu⟩
  have hsplit : u ++ c :: b :: v = (u ++ [c]) ++ b :: v := by simp
  have hhead := (split_unique (hXeq ▸ hnodup) (hXeq.symm.trans (hu.trans hsplit))).1
  simp [hhead]

/-! The fields of `Line` that the new arrival matters to -/

/-- The queue of arrivals at `b`, also when nothing was ever put down there. -/
theorem fifo_before (hd : PutDown s s' h p b q rest) (hline : Line s) :
    puts b s.log = gots b s.log ++ waiting s b q := by
  by_cases hany : ∃ m, m ∈ puts b s.log
  · rcases hany with ⟨m, hm⟩
    rcases mem_puts.mp hm with ⟨q', hq'⟩
    obtain rfl := hd.one hq'
    exact hline.fifo hq'
  · have hnone : puts b s.log = [] :=
      List.eq_nil_iff_forall_not_mem.mpr fun m hm => hany ⟨m, hm⟩
    have hnogot : gots b s.log = [] :=
      List.eq_nil_iff_forall_not_mem.mpr fun m hm => hany ⟨m, hline.got_put hm⟩
    have hnowait : waiting s b q = [] := by
      refine List.eq_nil_iff_forall_not_mem.mpr fun m hm => ?_
      rcases List.mem_map.mp hm with ⟨x, hx, rfl⟩
      rcases List.mem_filter.mp hx with ⟨hx, hxb⟩
      rcases hline.boxed hx with ⟨c, hc, hn⟩
      obtain rfl : b = c := by simpa [hc] using (of_decide_eq_true hxb).symm
      exact hany ⟨_, mem_puts.mpr ⟨_, hn⟩⟩
    rw [hnone, hnogot, hnowait, List.append_nil]

/-- Every stop still gets what is put down there in the order of arrival. -/
theorem fifo (hd : PutDown s s' h p b q rest) (hline : Line s) {c : ι} {q' : Q} {n : Nat}
    (hn : .put c q' n ∈ s'.log) : puts c s'.log = gots c s'.log ++ waiting s' c q' := by
  rw [hd.log, List.mem_append, List.mem_singleton] at hn
  by_cases hc : c = b
  · subst hc
    obtain rfl : q' = q := by
      rcases hn with hn | hn
      · exact hd.one hn
      · exact (Event.put.inj hn).2.1
    rw [hd.puts_eq, if_pos rfl, hd.gots_eq, hd.fifo_before hline]
    simp [waiting, hd.dst]
  · have hold : .put c q' n ∈ s.log := hn.resolve_right fun hn => hc (Event.put.inj hn).1
    rw [hd.puts_eq, if_neg hc, hd.gots_eq, hline.fifo hold]
    by_cases hq : q' = q
    · subst hq
      simp [waiting, hd.dst, Ne.symm hc]
    · rw [waiting, waiting, hd.frame _ (by simp) (by simp [hq])]

/-- Every arrival still comes from the stop before, or is the first one of its route. -/
theorem hop (hd : PutDown s s' h p b q rest) (hline : Line s) {c : ι} {n : Nat} {X : List ι}
    (hn : n ∈ puts c s'.log) (hX : .sent n X ∈ s.log) :
    (∃ u, X = u ++ [c]) ∨ ∃ a, Hop X a c ∧ n ∈ gots a s.log := by
  rcases hd.put_cases hn with hn | ⟨rfl, rfl⟩
  · exact hline.hop hn hX
  · rcases hd.snapshot hline hX with ⟨visited, rfl, hvisited⟩
    cases hstop : p.stop with
    | none => exact Or.inl ⟨rest, by simp [hvisited hstop]⟩
    | some a => exact Or.inr ⟨a, ⟨rest, visited, by simp⟩, hline.in_hand hd.mem_src hstop⟩

/-- No parcel arrives twice at a stop. -/
theorem nodup (hd : PutDown s s' h p b q rest) (hline : Line s) (c : ι) :
    (puts c s'.log).Nodup := by
  rw [hd.puts_eq]
  by_cases hc : c = b
  · subst hc
    rw [if_pos rfl, List.nodup_append]
    refine ⟨hline.nodup c, List.nodup_singleton _, fun x hx y hy hxy => hd.fresh hline ?_⟩
    obtain rfl : y = p.serial := by simpa using hy
    exact hxy ▸ hx
  · rw [if_neg hc]
    exact hline.nodup c

/-- What was ahead of the parcel at `a`, where it was read, was read there before and is not in
that hand now. -/
theorem passed_prev (hd : PutDown s s' h p b q rest) (hline : Line s) (hord : Orderly s) {a : ι}
    {pl : Place Q H} {z : Parcel ι} (hstop : p.stop = some a)
    (hzp : Before (puts a s.log) z.serial p.serial) (hz : z ∈ s.held pl)
    (hne : z.serial ≠ p.serial) : z.stop ≠ some a := by
  intro hza
  have hgot := hline.in_hand hd.mem_src hstop
  rcases mem_puts.mp hzp.mem_left with ⟨q₀, hq₀⟩
  have hnodup := hline.nodup a
  rw [hline.fifo hq₀] at hzp hnodup
  have hzgot := hzp.mem_of_append hnodup hgot
  cases pl with
  | inbox q₁ =>
    -- in the inbox it would be waiting, so not read
    rcases hline.boxed hz with ⟨a', ha', hput⟩
    obtain rfl : a' = a := by simpa [hza] using ha'.symm
    obtain rfl := hord.one_inbox hput hq₀
    have hwait : z.serial ∈ waiting s a' q₁ :=
      List.mem_map_of_mem (List.mem_filter.mpr ⟨hz, by simp [hza]⟩)
    exact (List.nodup_append.mp hnodup).2.2 z.serial hzgot _ hwait rfl
  | hand h₁ =>
    -- the one hand that reads `a` held the parcel itself
    obtain rfl := hord.one_reader hz hd.mem_src hza hstop
    rw [hd.src, List.mem_singleton] at hz
    exact hne (by rw [hz])

end PutDown

/-- The parcel in hand goes to the end of the line at its next stop. -/
theorem Line.forward (hline : Line s) (hinv : Inv s) (hord : Orderly s) {h : H} {p : Parcel ι}
    {b : ι} {q : Q} {rest : List ι} (hd : PutDown s s' h p b q rest) : Line s' := by
  have hp := hd.mem_src
  have hfresh := hd.fresh hline
  -- field by field: an old fact about old parcels, or one about the parcel that arrived
  constructor
  · exact fun hn => hd.fifo hline hn
  · intro c n hn
    rw [hd.gots_eq] at hn
    exact hd.put_mono (hline.got_put hn)
  · intro q' x hx
    rcases hd.held_cases hinv hx with ⟨hq, rfl⟩ | ⟨hx, _⟩
    · obtain rfl : q' = q := by simpa using hq
      exact ⟨b, rfl, by simp [hd.log]⟩
    · rcases hline.boxed hx with ⟨c, hc, hn⟩
      exact ⟨c, hc, by simp [hd.log, hn]⟩
  · intro h' x c hx hc
    rw [hd.gots_eq]
    rcases hd.held_cases hinv hx with ⟨hq, _⟩ | ⟨hx, _⟩
    · simp at hq
    · exact hline.in_hand hx hc
  · intro pl x c hx hstop hn
    rcases hd.held_cases hinv hx with ⟨_, rfl⟩ | ⟨hx, hxp⟩
    · simp at hstop
    · rcases hd.put_cases hn with hn | ⟨_, hn⟩
      · exact hline.unsent hx hstop hn
      · exact hxp hn
  · intro pl x X hx hX
    rw [hd.sent_iff] at hX
    rcases hd.held_cases hinv hx with ⟨_, rfl⟩ | ⟨hx, _⟩
    · rcases hd.snapshot hline hX with ⟨visited, rfl, -⟩
      exact ⟨p.stop.toList ++ visited, by simp, by simp⟩
    · exact hline.trail hx hX
  · intro c n hn
    rcases hd.put_cases hn with hn | ⟨_, rfl⟩
    · rcases hline.put_sent hn with ⟨X, hX⟩
      exact ⟨X, hd.sent_iff.mpr hX⟩
    · rcases hinv.carried _ _ hp with ⟨P, hP, -⟩
      exact ⟨P, hd.sent_iff.mpr hP⟩
  · intro c n X hn hX
    simp only [hd.gots_eq]
    exact hd.hop hline hn (hd.sent_iff.mp hX)
  · intro pl x c hx hc hn
    rcases hd.held_cases hinv hx with ⟨_, rfl⟩ | ⟨hx, hxp⟩
    · exact hd.not_on hline hinv hord hc hn
    · rcases hd.put_cases hn with hn | ⟨_, hn⟩
      · exact hline.ahead hx hc hn
      · exact hxp hn
  · exact hd.nodup hline
  · intro x y X Y a c hX hY hXac hYac hxy hy pl z hz hzx hza
    rw [hd.sent_iff] at hX hY
    rcases hd.before_cases hxy with hxy | ⟨rfl, rfl, _⟩
    · rcases hd.held_cases hinv hz with ⟨_, rfl⟩ | ⟨hz, hzp⟩
      · -- the parcel itself, just put down at `b`, is ahead of nobody there
        obtain rfl : b = a := by simpa using hza
        exact hfresh (hzx ▸ hxy.mem_left)
      · rcases hd.put_cases hy with hy | ⟨rfl, rfl⟩
        · exact hline.passed hX hY hXac hYac hxy hy hz hzx hza
        · exact hd.passed_prev hline hord (hd.prev hline hord hY hYac) (hzx ▸ hxy) hz hzp hza
    · exact hd.not_on hline hinv hord (hd.next hline hord hY hYac) hy
  · intro x y X Y a c hX hY hXac hYac hxy hx hy
    rw [hd.sent_iff] at hX hY
    rcases hd.before_cases hxy with hxy | ⟨rfl, rfl, _⟩
    · rcases hd.put_cases hx with hx | ⟨rfl, rfl⟩ <;> rcases hd.put_cases hy with hy | ⟨hc, rfl⟩
      · exact hd.before_mono (hline.line hX hY hXac hYac hxy hx hy)
      · subst hc
        exact hd.before_last hx
      · -- the parcel, ahead at `a`, would have left it before `y` came to `b`
        exact absurd (hd.prev hline hord hX hXac) (hline.passed hX hY hXac hYac hxy hy hp rfl)
      · exact absurd rfl (hxy.ne (hline.nodup a))
    · exact absurd hy (hd.not_on hline hinv hord (hd.next hline hord hY hYac))
  · intro x y X Y a q' o hb hX hXo hYo hy
    rw [hd.sent_iff] at hX
    rw [hd.log, before_concat] at hb
    rcases hb with hb | ⟨_, hb⟩
    · rcases hd.put_cases hy with hy | ⟨rfl, rfl⟩
      · exact hd.before_mono (hline.first hb hX hXo hYo hy)
      · -- `x` was put down at its first stop, which is `b`, before it was anywhere else
        have hx : x ∈ puts a s.log := mem_puts.mpr ⟨q', hb.mem_left⟩
        rcases List.append_of_mem (hline.mem_route hX hx) with ⟨u, v, rfl⟩
        have hlast : (a :: v).getLast? = some o := by
          rcases hXo with ⟨w, hw⟩
          have h := congrArg List.getLast? hw
          simpa using h
        exact hd.before_last (hline.put_first hX (hord.no_repeat hX) hlast hx)
    · simp at hb

/-- Step lemma: every move of an orderly relay keeps the line. -/
theorem Line.step (hline : Line s) (hinv : Inv s) (hord : Orderly s) (hord' : Orderly s')
    (hstep : Step s s') : Line s' := by
  have hinv' : Inv s' := hinv.step hstep
  cases hstep with
  | send h stops hsrc hdst hframe hnext hlog => exact hline.send hinv hinv' hdst hframe hlog
  | forward h p skipped a q rest hsrc hroute hempty hdst hframe hnext hlog =>
    have hskip : skipped = [] := by
      refine List.eq_nil_iff_forall_not_mem.mpr fun x hx => ?_
      have hmissed : .missed x .unreachable p.serial ∈ s'.log := by
        rw [hlog]
        simp [hx]
      have hsent : .sent p.serial [x] ∈ s.log := by simpa [hlog] using hord'.reached hmissed
      -- the route alone is longer than that
      obtain ⟨visited, hstops, -⟩ := hline.trail (by rw [hsrc]; simp) hsent
      have hlen := congrArg List.length hstops
      have hroutelen := congrArg List.length hroute
      have hpos := List.length_pos_of_mem hx
      simp only [List.length_append, List.length_cons, List.length_reverse, List.length_nil]
        at hlen hroutelen
      omega
    subst hskip
    simp only [List.map_nil, List.append_nil] at hlog
    have hroute' : p.route = rest ++ [a] := by
      have h := congrArg List.reverse hroute
      simpa using h
    have hlast : .put a q p.serial ∈ s'.log := by simp [hlog]
    have hone : ∀ {q' n}, .put a q' n ∈ s.log → q' = q := fun hn =>
      hord'.one_inbox (by rw [hlog]; exact List.mem_append_left _ hn) hlast
    exact hline.forward hinv hord ⟨hone, hsrc, hroute', hempty, hdst, hframe, hlog⟩
  | retire h p ms rest hsrc hroute hempty hframe hnext hlog =>
    rw [List.append_assoc] at hlog
    refine hline.shrink (fun q => hframe _ (by simp)) (fun h' x hx => ?_) hlog ?_
    · by_cases hh : h' = h
      · subst hh
        simp [hempty] at hx
      · rwa [hframe _ (by simp [hh])] at hx
    · intro e he
      simp only [List.mem_append, List.mem_map, List.mem_singleton] at he
      rcases he with ⟨x, _, rfl⟩ | rfl <;> simp
  | take q h p ps a r hsrc hstop hfree hrest hdst hframe hnext hlog =>
    exact hline.take hord hsrc hstop hrest hdst hframe hlog
  | withdraw q h p ps a hsrc hstop hfree hrest hdst hframe hnext hlog =>
    exact absurd (by simp [hlog]) (hord'.kept (a := a) (n := p.serial))
  | stutter hheld hnext hlog =>
    have hlog' : s'.log = s.log ++ [] := by simp [hlog]
    exact hline.shrink (fun q => by rw [hheld]) (fun h p hp => by rwa [hheld] at hp) hlog'
      (by simp [Quiet])

/-! ## Results -/

/-- Two parcels that arrive at `c` along the same stops arrived at the first of these in the same
order. -/
theorem Line.to_first (hline : Line s) {x y : Nat} {o : ι} : ∀ {v u u' : List ι} {c : ι},
    .sent x (u ++ c :: v) ∈ s.log → .sent y (u' ++ c :: v) ∈ s.log →
    (u ++ c :: v).Nodup → (u' ++ c :: v).Nodup → (c :: v).getLast? = some o →
    Before (puts c s.log) x y → Before (puts o s.log) x y
  | [], _, _, c, _, _, _, _, hlast, hxy => by
    obtain rfl : c = o := by simpa using hlast
    exact hxy
  | d :: v, u, u', c, hX, hY, hXn, hYn, hlast, hxy => by
    have hxd := hline.got_put (hline.from_prev hX hXn hxy.mem_left)
    have hyd := hline.got_put (hline.from_prev hY hYn hxy.mem_right)
    rcases before_total hxd hyd (hxy.ne (hline.nodup c)) with h | h
    · have hu : u ++ c :: d :: v = (u ++ [c]) ++ d :: v := by simp
      have hu' : u' ++ c :: d :: v = (u' ++ [c]) ++ d :: v := by simp
      rw [hu] at hX hXn
      rw [hu'] at hY hYn
      exact hline.to_first hX hY hXn hYn (by simpa using hlast) h
    · -- in the other order at `d` they would have come to `c` in the other order
      have hback := hline.line hY hX ⟨u', v, rfl⟩ ⟨u, v, rfl⟩ h hxy.mem_right hxy.mem_left
      exact absurd hback (hxy.asymm (hline.nodup c))

omit [DecidableEq ι] in
/-- Of two routes that are visited from the back, one goes on where the other ends. -/
theorem common_stops {X Y : List ι} {a : ι} (hXY : X <:+ Y ∨ Y <:+ X) (hX : a ∈ X) (hY : a ∈ Y) :
    ∃ u u' v, X = u ++ a :: v ∧ Y = u' ++ a :: v := by
  rcases hXY with ⟨w, rfl⟩ | ⟨w, rfl⟩
  · rcases List.append_of_mem hX with ⟨u, v, rfl⟩
    exact ⟨u, w ++ u, v, rfl, by simp⟩
  · rcases List.append_of_mem hY with ⟨u, v, rfl⟩
    exact ⟨w ++ u, u, v, by simp, rfl⟩

/-- What a stop gets in one order arrived in that order. -/
theorem Line.puts_of_gots (hline : Line s) {a : ι} {x y : Nat} (h : Before (gots a s.log) x y) :
    Before (puts a s.log) x y := by
  rcases mem_puts.mp (hline.got_put h.mem_left) with ⟨q, hq⟩
  rw [hline.fifo hq]
  exact h.append_right

/-- What arrives at a stop in one order is got in that order. -/
theorem Line.gots_of_puts (hline : Line s) {a : ι} {x y : Nat} (h : Before (puts a s.log) x y)
    (hy : y ∈ gots a s.log) : Before (gots a s.log) x y := by
  rcases mem_puts.mp h.mem_left with ⟨q, hq⟩
  have hnodup := hline.nodup a
  rw [hline.fifo hq] at h hnodup
  exact before_of_append h hnodup hy

/-- No stop gets a parcel twice. -/
theorem Line.gots_nodup (hline : Line s) (a : ι) : (gots a s.log).Nodup := by
  cases h : gots a s.log with
  | nil => exact List.nodup_nil
  | cons n ns =>
    rcases mem_puts.mp (hline.got_put (a := a) (n := n) (by simp [h])) with ⟨q, hq⟩
    have hnodup := hline.nodup a
    rw [hline.fifo hq] at hnodup
    exact h ▸ (List.nodup_append.mp hnodup).1

/-- A parcel that was destroyed before anybody put it down. -/
structure Gone (n : Nat) (s : St ι Q H ρ) : Prop where
  old : n < s.next
  nowhere : ∀ pl, ∀ p ∈ s.held pl, p.serial ≠ n
  not_put : ∀ a q, .put a q n ∉ s.log

omit [DecidableEq ι] in
/-- It stays gone. -/
theorem Gone.step {n : Nat} (h : Gone n s) (hstep : Step s s') : Gone n s' := by
  rcases h with ⟨hold, hnowhere, hnot⟩
  have hframe : ∀ {pl}, s'.held pl = s.held pl → ∀ p ∈ s'.held pl, p.serial ≠ n := by
    intro pl he p hp
    exact hnowhere pl p (he ▸ hp)
  cases hstep with
  | send h stops hsrc hdst hfr hnext hlog =>
    refine ⟨by omega, fun pl p hp => ?_, fun a q => by simp [hlog, hnot]⟩
    by_cases hpl : pl = .hand h
    · subst hpl
      obtain rfl : p = ⟨s.next, none, stops⟩ := by simpa [hdst] using hp
      simp only
      omega
    · exact hframe (hfr pl hpl) p hp
  | forward h p skipped a q rest hsrc hroute hempty hdst hfr hnext hlog =>
    have hp : p.serial ≠ n := hnowhere _ p (by rw [hsrc]; simp)
    refine ⟨by omega, fun pl x hx => ?_, fun a' q' => by simp [hlog, hnot, Ne.symm hp]⟩
    by_cases hph : pl = .hand h
    · subst hph
      simp [hempty] at hx
    · by_cases hpq : pl = .inbox q
      · subst hpq
        rw [hdst, List.mem_append, List.mem_singleton] at hx
        rcases hx with hx | rfl
        · exact hnowhere _ x hx
        · exact hp
      · exact hframe (hfr pl hph hpq) x hx
  | retire h p ms rest hsrc hroute hempty hfr hnext hlog =>
    refine ⟨by omega, fun pl x hx => ?_, fun a q => by simp [hlog, hnot]⟩
    by_cases hpl : pl = .hand h
    · subst hpl
      simp [hempty] at hx
    · exact hframe (hfr pl hpl) x hx
  | take q h p ps a r hsrc hstop hfree hrest hdst hfr hnext hlog =>
    refine ⟨by omega, fun pl x hx => ?_, fun a q => by simp [hlog, hnot]⟩
    rcases mem_held_of_pop hsrc hrest hdst hfr hx with ⟨-, rfl⟩ | hx
    · exact hnowhere (.inbox q) x (by simp [hsrc])
    · exact hnowhere pl x hx
  | withdraw q h p ps a hsrc hstop hfree hrest hdst hfr hnext hlog =>
    refine ⟨by omega, fun pl x hx => ?_, fun a q => by simp [hlog, hnot]⟩
    rcases mem_held_of_pop hsrc hrest hdst hfr hx with ⟨-, rfl⟩ | hx
    · exact hnowhere (.inbox q) x (by simp [hsrc])
    · exact hnowhere pl x hx
  | stutter hheld hnext hlog =>
    refine ⟨by omega, fun pl => hframe (by rw [hheld]), fun a q => by rw [hlog]; exact hnot a q⟩

section Results

variable (hline : Line s) (hord : Orderly s) {x y : Nat} {X Y : List ι} {a b : ι}
  (hX : .sent x X ∈ s.log) (hY : .sent y Y ∈ s.log) (hXY : X <:+ Y ∨ Y <:+ X)
include hline hord hX hY hXY

/-- The order at any stop is the order at the first stop of the route. -/
theorem Line.first_of_puts (hxy : Before (puts a s.log) x y) :
    ∃ o, (∃ u, X = u ++ [o]) ∧ (∃ u, Y = u ++ [o]) ∧ y ∈ puts o s.log ∧
      Before (puts o s.log) x y := by
  obtain ⟨u, u', v, rfl, rfl⟩ := common_stops hXY (hline.mem_route hX hxy.mem_left)
    (hline.mem_route hY hxy.mem_right)
  obtain ⟨w, o, hw⟩ : ∃ w o, a :: v = w ++ [o] :=
    ⟨_, _, (List.dropLast_append_getLast (List.cons_ne_nil a v)).symm⟩
  have hlast : (a :: v).getLast? = some o := by simp [hw]
  have hfirst := hline.to_first hX hY (hord.no_repeat hX) (hord.no_repeat hY) hlast hxy
  refine ⟨o, ⟨u ++ w, by simp [hw]⟩, ⟨u' ++ w, by simp [hw]⟩, hfirst.mem_right, hfirst⟩

/-- Two parcels on a common route are got in the same order wherever both are got. -/
theorem Line.same_order (hab : Before (gots a s.log) x y) (hxb : x ∈ gots b s.log)
    (hyb : y ∈ gots b s.log) : Before (gots b s.log) x y := by
  have ha := hline.puts_of_gots hab
  refine hline.gots_of_puts ?_ hyb
  rcases before_total (hline.got_put hxb) (hline.got_put hyb) (ha.ne (hline.nodup a)) with h | h
  · exact h
  · -- both orders lead back to the first stop, which has one order only
    rcases hline.first_of_puts hord hX hY hXY ha with ⟨o, ⟨u, hu⟩, -, -, ho⟩
    rcases hline.first_of_puts hord hY hX hXY.symm h with ⟨o', -, ⟨u', hu'⟩, -, ho'⟩
    obtain rfl : o = o' := by
      have hlast := congrArg List.getLast? (hu.symm.trans hu')
      simpa using hlast
    exact absurd ho' (ho.asymm (hline.nodup o))

/-- A parcel put down anywhere before another was sent is got first wherever both are got. -/
theorem Line.sent_order {q : Q} (hxy : Before s.log (.put a q x) (.sent y Y))
    (hxb : x ∈ gots b s.log) (hyb : y ∈ gots b s.log) (hne : x ≠ y) :
    Before (gots b s.log) x y := by
  refine hline.gots_of_puts ?_ hyb
  rcases before_total (hline.got_put hxb) (hline.got_put hyb) hne with h | h
  · exact h
  · rcases hline.first_of_puts hord hY hX hXY.symm h with ⟨o, hYo, hXo, -, ho⟩
    exact absurd ho ((hline.first hxy hX hXo hYo ho.mem_left).asymm (hline.nodup o))

end Results

end Relay
