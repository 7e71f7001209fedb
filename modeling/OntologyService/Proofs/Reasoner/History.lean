import OntologyService.Proofs.Order.Listing
import OntologyService.Proofs.Taxonomy.Agreement

/-!
# Histories of a reasoner

A reasoner takes changes and reads in any order, and keeps counts, closures and a consistency bit
from one to the next. `Sound` says what it may rest on between two requests: the taxonomy is
faithful to the axioms, and the bit, where it is set, is right. Every request keeps it
(`Sound.serve`), changes the axioms by set algebra (`axioms_serve`), and answers from the axioms
alone (`Sound.reply_eq`).

**The law** (`reply_after_eq_reply_fresh`): after any history, a reasoner gives to any request the
reply of an engine that took in the same axioms in one batch. Nothing else of the history shows:
not the order of the changes, not how often an axiom was named, not the reads between.
-/

namespace OntologyService

namespace Reasoner

/-- The reasoner that a list of requests leaves, served one after another. -/
def after (r : Reasoner) (history : List Request) : Reasoner :=
  history.foldl (fun r q => (r.serve q).2) r

/-- What a request makes of a set of axioms. -/
def Request.change (axioms : AxiomSet) : Request → AxiomSet
  | .apply additions removals =>
    (axioms ∪ SortedSet.ofList additions).sdiff (SortedSet.ofList removals)
  | .dispose => ∅
  | .classify | .consistent | .satisfiable _ | .entailed _ | .query _ _ => axioms

/-- **The reasoner is sound**: its taxonomy is faithful to its axioms, and what it knows of their
consistency is so. -/
structure Sound (r : Reasoner) : Prop where
  taxonomy : r.taxonomy.Faithful r.axioms
  consistent : ∀ b, r.consistent = some b → b = r.taxonomy.isConsistent

/-- An engine without axioms is sound. -/
theorem sound_new (ontology : String) : (new ontology).Sound where
  taxonomy := Taxonomy.faithful_empty
  consistent _ h := by cases h

/-! ## Taking in and taking back -/

/-- One axiom more, where it is new. -/
def takeIn (r : Reasoner) (a : Axiom) : Reasoner :=
  { r with axioms := r.axioms.insert a, taxonomy := r.taxonomy.insert a }

/-- One axiom less, where it is held. -/
def takeBack (r : Reasoner) (a : Axiom) : Reasoner :=
  { r with axioms := r.axioms.erase a, taxonomy := r.taxonomy.remove a }

/-- An axiom that is held already is passed over. -/
theorem addAll_held {r : Reasoner} {a : Axiom} (h : a ∈ r.axioms) (as : List Axiom) :
    r.addAll (a :: as) = r.addAll as := by
  rw [addAll, if_pos h]

/-- An axiom that is new is taken in and counted. -/
theorem addAll_new {r : Reasoner} {a : Axiom} (h : a ∉ r.axioms) (as : List Axiom) :
    r.addAll (a :: as) = (((r.takeIn a).addAll as).1, ((r.takeIn a).addAll as).2 + 1) := by
  rw [addAll, if_neg h]
  rfl

/-- An axiom that is held is taken back and counted. -/
theorem removeAll_held {r : Reasoner} {a : Axiom} (h : a ∈ r.axioms) (as : List Axiom) :
    r.removeAll (a :: as) =
      (((r.takeBack a).removeAll as).1, ((r.takeBack a).removeAll as).2 + 1) := by
  rw [removeAll, if_pos h]
  rfl

/-- An axiom that is not held is passed over. -/
theorem removeAll_absent {r : Reasoner} {a : Axiom} (h : a ∉ r.axioms) (as : List Axiom) :
    r.removeAll (a :: as) = r.removeAll as := by
  rw [removeAll, if_neg h]

/-- **Additions** put the listed axioms among those held, and leave the reasoner alone if they count
nothing. -/
theorem addAll_spec (as : List Axiom) : ∀ r : Reasoner,
    (r.addAll as).1.ontology = r.ontology ∧ (r.addAll as).1.revision = r.revision ∧
      (r.addAll as).1.axioms = r.axioms ∪ SortedSet.ofList as ∧
      ((r.addAll as).2 = 0 → (r.addAll as).1 = r) := by
  induction as with
  | nil =>
    intro r
    refine ⟨rfl, rfl, SortedSet.ext fun a => ?_, fun _ => rfl⟩
    rw [SortedSet.mem_union, SortedSet.mem_ofList]
    simp only [List.not_mem_nil, or_false]
    exact Iff.rfl
  | cons a as ih =>
    intro r
    by_cases ha : a ∈ r.axioms
    · rw [addAll_held ha]
      obtain ⟨name, revision, axioms, unchanged⟩ := ih r
      refine ⟨name, revision, axioms.trans (SortedSet.ext fun b => ?_), unchanged⟩
      simp only [SortedSet.mem_union, SortedSet.mem_ofList, List.mem_cons]
      constructor
      · rintro (hb | hb)
        · exact .inl hb
        · exact .inr (.inr hb)
      · rintro (hb | rfl | hb)
        · exact .inl hb
        · exact .inl ha
        · exact .inr hb
    · rw [addAll_new ha]
      obtain ⟨name, revision, axioms, -⟩ := ih (r.takeIn a)
      refine ⟨name, revision, axioms.trans (SortedSet.ext fun b => ?_), fun e => by cases e⟩
      simp only [takeIn, SortedSet.mem_union, SortedSet.mem_insert, SortedSet.mem_ofList,
        List.mem_cons]
      exact or_assoc.trans or_left_comm

/-- **Removals** take the listed axioms from those held, and leave the reasoner alone if they count
nothing. -/
theorem removeAll_spec (as : List Axiom) : ∀ r : Reasoner,
    (r.removeAll as).1.ontology = r.ontology ∧ (r.removeAll as).1.revision = r.revision ∧
      (r.removeAll as).1.axioms = r.axioms.sdiff (SortedSet.ofList as) ∧
      ((r.removeAll as).2 = 0 → (r.removeAll as).1 = r) := by
  induction as with
  | nil =>
    intro r
    refine ⟨rfl, rfl, SortedSet.ext fun a => ?_, fun _ => rfl⟩
    rw [SortedSet.mem_sdiff, SortedSet.mem_ofList]
    simp only [List.not_mem_nil, not_false_eq_true, and_true]
    exact Iff.rfl
  | cons a as ih =>
    intro r
    by_cases ha : a ∈ r.axioms
    · rw [removeAll_held ha]
      obtain ⟨name, revision, axioms, -⟩ := ih (r.takeBack a)
      refine ⟨name, revision, axioms.trans (SortedSet.ext fun b => ?_), fun e => by cases e⟩
      simp only [takeBack, SortedSet.mem_sdiff, SortedSet.mem_erase, SortedSet.mem_ofList,
        List.mem_cons, not_or, ne_eq, and_assoc]
    · rw [removeAll_absent ha]
      obtain ⟨name, revision, axioms, unchanged⟩ := ih r
      refine ⟨name, revision, axioms.trans (SortedSet.ext fun b => ?_), unchanged⟩
      simp only [SortedSet.mem_sdiff, SortedSet.mem_ofList, List.mem_cons, not_or]
      constructor
      · rintro ⟨hb, hbas⟩
        exact ⟨hb, fun e => ha (e ▸ hb), hbas⟩
      · rintro ⟨hb, -, hbas⟩
        exact ⟨hb, hbas⟩

/-- Additions and removals keep the taxonomy faithful. -/
theorem addAll_faithful (as : List Axiom) : ∀ {r : Reasoner}, r.taxonomy.Faithful r.axioms →
    (r.addAll as).1.taxonomy.Faithful (r.addAll as).1.axioms := by
  induction as with
  | nil => exact fun h => h
  | cons a as ih =>
    intro r h
    by_cases ha : a ∈ r.axioms
    · rw [addAll_held ha]
      exact ih h
    · rw [addAll_new ha]
      exact ih (r := r.takeIn a) (h.insert ha)

/-- The taxonomy keeps up with axioms that are taken back. -/
theorem removeAll_faithful (as : List Axiom) : ∀ {r : Reasoner}, r.taxonomy.Faithful r.axioms →
    (r.removeAll as).1.taxonomy.Faithful (r.removeAll as).1.axioms := by
  induction as with
  | nil => exact fun h => h
  | cons a as ih =>
    intro r h
    by_cases ha : a ∈ r.axioms
    · rw [removeAll_held ha]
      exact ih (r := r.takeBack a) (h.remove ha)
    · rw [removeAll_absent ha]
      exact ih h

/-- How many axioms a batch takes in and back depends on the axioms held, and on nothing else. -/
theorem addAll_congr (as : List Axiom) : ∀ {r s : Reasoner}, r.axioms = s.axioms →
    (r.addAll as).2 = (s.addAll as).2 ∧ (r.addAll as).1.axioms = (s.addAll as).1.axioms := by
  induction as with
  | nil => intro r s h; exact ⟨rfl, h⟩
  | cons a as ih =>
    intro r s h
    by_cases ha : a ∈ r.axioms
    · rw [addAll_held ha, addAll_held (h ▸ ha)]
      exact ih h
    · rw [addAll_new ha, addAll_new (h ▸ ha)]
      have taken : (r.takeIn a).axioms = (s.takeIn a).axioms := congrArg (SortedSet.insert a) h
      obtain ⟨count, axioms⟩ := ih taken
      exact ⟨congrArg Nat.succ count, axioms⟩

/-- How many are taken back depends on the axioms only. -/
theorem removeAll_congr (as : List Axiom) : ∀ {r s : Reasoner}, r.axioms = s.axioms →
    (r.removeAll as).2 = (s.removeAll as).2 := by
  induction as with
  | nil => intro r s _; rfl
  | cons a as ih =>
    intro r s h
    by_cases ha : a ∈ r.axioms
    · rw [removeAll_held ha, removeAll_held (h ▸ ha)]
      have taken : (r.takeBack a).axioms = (s.takeBack a).axioms :=
        congrArg (SortedSet.erase a) h
      exact congrArg Nat.succ (ih taken)
    · rw [removeAll_absent ha, removeAll_absent (h ▸ ha)]
      exact ih h

/-! ## What a batch counts -/

/-- The axioms that a list of additions takes in are those that are not held. -/
theorem addAll_count (as : List Axiom) : ∀ {r : Reasoner}, as.Nodup →
    (r.addAll as).2 = (as.filter fun a => decide (a ∉ r.axioms)).length := by
  induction as with
  | nil => intro r _; rfl
  | cons a as ih =>
    intro r distinct
    obtain ⟨once, distinct⟩ := List.nodup_cons.1 distinct
    by_cases ha : a ∈ r.axioms
    · rw [addAll_held ha, List.filter_cons_of_neg (by simpa using ha)]
      exact ih distinct
    · rw [addAll_new ha, List.filter_cons_of_pos (by simpa using ha), List.length_cons,
        ih distinct]
      -- what is left of the list does not name `a` again
      have others : ∀ b ∈ as, decide (b ∉ (r.takeIn a).axioms) = decide (b ∉ r.axioms) := by
        intro b hb
        have ne : b ≠ a := fun e => once (e ▸ hb)
        simp only [takeIn, SortedSet.mem_insert, ne, false_or]
      rw [List.filter_congr others]

/-- The axioms that a list of removals takes back are those that are held. -/
theorem removeAll_count (as : List Axiom) : ∀ {r : Reasoner}, as.Nodup →
    (r.removeAll as).2 = (as.filter fun a => decide (a ∈ r.axioms)).length := by
  induction as with
  | nil => intro r _; rfl
  | cons a as ih =>
    intro r distinct
    obtain ⟨once, distinct⟩ := List.nodup_cons.1 distinct
    by_cases ha : a ∈ r.axioms
    · rw [removeAll_held ha, List.filter_cons_of_pos (by simpa using ha), List.length_cons,
        ih distinct]
      have others : ∀ b ∈ as, decide (b ∈ (r.takeBack a).axioms) = decide (b ∈ r.axioms) := by
        intro b hb
        have ne : b ≠ a := fun e => once (e ▸ hb)
        simp only [takeBack, SortedSet.mem_erase, ne, ne_eq, not_false_eq_true, and_true]
      rw [List.filter_congr others]
    · rw [removeAll_absent ha, List.filter_cons_of_neg (by simpa using ha)]
      exact ih distinct

/-! ## A whole batch -/

section

variable (r : Reasoner) (additions removals : List Axiom)

/-- **A batch** changes nothing at all, or forgets the bit and counts as one more revision. -/
theorem apply_cases :
    let r' := ((r.addAll additions).1.removeAll removals).1
    (r' = r ∧ (r.apply additions removals).1 = r) ∨
      (r.apply additions removals).1 =
        { r' with consistent := none, revision := r.revision + 1 } := by
  obtain ⟨-, -, -, unchanged⟩ := addAll_spec additions r
  obtain ⟨-, -, -, unchanged'⟩ := removeAll_spec removals (r.addAll additions).1
  unfold Reasoner.apply Change.effective
  by_cases some_change :
      (r.addAll additions).2 + ((r.addAll additions).1.removeAll removals).2 > 0
  · refine .inr ?_
    simp only [some_change, decide_true, if_true]
  · -- nothing was new and nothing was there: it is the reasoner it was, bit and all
    have same : ((r.addAll additions).1.removeAll removals).1 = r := by
      rw [unchanged' (by omega), unchanged (by omega)]
    refine .inl ⟨same, ?_⟩
    simp only [some_change, decide_false, Bool.false_eq_true, if_false, same]

theorem apply_ontology : (r.apply additions removals).1.ontology = r.ontology := by
  rcases r.apply_cases additions removals with ⟨-, unchanged⟩ | changed
  · rw [unchanged]
  · rw [changed]
    exact (removeAll_spec removals _).1.trans (addAll_spec additions r).1

/-- A batch leaves the axioms that it says. -/
theorem apply_axioms : (r.apply additions removals).1.axioms =
    Request.change r.axioms (.apply additions removals) := by
  have held : ((r.addAll additions).1.removeAll removals).1.axioms =
      Request.change r.axioms (.apply additions removals) := by
    rw [(removeAll_spec removals _).2.2.1, (addAll_spec additions r).2.2.1]
    rfl
  rcases r.apply_cases additions removals with ⟨same, unchanged⟩ | changed
  · rw [unchanged, ← held, same]
  · rw [changed, ← held]

end

/-- **A batch of two sets** counts the additions that were not held and the removals that then
were, and is a revision if it counts anything. -/
theorem apply_counts (r : Reasoner) (additions removals : AxiomSet) :
    let made := r.apply additions.toList removals.toList
    made.2.added = (additions.sdiff r.axioms).size ∧
      made.2.removed = (removals.inter (r.axioms ∪ additions)).size ∧
      made.1.revision = r.revision + if made.2.effective then 1 else 0 := by
  obtain ⟨-, revision, axioms, -⟩ := addAll_spec additions.toList r
  obtain ⟨-, revision', -, -⟩ := removeAll_spec removals.toList (r.addAll additions.toList).1
  rw [SortedSet.ofList_toList] at axioms
  have added := addAll_count additions.toList (r := r) additions.nodup
  have removed := removeAll_count removals.toList (r := (r.addAll additions.toList).1)
    removals.nodup
  rw [axioms] at removed
  unfold Reasoner.apply
  dsimp only
  split
  · exact ⟨added, removed, rfl⟩
  · exact ⟨added, removed, revision'.trans revision⟩

/-! ## What a request keeps -/

/-- A sound engine may go by what it remembers of its consistency. -/
theorem isConsistent_of_sound {r : Reasoner} (h : r.Sound) :
    r.isConsistent = r.taxonomy.isConsistent := by
  unfold isConsistent
  cases hb : r.consistent with
  | none => rfl
  | some b => exact h.consistent b hb

/-- Settling whether the axioms are consistent changes none of them. -/
theorem settle_axioms (r : Reasoner) : r.settle.axioms = r.axioms := by
  unfold settle
  split <;> rfl

theorem settle_ontology (r : Reasoner) : r.settle.ontology = r.ontology := by
  unfold settle
  split <;> rfl

theorem settle_revision (r : Reasoner) : r.settle.revision = r.revision := by
  unfold settle
  split <;> rfl

/-- Preparing for an expression changes no axiom. -/
theorem prepare_axioms (r : Reasoner) (e : ClassExpression) : (r.prepare e).axioms = r.axioms :=
  settle_axioms r

theorem prepare_ontology (r : Reasoner) (e : ClassExpression) :
    (r.prepare e).ontology = r.ontology := settle_ontology r

/-- The bit that settling sets is read off the taxonomy. -/
theorem settle_consistent {r : Reasoner} (h : r.consistent = none) :
    r.settle.consistent = some r.settle.taxonomy.isConsistent := by
  unfold settle
  rw [h]
  simp only [isConsistent, remember, h, Option.getD_none]

namespace Sound

variable {r : Reasoner}

/-- Other memoised closures leave a reasoner sound. -/
theorem with_taxonomy (h : r.Sound) {t : Taxonomy} (faithful : t.Faithful r.axioms) :
    Sound { r with taxonomy := t } where
  taxonomy := faithful
  consistent b hb := (h.consistent b hb).trans (h.taxonomy.agrees faithful).isConsistent_eq

/-- What is remembered may be any classes. -/
theorem remember (h : r.Sound) (cs : List ClassName) : (r.remember cs).Sound :=
  h.with_taxonomy (h.taxonomy.rememberAll cs)

/-- Classification keeps an engine sound. -/
theorem classify (h : r.Sound) : r.classify.Sound := h.with_taxonomy h.taxonomy.classify

/-- Settling whether the axioms are consistent keeps a reasoner sound. -/
theorem settle (h : r.Sound) : r.settle.Sound := by
  cases hb : r.consistent with
  | some b =>
    have same : r.settle = r := by
      unfold Reasoner.settle
      rw [hb]
    rw [same]
    exact h
  | none =>
    have bit := settle_consistent hb
    constructor
    · unfold Reasoner.settle
      rw [hb]
      exact h.taxonomy.rememberAll _
    · intro b hb'
      exact Option.some.inj (hb'.symm.trans bit)

/-- Preparing for an expression keeps a reasoner sound. -/
theorem prepare (h : r.Sound) (e : ClassExpression) : (r.prepare e).Sound := h.settle.remember _

/-- **A batch keeps an engine sound**, and changes its axioms as it says. -/
theorem apply (h : r.Sound) (additions removals : List Axiom) :
    (r.apply additions removals).1.Sound ∧
      (r.apply additions removals).1.ontology = r.ontology ∧
      (r.apply additions removals).1.axioms =
        Request.change r.axioms (.apply additions removals) := by
  have faithful := removeAll_faithful removals (addAll_faithful additions h.taxonomy)
  refine ⟨?_, apply_ontology r additions removals, apply_axioms r additions removals⟩
  rcases r.apply_cases additions removals with ⟨-, unchanged⟩ | changed
  · rw [unchanged]
    exact h
  · rw [changed]
    exact ⟨faithful, fun b hb => by cases hb⟩

/-- An engine that was let go of is one without axioms. -/
theorem dispose (_ : r.Sound) : r.dispose.Sound where
  taxonomy := Taxonomy.faithful_empty
  consistent _ hb := by cases hb

/-- **Every request** keeps a sound reasoner sound, and changes its axioms by set algebra. -/
theorem serve (h : r.Sound) (q : Request) :
    (r.serve q).2.Sound ∧ (r.serve q).2.ontology = r.ontology ∧
      (r.serve q).2.axioms = q.change r.axioms := by
  cases q with
  | apply additions removals => exact h.apply additions removals
  | classify => exact ⟨h.classify, rfl, rfl⟩
  | dispose => exact ⟨h.dispose, rfl, rfl⟩
  | consistent => exact ⟨h.settle, settle_ontology r, settle_axioms r⟩
  | satisfiable e => exact ⟨h.prepare e, prepare_ontology r e, prepare_axioms r e⟩
  | entailed a => exact ⟨h.prepare _, prepare_ontology r _, prepare_axioms r _⟩
  | query kind e => exact ⟨h.settle.classify, settle_ontology r, settle_axioms r⟩

/-- **The revision** tells a request that changed the axioms: it grows, or they are what they
were. To dispose of the axioms is no change that is counted. -/
theorem serve_revision (_ : r.Sound) {q : Request} (kept : q ≠ .dispose) :
    r.revision < (r.serve q).2.revision ∨
      (r.serve q).2.revision = r.revision ∧ (r.serve q).2.axioms = r.axioms := by
  cases q with
  | apply additions removals =>
    show r.revision < (r.apply additions removals).1.revision ∨
      (r.apply additions removals).1.revision = r.revision ∧
        (r.apply additions removals).1.axioms = r.axioms
    rcases r.apply_cases additions removals with ⟨-, unchanged⟩ | changed
    · rw [unchanged]
      exact .inr ⟨rfl, rfl⟩
    · rw [changed]
      exact .inl (Nat.lt_succ_self _)
  | dispose => exact absurd rfl kept
  | classify => exact .inr ⟨rfl, rfl⟩
  | consistent => exact .inr ⟨settle_revision r, settle_axioms r⟩
  | satisfiable e => exact .inr ⟨settle_revision r, settle_axioms r⟩
  | entailed a => exact .inr ⟨settle_revision r, settle_axioms r⟩
  | query kind e => exact .inr ⟨settle_revision r, settle_axioms r⟩

/-- **A whole history** keeps it sound. -/
theorem after (history : List Request) : ∀ {r : Reasoner}, r.Sound →
    (r.after history).Sound ∧ (r.after history).ontology = r.ontology ∧
      (r.after history).axioms = history.foldl Request.change r.axioms := by
  induction history with
  | nil => intro r h; exact ⟨h, rfl, rfl⟩
  | cons q history ih =>
    intro r h
    obtain ⟨sound, name, axioms⟩ := h.serve q
    obtain ⟨sound', name', axioms'⟩ := ih sound
    refine ⟨sound', name'.trans name, axioms'.trans ?_⟩
    rw [axioms, List.foldl_cons]

end Sound

/-! ## What a reply depends on -/

/-- **Two reasoners are alike**: sound, of one name, with the same axioms. -/
structure Alike (r s : Reasoner) : Prop where
  left : r.Sound
  right : s.Sound
  ontology : r.ontology = s.ontology
  axioms : r.axioms = s.axioms

namespace Alike

variable {r s : Reasoner}

/-- Alike engines have taxonomies that agree. -/
theorem agrees (h : r.Alike s) : r.taxonomy.Agrees s.taxonomy :=
  h.left.taxonomy.agrees (h.axioms ▸ h.right.taxonomy)

/-- Alike engines find out the same about consistency. -/
theorem settle (h : r.Alike s) : r.settle.Alike s.settle where
  left := h.left.settle
  right := h.right.settle
  ontology := (settle_ontology r).trans (h.ontology.trans (settle_ontology s).symm)
  axioms := (settle_axioms r).trans (h.axioms.trans (settle_axioms s).symm)

/-- Alike engines are alike when both are classified. -/
theorem classify (h : r.Alike s) : r.classify.Alike s.classify :=
  ⟨h.left.classify, h.right.classify, h.ontology, h.axioms⟩

/-- Alike engines are alike whatever classes each of them remembers. -/
theorem remember (h : r.Alike s) (cs ds : List ClassName) :
    (r.remember cs).Alike (s.remember ds) :=
  ⟨h.left.remember cs, h.right.remember ds, h.ontology, h.axioms⟩

/-- Alike engines are alike when both are prepared. -/
theorem prepare (h : r.Alike s) (e : ClassExpression) : (r.prepare e).Alike (s.prepare e) :=
  h.settle.remember _ _

/-- Alike engines are both consistent or both not. -/
theorem isConsistent_eq (h : r.Alike s) : r.isConsistent = s.isConsistent := by
  rw [isConsistent_of_sound h.left, isConsistent_of_sound h.right, h.agrees.isConsistent_eq]

/-- Alike engines find the same expressions satisfiable. -/
theorem isSatisfiable_eq (h : r.Alike s) (e : ClassExpression) :
    r.isSatisfiable e = s.isSatisfiable e := by
  unfold isSatisfiable
  rw [h.isConsistent_eq, h.agrees.canHold_eq]

/-- Alike engines find the same axioms entailed. -/
theorem isEntailed_eq (h : r.Alike s) (a : Axiom) : r.isEntailed a = s.isEntailed a := by
  unfold isEntailed
  rw [h.isSatisfiable_eq]

/-- Alike engines answer the same to a query. -/
theorem query_eq (h : r.Alike s) (kind : QueryKind) (e : Entity) :
    r.query kind e = s.query kind e := by
  unfold query
  rw [h.isConsistent_eq, h.ontology, h.agrees.hasClass_eq, h.agrees.classQuery_eq,
    h.agrees.hasIndividual_eq, h.agrees.typeQuery_eq]

/-- Alike engines list the same individuals. -/
theorem individuals_eq (h : r.Alike s) : r.individuals = s.individuals :=
  h.agrees.individuals_eq

/-- **Reasoners that are alike** reply alike. -/
theorem reply_eq (h : r.Alike s) (q : Request) : (r.serve q).1 = (s.serve q).1 := by
  cases q with
  | apply additions removals =>
    obtain ⟨added, axioms⟩ := addAll_congr additions h.axioms
    have removed := removeAll_congr removals axioms
    have replied : ∀ t : Reasoner, (t.serve (.apply additions removals)).1 = .change
        ⟨(t.addAll additions).2, ((t.addAll additions).1.removeAll removals).2⟩ := by
      intro t
      unfold serve Reasoner.apply
      dsimp only
      split <;> rfl
    rw [replied, replied, added, removed]
  | classify => rfl
  | dispose => rfl
  | consistent => exact congrArg Reply.truth h.settle.isConsistent_eq
  | satisfiable e => exact congrArg (Reply.ofExcept _) ((h.prepare e).isSatisfiable_eq e)
  | entailed a => exact congrArg (Reply.ofExcept _) ((h.prepare _).isEntailed_eq a)
  | query kind e => exact congrArg (Reply.ofExcept _) (h.settle.classify.query_eq kind e)

end Alike

/-! ## What is built from valid axioms -/

/-- The request adds no axiom that has a defect. -/
def Request.Valid : Request → Prop
  | .apply additions _ => ∀ a ∈ additions, a.Valid
  | .classify | .dispose | .consistent | .satisfiable _ | .entailed _ | .query _ _ => True

/-- **A reasoner built from valid axioms**: a new one, and what a request leaves of a built one as
long as it adds valid axioms only. -/
inductive Built : Reasoner → Prop where
  | new (ontology : String) : Built (new ontology)
  | serve {r : Reasoner} {q : Request} : r.Built → q.Valid → Built (r.serve q).2

/-- What is built is sound and holds valid axioms. -/
theorem built_invariant {r : Reasoner} (h : r.Built) : r.Sound ∧ ∀ a ∈ r.axioms, a.Valid := by
  induction h with
  | new ontology => exact ⟨sound_new ontology, fun a ha => absurd ha (SortedSet.not_mem_empty a)⟩
  | @serve r q _ valid ih =>
    obtain ⟨sound, held⟩ := ih
    obtain ⟨sound', -, axioms⟩ := sound.serve q
    refine ⟨sound', fun a ha => ?_⟩
    rw [axioms] at ha
    cases q with
    | apply additions removals =>
      simp only [Request.change, SortedSet.mem_sdiff, SortedSet.mem_union,
        SortedSet.mem_ofList] at ha
      rcases ha.1 with ha | ha
      · exact held a ha
      · exact valid a ha
    | dispose => exact absurd ha (SortedSet.not_mem_empty a)
    | classify => exact held a ha
    | consistent => exact held a ha
    | satisfiable e => exact held a ha
    | entailed b => exact held a ha
    | query kind e => exact held a ha

/-- What is accepted are the valid axioms. -/
theorem validate_eq_ok_iff {a : Axiom} : a.validate = .ok () ↔ a.Valid := by
  unfold Axiom.validate Axiom.Valid
  cases a.defect? with
  | none => exact ⟨fun _ => rfl, fun _ => rfl⟩
  | some d => exact ⟨fun h => (by cases h), fun h => (by cases h)⟩

/-- Valid axioms are let in. -/
theorem validateAll_eq_ok : ∀ {axioms : List Axiom}, (∀ a ∈ axioms, a.Valid) →
    Axiom.validateAll axioms = .ok ()
  | [], _ => rfl
  | a :: as, valid => by
    rw [Axiom.validateAll, validate_eq_ok_iff.2 (valid a (List.mem_cons_self ..))]
    exact validateAll_eq_ok fun b hb => valid b (List.mem_cons_of_mem _ hb)

/-- A list is refused by its first defective axiom. -/
theorem validateAll_eq_error {before rest : List Axiom} {a : Axiom} {d : Axiom.Defect}
    (first : ∀ b ∈ before, b.Valid) (defective : a.defect? = some d) :
    Axiom.validateAll (before ++ a :: rest) = .error (.malformedAxiom a.render d.message) := by
  induction before with
  | nil =>
    show Axiom.validateAll (a :: rest) = _
    unfold Axiom.validateAll Axiom.validate
    rw [defective]
  | cons b before ih =>
    have valid := validate_eq_ok_iff.2 (first b (List.mem_cons_self ..))
    rw [List.cons_append, Axiom.validateAll, valid]
    exact ih fun c hc => first c (List.mem_cons_of_mem _ hc)

/-- A list is let in, or it has a first defective axiom. -/
theorem valid_or_first_defect (as : List Axiom) : (∀ a ∈ as, a.Valid) ∨
    ∃ before a rest d, as = before ++ a :: rest ∧ (∀ b ∈ before, b.Valid) ∧ a.defect? = some d := by
  induction as with
  | nil => exact .inl fun a ha => absurd ha List.not_mem_nil
  | cons a as ih =>
    cases ha : a.defect? with
    | some d =>
      exact .inr ⟨[], a, as, d, rfl, fun b hb => absurd hb List.not_mem_nil, ha⟩
    | none =>
      rcases ih with valid | ⟨before, b, rest, d, rfl, first, hb⟩
      · exact .inl (List.forall_mem_cons.2 ⟨ha, valid⟩)
      · exact .inr ⟨a :: before, b, rest, d, rfl, List.forall_mem_cons.2 ⟨ha, first⟩, hb⟩

/-- **Valid axioms give an engine** that is built and holds them. -/
theorem ofAxioms_built (ontology : String) {axioms : List Axiom} (valid : ∀ a ∈ axioms, a.Valid) :
    ∃ r, ofAxioms ontology axioms = .ok r ∧ r.Built ∧ r.ontology = ontology ∧
      ∀ a, a ∈ r.axioms ↔ a ∈ axioms := by
  obtain ⟨-, name, held⟩ := (sound_new ontology).apply axioms []
  refine ⟨((new ontology).apply axioms []).1, ?_, ?_, name, fun a => ?_⟩
  · rw [ofAxioms, validateAll_eq_ok valid]
  · exact .serve (q := .apply axioms []) (.new ontology) valid
  · rw [held]
    simp only [Request.change, new, SortedSet.mem_sdiff, SortedSet.mem_union, SortedSet.mem_ofList,
      SortedSet.not_mem_empty, List.not_mem_nil, false_or, not_false_eq_true, and_true]

/-- An engine that took a set of axioms in at once holds that set. -/
theorem apply_new (ontology : String) (axioms : AxiomSet) :
    ((new ontology).apply axioms.toList []).1.Sound ∧
      ((new ontology).apply axioms.toList []).1.ontology = ontology ∧
      ((new ontology).apply axioms.toList []).1.axioms = axioms := by
  obtain ⟨sound, name, held⟩ := (sound_new ontology).apply axioms.toList []
  refine ⟨sound, name, held.trans (SortedSet.ext fun a => ?_)⟩
  simp only [Request.change, new, SortedSet.mem_sdiff, SortedSet.mem_union, SortedSet.mem_ofList,
    SortedSet.not_mem_empty, List.not_mem_nil, false_or, not_false_eq_true, and_true]
  exact Iff.rfl

/-- **Incremental equals from scratch.** After any history of changes and reads, the axioms held
are those that the changes make of none, every request is given the reply that a new engine over
these axioms gives, and the individuals are the same. -/
theorem reply_after_eq_reply_fresh (ontology : String) (history : List Request) :
    let r := (new ontology).after history
    let fresh := ((new ontology).apply r.axioms.toList []).1
    r.axioms = history.foldl Request.change ∅ ∧
      (∀ q, (r.serve q).1 = (fresh.serve q).1) ∧ r.individuals = fresh.individuals := by
  intro r fresh
  obtain ⟨sound, name, axioms⟩ := Sound.after history (sound_new ontology)
  obtain ⟨sound', name', axioms'⟩ := apply_new ontology r.axioms
  have alike : r.Alike fresh := ⟨sound, sound', name.trans name'.symm, axioms'.symm⟩
  exact ⟨axioms, alike.reply_eq, alike.individuals_eq⟩

end Reasoner

end OntologyService
