import OntologyService.Proofs.Taxonomy.Hierarchy

/-!
# What a taxonomy represents

A taxonomy comes from the empty one by taking axioms in and back and by reading (`Told`). At every
point of such a history it represents the axioms that are present: `Represents` says so index by
index, with each count as a number of axioms and each memoised closure as the classes that the
edges lead to.

What a change evicts is a law of a single edge, in any taxonomy at all: the closures that hold its
lower class, and only if the edge appears or disappears (`EvictsAt`). It is the trimming of `Memo`,
read at the one edge that can have changed.
-/

namespace OntologyService

/-! ## What an axiom supports -/

namespace Axiom

variable {a : Axiom} {c d : ClassName} {i : IndividualName}

/-- The axiom states outright that one class is below another. -/
def Places (c d : ClassName) : Axiom → Prop
  | subClassOf sub sup => c = sub ∧ d = sup
  | equivalentClasses cs => c ∈ cs ∧ d ∈ cs ∧ d ≠ c
  | disjointClasses _ | classAssertion _ _ => False

/-- The axiom states outright that two classes are disjoint. -/
def Opposes (c d : ClassName) : Axiom → Prop
  | disjointClasses cs => c ∈ cs ∧ d ∈ cs ∧ d ≠ c
  | subClassOf _ _ | equivalentClasses _ | classAssertion _ _ => False

/-- The edges of an axiom are the classes it places one below another. -/
theorem mem_edges : (c, d) ∈ a.edges ↔ a.Places c d := by
  cases a with
  | subClassOf sub sup => exact List.mem_singleton.trans Prod.mk_inj
  | equivalentClasses cs => exact mem_distinctPairs
  | disjointClasses cs => exact iff_of_false List.not_mem_nil id
  | classAssertion cls individual => exact iff_of_false List.not_mem_nil id

/-- The conflicts of an axiom are the classes it opposes. -/
theorem mem_conflicts : (c, d) ∈ a.conflicts ↔ a.Opposes c d := by
  cases a with
  | subClassOf sub sup => exact iff_of_false List.not_mem_nil id
  | equivalentClasses cs => exact iff_of_false List.not_mem_nil id
  | disjointClasses cs => exact mem_distinctPairs
  | classAssertion cls individual => exact iff_of_false List.not_mem_nil id

instance : Decidable (a.Places c d) := decidable_of_iff _ mem_edges

instance : Decidable (a.Opposes c d) := decidable_of_iff _ mem_conflicts

/-- Opposition is symmetric. -/
theorem Opposes.symm (h : a.Opposes c d) : a.Opposes d c := by
  cases a with
  | disjointClasses cs => exact ⟨h.2.1, h.1, h.2.2.symm⟩
  | subClassOf sub sup => exact h
  | equivalentClasses cs => exact h
  | classAssertion cls individual => exact h

/-- Distinct classes make distinct pairs. -/
theorem distinctPairs_nodup {cs : List ClassName} (distinct : cs.Nodup) :
    (distinctPairs cs).Nodup := by
  refine List.nodup_flatMap.2 ⟨fun c _ => ?_, distinct.imp fun {c d} ne => ?_⟩
  · exact (distinct.filter _).map fun _ _ same => (Prod.mk.inj same).2
  · intro p hp hp'
    obtain ⟨b, _, rfl⟩ := List.mem_map.1 hp
    obtain ⟨b', _, same⟩ := List.mem_map.1 hp'
    exact ne (Prod.mk.inj same).1.symm

/-- An axiom supports an edge once. -/
theorem edges_nodup (a : Axiom) : a.edges.Nodup := by
  cases a with
  | subClassOf sub sup => exact List.nodup_singleton _
  | equivalentClasses cs => exact distinctPairs_nodup cs.nodup
  | disjointClasses cs => exact List.nodup_nil
  | classAssertion cls individual => exact List.nodup_nil

/-- An axiom states each of its conflicts once. -/
theorem conflicts_nodup (a : Axiom) : a.conflicts.Nodup := by
  cases a with
  | subClassOf sub sup => exact List.nodup_nil
  | equivalentClasses cs => exact List.nodup_nil
  | disjointClasses cs => exact distinctPairs_nodup cs.nodup
  | classAssertion cls individual => exact List.nodup_nil

/-- It states each of its memberships once. -/
theorem memberships_nodup (a : Axiom) : a.memberships.Nodup := by
  cases a with
  | subClassOf sub sup => exact List.nodup_nil
  | equivalentClasses cs => exact List.nodup_nil
  | disjointClasses cs => exact List.nodup_nil
  | classAssertion cls individual => exact List.nodup_singleton _

end Axiom

/-! ## Counts -/

/-- Where each axiom states a fact at most once, the fact is counted as often as there are axioms
that state it. -/
theorem count_flatMap_eq {φ : Type} [BEq φ] [LawfulBEq φ] {f : Axiom → List φ} {fact : φ}
    {p : Axiom → Prop} [DecidablePred p] (axioms : AxiomSet) (once : ∀ a, (f a).Nodup)
    (states : ∀ a, fact ∈ f a ↔ p a) :
    (axioms.toList.flatMap f).count fact = (axioms.filter fun a => decide (p a)).size := by
  rw [SortedSet.size, show (axioms.filter fun a => decide (p a)).toList
    = axioms.toList.filter fun a => decide (p a) from rfl]
  induction axioms.toList with
  | nil => rfl
  | cons a as ih =>
    rw [List.flatMap_cons, List.count_append, ih, List.filter_cons]
    by_cases here : p a
    · rw [List.count_eq_one_of_mem (once a) ((states a).2 here), if_pos (decide_eq_true here),
        List.length_cons, Nat.add_comm]
    · rw [List.count_eq_zero_of_not_mem fun stated => here ((states a).1 stated),
        if_neg (by rwa [decide_eq_true_eq]), Nat.zero_add]

namespace Links

variable {κ : Type} [DecidableEq κ] {facts : List (κ × ClassName)}

/-- A row counts what the facts say of its key. -/
theorem count_row (k : κ) (c : ClassName) (facts : List (κ × ClassName)) :
    (row k facts).count c = facts.count (k, c) := by
  induction facts with
  | nil => rfl
  | cons p facts ih =>
    obtain ⟨k', c'⟩ := p
    by_cases e : k' = k
    · subst e
      rw [row_cons_self, List.count_cons, List.count_cons, ih]
      congr 1
      simp only [beq_iff_eq, Prod.mk.injEq, true_and]
    · rw [row_cons_of_ne (Ne.symm e), ih, List.count_cons_of_ne fun same => e (Prod.mk.inj same).1]

/-- A link has as many supports as it is stated. -/
theorem Counts.supports [Ranked κ] {ls : Links κ} (h : ls.Counts facts) (k : κ) (c : ClassName) :
    (ls.tally k).supportsOf c = facts.count (k, c) :=
  ((h.tally k).supports c).trans (count_row k c facts)

end Links

namespace Taxonomy

variable {t u : Taxonomy} {axioms : AxiomSet} {a : Axiom}

/-! ## Histories -/

/-- **A taxonomy that was told the axioms**: the empty one, and what it becomes by taking in an
axiom that is not present, by taking back one that is, and by the reads that fill the memo. The
classes that a read comes to are met in any order. -/
inductive Told : Taxonomy → AxiomSet → Prop
  | empty : Told {} ∅
  | insert {t : Taxonomy} {axioms : AxiomSet} {a : Axiom} (h : Told t axioms) (new : a ∉ axioms) :
    Told (t.insert a) (axioms.insert a)
  | remove {t : Taxonomy} {axioms : AxiomSet} {a : Axiom} (h : Told t axioms)
    (held : a ∈ axioms) : Told (t.remove a) (axioms.erase a)
  | closure {t : Taxonomy} {axioms : AxiomSet} (h : Told t axioms) (c : ClassName) :
    Told (t.remember c) axioms
  | types {t : Taxonomy} {axioms : AxiomSet} (h : Told t axioms) (i : IndividualName)
    {cs : List ClassName} (order : cs.Perm (t.asserted.targets i)) :
    Told (t.rememberAll (ClassName.thing :: cs)) axioms
  | classify {t : Taxonomy} {axioms : AxiomSet} (h : Told t axioms) {cs : List ClassName}
    (order : cs.Perm t.classes.toList) : Told (t.rememberAll cs) axioms

/-- A taxonomy that was told the axioms is faithful to them. -/
theorem faithful_of_told (h : Told t axioms) : t.Faithful axioms := by
  induction h with
  | empty => exact faithful_empty
  | insert _ new ih => exact ih.insert new
  | remove _ held ih => exact ih.remove held
  | closure _ c ih => exact ih.remember c
  | types _ i order ih => exact ih.rememberAll _
  | classify _ order ih => exact ih.rememberAll _

/-! ## What the axioms account for -/

/-- **The taxonomy represents the axioms.** An edge, a disjoint pair and a membership are counted
once for each axiom that states it, and a class as often as the axioms have it; what is not
supported is not kept. Disjointness is symmetric, and a memoised closure holds what the edges lead
to from its class and from `owl:Thing`. -/
structure Represents (t : Taxonomy) (axioms : AxiomSet) : Prop where
  supers : ∀ c d, (t.supers.tally c).supportsOf d
    = (axioms.filter fun a => decide (a.Places c d)).size
  disjoint : ∀ c d, (t.disjoint.tally c).supportsOf d
    = (axioms.filter fun a => decide (a.Opposes c d)).size
  asserted : ∀ i c, (t.asserted.tally i).supportsOf c
    = (axioms.filter fun a => decide (a = .classAssertion c i)).size
  inUse : ∀ c, t.inUse.supportsOf c = (axioms.toList.map fun a => a.classes.count c).sum
  supported : ∀ c d i, (t.supers.tally c).get? d ≠ some 0 ∧ (t.disjoint.tally c).get? d ≠ some 0 ∧
    (t.asserted.tally i).get? c ≠ some 0 ∧ t.inUse.get? c ≠ some 0
  filled : ∀ c i, t.supers.get? c ≠ some ∅ ∧ t.disjoint.get? c ≠ some ∅ ∧
    t.asserted.get? i ≠ some ∅
  symmetric : ∀ c d, (t.disjoint.tally c).get? d = (t.disjoint.tally d).get? c
  memo : ∀ c known, t.closures.get? c = some known →
    ∀ d, d ∈ known ↔ t.supers.Leads c d ∨ t.supers.Leads ClassName.thing d

/-- A faithful taxonomy represents its axioms. -/
theorem Faithful.represents (h : t.Faithful axioms) : t.Represents axioms := by
  have opposed (c d : ClassName) : (t.disjoint.tally c).supportsOf d
      = (axioms.filter fun a => decide (a.Opposes c d)).size :=
    (h.tells.disjoint.supports c d).trans
      (count_flatMap_eq axioms Axiom.conflicts_nodup fun _ => Axiom.mem_conflicts)
  exact {
    supers := fun c d => (h.tells.supers.supports c d).trans
      (count_flatMap_eq axioms Axiom.edges_nodup fun _ => Axiom.mem_edges)
    disjoint := opposed
    asserted := fun i c => (h.tells.asserted.supports i c).trans
      (count_flatMap_eq axioms Axiom.memberships_nodup fun _ => Axiom.mem_memberships)
    inUse := fun c => (h.tells.inUse.supports c).trans List.count_flatMap
    supported := fun c d i => ⟨(h.tells.supers.tally c).positive d,
      (h.tells.disjoint.tally c).positive d, (h.tells.asserted.tally i).positive c,
      h.tells.inUse.positive c⟩
    filled := fun c i => ⟨h.tells.supers.filled c, h.tells.disjoint.filled c,
      h.tells.asserted.filled i⟩
    symmetric := by
      intro c d
      have same : (t.disjoint.tally c).supportsOf d = (t.disjoint.tally d).supportsOf c := by
        rw [opposed, opposed]
        congr 2
        funext a
        rw [decide_eq_decide]
        exact ⟨Axiom.Opposes.symm, Axiom.Opposes.symm⟩
      rw [(h.tells.disjoint.tally c).get?_eq, (h.tells.disjoint.tally d).get?_eq,
        ← (h.tells.disjoint.tally c).supports, ← (h.tells.disjoint.tally d).supports, same]
    memo := by
      intro c known held d
      rw [h.recalls c known held, mem_reach] }

/-! ## What an edge evicts -/

/-- **Eviction at an edge**: of the closures there were, just those go that hold the lower class of
the edge, and only if the edge appeared or disappeared. -/
def EvictsAt (t u : Taxonomy) (e : ClassName × ClassName) : Prop :=
  ∀ c known, u.closures.get? c = some known ↔ t.closures.get? c = some known ∧
    (u.supers.linked e.1 e.2 ≠ t.supers.linked e.1 e.2 → e.1 ∉ known)

/-- A trimming between taxonomies that differ in one edge at most evicts at that edge. -/
theorem Trims.evictsAt {e : ClassName × ClassName} (trims : t.Trims u)
    (other : ∀ b d, (b, d) ≠ e → u.supers.linked b d = t.supers.linked b d) :
    t.EvictsAt u e := by
  intro c known
  rw [trims c known]
  refine and_congr_right fun _ => ⟨fun avoids here => avoids e.1 ⟨e.2, here⟩, fun avoids b h => ?_⟩
  by_cases here : u.supers.linked e.1 e.2 = t.supers.linked e.1 e.2
  · obtain ⟨d, changed⟩ := h
    by_cases same : (b, d) = e
    · exact absurd here (same ▸ changed)
    · exact absurd (other b d same) changed
  · obtain rfl := (changed_iff other here b).1 h
    exact avoids here

/-- Adding an edge evicts at the edge. -/
theorem evictsAt_addEdge (t : Taxonomy) (e : ClassName × ClassName) :
    t.EvictsAt (t.addEdge e) e := by
  refine (trims_addEdge t e).evictsAt fun b d ne => ?_
  rw [supers_addEdge]
  exact Links.linked_support_of_ne ne _

/-- So does removing one. -/
theorem evictsAt_removeEdge (t : Taxonomy) (e : ClassName × ClassName) :
    t.EvictsAt (t.removeEdge e) e := by
  refine (trims_removeEdge t e).evictsAt fun b d ne => ?_
  rw [supers_removeEdge]
  exact Links.linked_retract_of_ne ne _

/-- Reading evicts nothing. -/
theorem get?_rememberAll {c : ClassName} {known : ClassSet} (cs : List ClassName) :
    ∀ {t : Taxonomy}, t.closures.get? c = some known →
      (t.rememberAll cs).closures.get? c = some known := by
  induction cs with
  | nil => exact fun held => held
  | cons d cs ih =>
    intro t held
    refine ih (t := t.remember d) ?_
    by_cases same : c = d
    · subst same
      rw [remember, Table.get?_insert_self, closure, held]
    · rw [remember, Table.get?_insert_of_ne same, held]

/-- **What holds of a taxonomy after any history.** It represents the axioms that are present. An
edge more or less evicts the closures that hold its lower class, and only if it appears or
disappears; an axiom in or back evicts the closures that hold the lower class of an edge that does;
and a read evicts none. -/
theorem represents_of_told (told : Told t axioms) :
    t.Represents axioms ∧
      (∀ (u : Taxonomy) (e : ClassName × ClassName),
        u.EvictsAt (u.addEdge e) e ∧ u.EvictsAt (u.removeEdge e) e) ∧
      (∀ a, t.Trims (t.insert a) ∧ t.Trims (t.remove a)) ∧
      ∀ cs c known, t.closures.get? c = some known →
        (t.rememberAll cs).closures.get? c = some known :=
  ⟨(faithful_of_told told).represents, fun u e => ⟨evictsAt_addEdge u e, evictsAt_removeEdge u e⟩,
    fun a => ⟨trims_insert t a, trims_remove t a⟩, fun cs _ _ => get?_rememberAll cs⟩

/-- The taxonomy of one axiom, after another that supports the same edge was taken back. -/
def shared : Taxonomy :=
  ((({} : Taxonomy).insert (.subClassOf ⟨"A"⟩ ⟨"B"⟩)).insert
    (.equivalentClasses (.ofList [⟨"A"⟩, ⟨"B"⟩]))).classify.remove
      (.equivalentClasses (.ofList [⟨"A"⟩, ⟨"B"⟩]))

/-- The edge stays, for the axiom that still supports it. -/
theorem represents_shared :
    Told shared (.ofList [.subClassOf ⟨"A"⟩ ⟨"B"⟩]) ∧
      Represents shared (.ofList [.subClassOf ⟨"A"⟩ ⟨"B"⟩]) :=
  have told : Told shared (.ofList [.subClassOf ⟨"A"⟩ ⟨"B"⟩]) :=
    @Told.remove _
      (.ofList [.subClassOf ⟨"A"⟩ ⟨"B"⟩, .equivalentClasses (.ofList [⟨"A"⟩, ⟨"B"⟩])]) _
      (.classify (.insert (.insert .empty (by decide +kernel)) (by decide +kernel)) (.refl _))
      (by decide +kernel)
  ⟨told, (represents_of_told told).1⟩

end Taxonomy

end OntologyService
