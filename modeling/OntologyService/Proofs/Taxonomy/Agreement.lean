import OntologyService.Proofs.Taxonomy.Memo
import OntologyService.Reasoner.Basic

/-!
# Taxonomies that answer alike

Everything read from a taxonomy is read through its closures, its disjoint pairs, its asserted
memberships and the classes in use. Two taxonomies that **agree** on these four give the same
answer to every question, one lemma for each reading function; what else they remember, and how
they came about, does not show. `Faithful.agrees` is where agreement comes from: the axioms alone
determine what a faithful taxonomy answers.
-/

namespace OntologyService

namespace Taxonomy

/-- **Two taxonomies agree** on everything that is ever read from a taxonomy. -/
structure Agrees (t u : Taxonomy) : Prop where
  closure : t.closure = u.closure
  disjoint : t.disjoint = u.disjoint
  asserted : t.asserted = u.asserted
  inUse : t.inUse = u.inUse

/-- What is faithful to the same axioms agrees. -/
theorem Faithful.agrees {t u : Taxonomy} {axioms : AxiomSet} (h : t.Faithful axioms)
    (h' : u.Faithful axioms) : t.Agrees u := by
  constructor
  · funext c
    rw [h.recalls.closure_eq, h'.recalls.closure_eq]
    refine reach_congr c fun b d => ?_
    rw [h.tells.supers.unique h'.tells.supers]
  · exact h.tells.disjoint.unique h'.tells.disjoint
  · exact h.tells.asserted.unique h'.tells.asserted
  · exact h.tells.inUse.unique h'.tells.inUse

namespace Agrees

variable {t u : Taxonomy}

/-! ## Reading the indices -/

/-- Taxonomies that agree have the same classes. -/
theorem classes_eq (h : t.Agrees u) : t.classes = u.classes := by
  unfold Taxonomy.classes
  rw [h.inUse]

theorem hasClass_eq (h : t.Agrees u) : t.hasClass = u.hasClass := by
  funext c
  unfold Taxonomy.hasClass
  rw [h.inUse]

/-- Taxonomies that agree have the same individuals. -/
theorem individuals_eq (h : t.Agrees u) : t.individuals = u.individuals := by
  unfold Taxonomy.individuals
  rw [h.asserted]

theorem hasIndividual_eq (h : t.Agrees u) : t.hasIndividual = u.hasIndividual := by
  funext i
  unfold Taxonomy.hasIndividual
  rw [h.asserted]

/-- Taxonomies that agree close the same classes off together. -/
theorem jointClosure_eq (h : t.Agrees u) : t.jointClosure = u.jointClosure := by
  funext cs
  unfold Taxonomy.jointClosure
  rw [h.closure]

/-- Taxonomies that agree give an individual the same types. -/
theorem types_eq (h : t.Agrees u) : t.types = u.types := by
  funext i
  unfold Taxonomy.types
  rw [h.jointClosure_eq, h.asserted]

/-- Taxonomies that agree find the same classes in conflict. -/
theorem isClash_eq (h : t.Agrees u) : t.isClash = u.isClash := by
  funext s
  unfold Taxonomy.isClash
  rw [h.disjoint]

/-- Taxonomies that agree find the same classes without instances. -/
theorem isSatisfiable_eq (h : t.Agrees u) : t.isSatisfiable = u.isSatisfiable := by
  funext c
  unfold Taxonomy.isSatisfiable
  rw [h.isClash_eq, h.closure]

/-- Taxonomies that agree are both consistent or both not. -/
theorem isConsistent_eq (h : t.Agrees u) : t.isConsistent = u.isConsistent := by
  unfold Taxonomy.isConsistent
  rw [h.isSatisfiable_eq, h.individuals_eq, h.isClash_eq, h.types_eq]

/-- Taxonomies that agree let the same expressions hold. -/
theorem canHold_eq (h : t.Agrees u) : Reasoner.canHold t = Reasoner.canHold u := by
  funext p
  unfold Reasoner.canHold
  rw [h.jointClosure_eq, h.types_eq, h.isClash_eq]

/-! ## Reading the hierarchy -/

/-- Taxonomies that agree have the same classes below one another. -/
theorem isBelow_eq (h : t.Agrees u) : t.isBelow = u.isBelow := by
  funext c d
  unfold Taxonomy.isBelow
  rw [h.isSatisfiable_eq, h.closure]

/-- Taxonomies that agree have the same equivalents. -/
theorem equivalents_eq (h : t.Agrees u) : t.equivalents = u.equivalents := by
  funext c
  unfold Taxonomy.equivalents
  rw [h.isSatisfiable_eq, h.closure, h.classes_eq]

/-- Taxonomies that agree make the same nodes of classes, from wherever they start. -/
theorem groupFrom_eq (h : t.Agrees u) : ∀ (cs : List ClassName) (covered : ClassSet)
    (nodes : NodeSet), t.groupFrom covered nodes cs = u.groupFrom covered nodes cs
  | [], _, _ => rfl
  | c :: cs, covered, nodes => by
    unfold groupFrom
    rw [h.equivalents_eq, h.groupFrom_eq cs, h.groupFrom_eq cs]

/-- Taxonomies that agree group classes into the same nodes. -/
theorem group_eq (h : t.Agrees u) : t.group = u.group := by
  funext cs
  exact h.groupFrom_eq cs.toList ∅ ∅

/-- Taxonomies that agree keep the same nodes as the most specific ones. -/
theorem mostSpecific_eq (h : t.Agrees u) : t.mostSpecific = u.mostSpecific := by
  funext ns
  unfold Taxonomy.mostSpecific
  rw [h.isBelow_eq]

/-- Taxonomies that agree keep the same nodes as the most general ones. -/
theorem mostGeneral_eq (h : t.Agrees u) : t.mostGeneral = u.mostGeneral := by
  funext ns
  unfold Taxonomy.mostGeneral
  rw [h.isBelow_eq]

theorem superNodes_eq (h : t.Agrees u) : t.superNodes = u.superNodes := by
  funext c
  unfold Taxonomy.superNodes
  rw [h.equivalents_eq, h.isSatisfiable_eq, h.closure, h.classes_eq, h.group_eq]

theorem subNodes_eq (h : t.Agrees u) : t.subNodes = u.subNodes := by
  funext c
  unfold Taxonomy.subNodes
  rw [h.equivalents_eq, h.isBelow_eq, h.classes_eq, h.group_eq]

theorem disjointNodes_eq (h : t.Agrees u) : t.disjointNodes = u.disjointNodes := by
  funext c
  unfold Taxonomy.disjointNodes
  rw [h.isClash_eq, h.closure, h.classes_eq, h.group_eq]

theorem instanceNodes_eq (h : t.Agrees u) : t.instanceNodes = u.instanceNodes := by
  funext c
  unfold Taxonomy.instanceNodes
  rw [h.types_eq, h.individuals_eq]

/-- **Taxonomies that agree** answer every question about a class alike. -/
theorem classQuery_eq (h : t.Agrees u) : t.classQuery = u.classQuery := by
  funext q c
  unfold Taxonomy.classQuery
  rw [h.equivalents_eq, h.superNodes_eq, h.subNodes_eq, h.mostSpecific_eq, h.mostGeneral_eq,
    h.disjointNodes_eq, h.instanceNodes_eq]

/-- **Taxonomies that agree** answer every question about an individual alike. -/
theorem typeQuery_eq (h : t.Agrees u) : t.typeQuery = u.typeQuery := by
  funext direct i
  unfold Taxonomy.typeQuery Taxonomy.typeNodes
  rw [h.mostSpecific_eq, h.group_eq, h.types_eq]

end Agrees

end Taxonomy

end OntologyService
