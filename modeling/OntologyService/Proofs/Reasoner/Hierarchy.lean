import Mathlib.Order.Interval.Finset.Basic
import OntologyService.Proofs.Reasoner.Queries
import OntologyService.Proofs.Taxonomy.Nodes

/-!
# The hierarchy of the known classes

The classes that the axioms know are preordered by what is true in every model, and there are
finitely many of them (`Known`). Every answer about the hierarchy shows the nodes of some of these
classes (`Shows`): the classes above a class are those greater than it, and the direct ones cover it
in the sense of order theory. That one class covers another reads the same from both ends, and in a
finite preorder covering classes lead to every greater one; so the laws of the direct answers are
laws of `⋖`.

**The law** (`hierarchical`) puts this in terms of the answers alone (`Hierarchical`).
-/

namespace OntologyService

/-! ## The preorder -/

/-- A class that the axioms know. -/
def Known (axioms : AxiomSet) : Type := { c : ClassName // KnowsClass axioms c }

namespace Known

variable {axioms : AxiomSet}

/-- Classes are ordered by what has no counterexample in any model. -/
instance : Preorder (Known axioms) where
  le c d := Entails axioms (.subClassOf c.1 d.1)
  le_refl _ _ _ _ hx := hx
  le_trans _ _ _ below above m hm x hx := above m hm x (below m hm x hx)

theorem le_def {c d : Known axioms} : c ≤ d ↔ Entails axioms (.subClassOf c.1 d.1) := Iff.rfl

/-- The axioms know finitely many classes. -/
instance : Finite (Known axioms) := by
  have listed : { c | KnowsClass axioms c } ⊆
      { c | c ∈ ClassName.thing :: ClassName.nothing :: axioms.toList.flatMap Axiom.classes } := by
    rintro c (same | same | ⟨a, ha, hc⟩)
    · exact List.mem_cons.2 (.inl same)
    · exact List.mem_cons_of_mem _ (List.mem_cons.2 (.inl same))
    · exact List.mem_cons_of_mem _ (List.mem_cons_of_mem _ (List.mem_flatMap.2 ⟨a, ha, hc⟩))
  exact (Set.Finite.subset (List.finite_toSet _) listed).to_subtype

noncomputable instance : LocallyFiniteOrder (Known axioms) :=
  .ofFiniteIcc fun _ _ => Set.toFinite _

end Known

namespace Reasoner

variable {r : Reasoner} {c d e : Known r.axioms} {i : IndividualName} {m n : Node} {ns : NodeSet}
  {P Q : Known r.axioms → Prop}

/-! ## Nodes -/

/-- **The node of a known class**: the known classes that have the same instances in every model,
and nothing else. -/
def IsNode (r : Reasoner) (c : Known r.axioms) (n : Node) : Prop :=
  ∀ x, x ∈ n ↔ ∃ d : Known r.axioms, x = .ofClass d.1 ∧ c ≤ d ∧ d ≤ c

/-- **The answer shows the nodes of the classes with the property**, and no others. -/
structure Shows (r : Reasoner) (ns : NodeSet) (P : Known r.axioms → Prop) : Prop where
  whole : ∀ n ∈ ns, ∃ c, r.IsNode c n
  mem_iff : ∀ c n, r.IsNode c n → (n ∈ ns ↔ P c)

/-- What shows some classes shows those that are the same. -/
theorem Shows.congr (h : r.Shows ns P) (same : ∀ d, P d ↔ Q d) : r.Shows ns Q :=
  ⟨h.whole, fun d n node => (h.mem_iff d n node).trans (same d)⟩

/-- A class of the first node lies strictly below one of the second. -/
def Under (r : Reasoner) (m n : Node) : Prop :=
  ∃ c d : Known r.axioms, .ofClass c.1 ∈ m ∧ .ofClass d.1 ∈ n ∧ c < d

/-- A class is in its node. -/
theorem IsNode.self_mem (h : r.IsNode c n) : .ofClass c.1 ∈ n := (h _).2 ⟨c, rfl, le_rfl, le_rfl⟩

/-- In the node of a class are those that compare with it both ways. -/
theorem IsNode.mem_iff (h : r.IsNode c n) : .ofClass d.1 ∈ n ↔ c ≤ d ∧ d ≤ c := by
  rw [h]
  constructor
  · rintro ⟨e, same, both⟩
    cases Subtype.ext (Entity.ofClass.inj same)
    exact both
  · exact fun both => ⟨d, rfl, both⟩

/-- Of whole nodes it does not matter which classes are compared. -/
theorem IsNode.under_iff (hm : r.IsNode c m) (hn : r.IsNode d n) : r.Under m n ↔ c < d := by
  constructor
  · rintro ⟨c', d', hc, hd, below⟩
    exact ((hm.mem_iff.1 hc).1.trans_lt below).trans_le (hn.mem_iff.1 hd).2
  · exact fun below => ⟨c, d, hm.self_mem, hn.self_mem, below⟩

/-- Nodes that share a class are the same node. -/
theorem IsNode.eq_of_le (hm : r.IsNode c m) (hn : r.IsNode d n) (cd : c ≤ d) (dc : d ≤ c) :
    m = n := by
  refine SortedSet.ext fun x => ?_
  rw [hm, hn]
  refine exists_congr fun e => and_congr_right fun _ => ?_
  exact ⟨fun h => ⟨dc.trans h.1, h.2.trans cd⟩, fun h => ⟨cd.trans h.1, h.2.trans dc⟩⟩

section

variable (sound : r.Sound) (model : Consistent r.axioms)
include sound

theorem mem_classes (c : Known r.axioms) : c.1 ∈ r.taxonomy.classes :=
  (Taxonomy.mem_classes sound.taxonomy).2 c.2

/-- Every class of the taxonomy is a known one. -/
theorem exists_known {c : ClassName} (hc : c ∈ r.taxonomy.classes) :
    ∃ d : Known r.axioms, d.1 = c :=
  ⟨⟨c, (Taxonomy.mem_classes sound.taxonomy).1 hc⟩, rfl⟩

include model

/-- The taxonomy has a class below another if every model has. -/
theorem isBelow_iff_le : r.taxonomy.isBelow c.1 d.1 = true ↔ c ≤ d := by
  rw [Taxonomy.isBelow_iff_entails sound.taxonomy model, Known.le_def]

/-- And not below it if some model has not. -/
theorem isBelow_eq_false_iff : r.taxonomy.isBelow c.1 d.1 = false ↔ ¬ c ≤ d := by
  rw [← isBelow_iff_le sound model, Bool.not_eq_true]

/-- The node of the taxonomy for a class is the node of that class. -/
theorem isNode_nodeOf (c : Known r.axioms) : r.IsNode c (r.taxonomy.nodeOf c.1) := by
  intro x
  simp only [Taxonomy.nodeOf, Node.mem_ofClasses,
    Taxonomy.mem_equivalents sound.taxonomy (mem_classes sound c)]
  constructor
  · rintro ⟨d, ⟨hd, up, down⟩, rfl⟩
    obtain ⟨d, rfl⟩ := exists_known sound hd
    exact ⟨d, rfl, (isBelow_iff_le sound model).1 up, (isBelow_iff_le sound model).1 down⟩
  · rintro ⟨d, rfl, up, down⟩
    exact ⟨d.1, ⟨mem_classes sound d, (isBelow_iff_le sound model).2 up,
      (isBelow_iff_le sound model).2 down⟩, rfl⟩

/-- There is no other node of that class. -/
theorem isNode_iff : r.IsNode c n ↔ n = r.taxonomy.nodeOf c.1 := by
  have own := isNode_nodeOf sound model c
  exact ⟨fun h => h.eq_of_le own le_rfl le_rfl, fun same => same ▸ own⟩

omit model in
/-- What holds of the classes of the taxonomy holds of those that are known. -/
theorem forall_known {p : ClassName → Prop} :
    (∀ e ∈ r.taxonomy.classes, p e) ↔ ∀ e : Known r.axioms, p e.1 := by
  constructor
  · exact fun h e => h e.1 (mem_classes sound e)
  · intro h e he
    obtain ⟨e, rfl⟩ := exists_known sound he
    exact h e

/-! ## What each answer shows -/

section

variable {p : ClassName → Prop} (names : r.taxonomy.Names ns p)
  (same : ∀ d : Known r.axioms, p d.1 ↔ P d)
include names same

/-- An answer made of nodes of known classes shows them. -/
theorem shows_of_names : r.Shows ns P where
  whole n hn := by
    obtain ⟨c, hc, rfl⟩ := names.whole n hn
    obtain ⟨c, rfl⟩ := exists_known sound hc
    exact ⟨c, isNode_nodeOf sound model c⟩
  mem_iff c n node := by
    rw [(isNode_iff sound model).1 node, names.nodeOf_mem_iff sound.taxonomy (mem_classes sound c),
      same]

/-- What is most specific in an answer has nothing of it strictly below. -/
theorem shows_mostSpecific :
    r.Shows (r.taxonomy.mostSpecific ns) fun d => P d ∧ ∀ e, P e → ¬ e < d := by
  refine shows_of_names sound model (names.mostSpecific sound.taxonomy) fun d => ?_
  simp only [forall_known sound, same, isBelow_iff_le sound model, lt_iff_le_not_ge, not_and,
    not_not]

/-- What is most general in an answer has nothing of it strictly above. -/
theorem shows_mostGeneral :
    r.Shows (r.taxonomy.mostGeneral ns) fun d => P d ∧ ∀ e, P e → ¬ d < e := by
  refine shows_of_names sound model (names.mostGeneral sound.taxonomy) fun d => ?_
  simp only [forall_known sound, same, isBelow_iff_le sound model, lt_iff_le_not_ge, not_and,
    not_not]

end

/-- The super-classes are the greater ones. -/
theorem super_iff_lt (d : Known r.axioms) :
    r.taxonomy.isBelow c.1 d.1 = true ∧ r.taxonomy.isBelow d.1 c.1 = false ↔ c < d := by
  rw [isBelow_iff_le sound model, isBelow_eq_false_iff sound model, lt_iff_le_not_ge]

/-- **The super-classes** of a class are shown by the nodes above it. -/
theorem shows_superClasses (c : Known r.axioms) :
    r.Shows (r.taxonomy.superNodes c.1) (c < ·) :=
  shows_of_names sound model (Taxonomy.names_superNodes sound.taxonomy (mem_classes sound c))
    (super_iff_lt sound model)

/-- **The direct super-classes** are those that cover the class. -/
theorem shows_directSuperClasses (c : Known r.axioms) :
    r.Shows (r.taxonomy.mostSpecific (r.taxonomy.superNodes c.1)) (c ⋖ ·) :=
  shows_mostSpecific sound model
    (Taxonomy.names_superNodes sound.taxonomy (mem_classes sound c)) (super_iff_lt sound model)

/-- The sub-classes are the smaller ones. -/
theorem sub_iff_lt (d : Known r.axioms) :
    r.taxonomy.isBelow c.1 d.1 = false ∧ r.taxonomy.isBelow d.1 c.1 = true ↔ d < c := by
  rw [and_comm, super_iff_lt sound model]

/-- **The sub-classes** of a class are shown by the nodes below it. -/
theorem shows_subClasses (c : Known r.axioms) : r.Shows (r.taxonomy.subNodes c.1) (· < c) :=
  shows_of_names sound model (Taxonomy.names_subNodes sound.taxonomy (mem_classes sound c))
    (sub_iff_lt sound model)

/-- **The direct sub-classes** are those that the class covers. -/
theorem shows_directSubClasses (c : Known r.axioms) :
    r.Shows (r.taxonomy.mostGeneral (r.taxonomy.subNodes c.1)) (· ⋖ c) := by
  have shows := shows_mostGeneral sound model
    (Taxonomy.names_subNodes sound.taxonomy (mem_classes sound c)) (sub_iff_lt sound model)
  refine shows.congr fun d => and_congr_right fun _ => forall_congr' fun e => ?_
  exact ⟨fun h up down => h down up, fun h down up => h up down⟩

/-- **The equivalents** of a class are shown by its node. -/
theorem shows_equivalentClasses (c : Known r.axioms) :
    r.Shows (r.taxonomy.classQuery .equivalentClasses c.1) fun d => c ≤ d ∧ d ≤ c := by
  refine shows_of_names sound model
    (Taxonomy.names_equivalentClasses sound.taxonomy (mem_classes sound c)) fun d => ?_
  rw [isBelow_iff_le sound model, isBelow_iff_le sound model]

/-- **The classes apart from a class** are those that share an instance with it in no model. -/
theorem shows_disjointClasses (c : Known r.axioms) :
    r.Shows (r.taxonomy.disjointNodes c.1) fun d => ∀ m : Interpretation, m.Models r.axioms →
      ∀ x, ¬ (m.instances c.1 x ∧ m.instances d.1 x) :=
  shows_of_names sound model (Taxonomy.names_disjointNodes sound.taxonomy c.1) fun _ =>
    Taxonomy.isClash_iff_apart sound.taxonomy model

/-- **The types** of an individual are the classes that it is in in every model. -/
theorem shows_types (i : IndividualName) :
    r.Shows (r.taxonomy.typeNodes i) fun d => Entails r.axioms (.classAssertion d.1 i) :=
  shows_of_names sound model (Taxonomy.names_typeNodes sound.taxonomy
    (Taxonomy.isClash_types sound.taxonomy model i)) fun _ =>
      Taxonomy.mem_types_iff_entails sound.taxonomy model

/-- **The direct types** are the types that have no smaller one among them. -/
theorem shows_directTypes (i : IndividualName) :
    r.Shows (r.taxonomy.mostSpecific (r.taxonomy.typeNodes i)) fun d =>
      Entails r.axioms (.classAssertion d.1 i) ∧
        ∀ e : Known r.axioms, Entails r.axioms (.classAssertion e.1 i) → ¬ e < d :=
  shows_mostSpecific sound model (Taxonomy.names_typeNodes sound.taxonomy
    (Taxonomy.isClash_types sound.taxonomy model i)) fun _ =>
      Taxonomy.mem_types_iff_entails sound.taxonomy model

end

/-! ## The law -/

/-- What the reasoner answers to a question about a known class. -/
abbrev ask (r : Reasoner) (q : ClassQuery) (c : Known r.axioms) : Except ReasoningError NodeSet :=
  r.query (.aboutClass q) (.ofClass c.1)

/-- One step up from a node: to a direct super-class of one of its classes. -/
def Up (r : Reasoner) (m n : Node) : Prop :=
  ∃ c ns, .ofClass c.1 ∈ m ∧ r.ask (.superClasses true) c = .ok ns ∧ n ∈ ns

/-- **The answer is made of whole nodes**: each is the node of a known class, no two share anything,
and any classes of two nodes compare alike. -/
structure Partitioned (r : Reasoner) (ns : NodeSet) : Prop where
  whole : ∀ n ∈ ns, ∃ c, r.IsNode c n
  apart : ∀ m ∈ ns, ∀ n ∈ ns, m ≠ n → ∀ x ∈ m, x ∉ n
  alike : ∀ m ∈ ns, ∀ n ∈ ns, ∀ c c' d d', .ofClass c ∈ m → .ofClass c' ∈ m → .ofClass d ∈ n →
    .ofClass d' ∈ n → r.taxonomy.isBelow c d = r.taxonomy.isBelow c' d'

/-- **The answers make a hierarchy.** Every known class has a node, and every answer that lists
classes is made of whole nodes. The direct answers keep the nodes of the full ones with no node of
them strictly between; they mirror each other; and the direct steps up from a class, one or more,
reach what is above it. At the bottom there is one node of all that cannot have instances. -/
structure Hierarchical (r : Reasoner) : Prop where
  node : ∀ c, ∃ k, r.IsNode c k ∧ r.ask .equivalentClasses c = .ok (SortedSet.insert k ∅)
  partitioned : ∀ kind x ns, kind ≠ .aboutClass .instances → r.query kind x = .ok ns →
    r.Partitioned ns
  directSuper : ∀ c k, r.IsNode c k → ∃ full near,
    r.ask (.superClasses false) c = .ok full ∧ r.ask (.superClasses true) c = .ok near ∧
      ∀ n, n ∈ near ↔ n ∈ full ∧ ¬ ∃ m ∈ full, r.Under k m ∧ r.Under m n
  directSub : ∀ c k, r.IsNode c k → ∃ full near,
    r.ask (.subClasses false) c = .ok full ∧ r.ask (.subClasses true) c = .ok near ∧
      ∀ n, n ∈ near ↔ n ∈ full ∧ ¬ ∃ m ∈ full, r.Under n m ∧ r.Under m k
  directTypes : ∀ i, KnowsIndividual r.axioms i → ∃ full near,
    r.query (.aboutIndividual false) (.ofIndividual i) = .ok full ∧
      r.query (.aboutIndividual true) (.ofIndividual i) = .ok near ∧
        ∀ n, n ∈ near ↔ n ∈ full ∧ ¬ ∃ m ∈ full, r.Under m n
  mirrored : ∀ c d k n, r.IsNode c k → r.IsNode d n → ∃ supers subs,
    r.ask (.superClasses true) c = .ok supers ∧ r.ask (.subClasses true) d = .ok subs ∧
      (n ∈ supers ↔ k ∈ subs)
  reached : ∀ c k, r.IsNode c k → ∃ supers, r.ask (.superClasses false) c = .ok supers ∧
    ∀ n, n ∈ supers ↔ Relation.TransGen r.Up k n
  bottom : ∃ b, .ofClass ClassName.nothing ∈ b ∧
    (∀ x, x ∈ b ↔ ∃ d : Known r.axioms, x = .ofClass d.1 ∧
      r.isSatisfiable (.ofClass d.1) = .ok false) ∧
    ∀ c : Known r.axioms, ∃ subs, r.ask (.subClasses false) c = .ok subs ∧
      (.ofClass c.1 ∈ b ∧ r.IsNode c b ∧ subs = ∅ ∨ .ofClass c.1 ∉ b ∧ b ∈ subs)

section

variable (sound : r.Sound) (consistent : r.isConsistent = true)
include sound consistent

/-- A question about a known class is answered by the taxonomy. -/
theorem ask_eq (q : ClassQuery) (c : Known r.axioms) :
    r.ask q c = .ok (r.taxonomy.classQuery q c.1) := query_aboutClass sound consistent c.2 q

/-- Whatever is answered is about something known, and what the taxonomy says of it. -/
theorem query_eq_ok {kind : QueryKind} {x : Entity} (answer : r.query kind x = .ok ns) :
    (∃ q, ∃ c : Known r.axioms, kind = .aboutClass q ∧ x = .ofClass c.1 ∧
      ns = r.taxonomy.classQuery q c.1) ∨
    ∃ direct i, kind = .aboutIndividual direct ∧ x = .ofIndividual i ∧
      ns = r.taxonomy.typeQuery direct i := by
  cases kind with
  | aboutClass q =>
    cases x with
    | ofClass c =>
      simp only [query, consistent, Bool.not_true, Bool.false_eq_true, if_false] at answer
      split at answer
      · rename_i known
        cases answer
        exact .inl ⟨q, ⟨c, (Taxonomy.hasClass_iff sound.taxonomy).1 known⟩, rfl, rfl, rfl⟩
      · cases answer
    | ofIndividual i =>
      simp only [query, consistent, Bool.not_true, Bool.false_eq_true, if_false, reduceCtorEq]
        at answer
  | aboutIndividual direct =>
    cases x with
    | ofClass c =>
      simp only [query, consistent, Bool.not_true, Bool.false_eq_true, if_false, reduceCtorEq]
        at answer
    | ofIndividual i =>
      simp only [query, consistent, Bool.not_true, Bool.false_eq_true, if_false] at answer
      split at answer
      · cases answer
        exact .inr ⟨direct, i, rfl, rfl, rfl⟩
      · cases answer

/-- Every answer that lists classes shows some. -/
theorem shows_query {kind : QueryKind} {x : Entity} (classes : kind ≠ .aboutClass .instances)
    (answer : r.query kind x = .ok ns) : ∃ P, r.Shows ns P := by
  have model := sound.isConsistent_iff.1 consistent
  obtain ⟨q, c, rfl, -, rfl⟩ | ⟨direct, i, rfl, -, rfl⟩ := query_eq_ok sound consistent answer
  · match q with
    | .equivalentClasses => exact ⟨_, shows_equivalentClasses sound model c⟩
    | .superClasses false => exact ⟨_, shows_superClasses sound model c⟩
    | .superClasses true => exact ⟨_, shows_directSuperClasses sound model c⟩
    | .subClasses false => exact ⟨_, shows_subClasses sound model c⟩
    | .subClasses true => exact ⟨_, shows_directSubClasses sound model c⟩
    | .disjointClasses => exact ⟨_, shows_disjointClasses sound model c⟩
    | .instances => exact absurd rfl classes
  · match direct with
    | false => exact ⟨_, shows_types sound model i⟩
    | true => exact ⟨_, shows_directTypes sound model i⟩

/-- What shows classes is made of whole nodes. -/
theorem Shows.partitioned (h : r.Shows ns P) : r.Partitioned ns where
  whole := h.whole
  apart m hm n hn differ x hx hx' := by
    obtain ⟨c, hc⟩ := h.whole m hm
    obtain ⟨d, hd⟩ := h.whole n hn
    obtain ⟨e, rfl, ce, ec⟩ := (hc x).1 hx
    obtain ⟨de, ed⟩ := hd.mem_iff.1 hx'
    exact differ (hc.eq_of_le hd (ce.trans ed) (de.trans ec))
  alike m hm n hn a a' b b' ha ha' hb hb' := by
    have model := sound.isConsistent_iff.1 consistent
    obtain ⟨c, hc⟩ := h.whole m hm
    obtain ⟨d, hd⟩ := h.whole n hn
    cases (isNode_iff sound model).1 hc
    cases (isNode_iff sound model).1 hd
    have hc' := mem_classes sound c
    have hd' := mem_classes sound d
    exact (Taxonomy.isBelow_alike sound.taxonomy hc' hd' ha hb).trans
      (Taxonomy.isBelow_alike sound.taxonomy hc' hd' ha' hb').symm

/-- An answer that leaves out of a full one what has something of it on the way leaves out the
nodes with a node of it on the way. -/
theorem mem_near_iff (Far : Known r.axioms → Known r.axioms → Prop) {Past : Node → Node → Prop}
    {full near : NodeSet} (h : r.Shows full P)
    (past : ∀ e m d n, r.IsNode e m → r.IsNode d n → (Past m n ↔ Far e d))
    (h' : r.Shows near fun d => P d ∧ ∀ e, P e → ¬ Far e d) (n : Node) :
    n ∈ near ↔ n ∈ full ∧ ¬ ∃ m ∈ full, Past m n := by
  have model := sound.isConsistent_iff.1 consistent
  constructor
  · intro hn
    obtain ⟨d, node⟩ := h'.whole n hn
    obtain ⟨hP, none⟩ := (h'.mem_iff d n node).1 hn
    refine ⟨(h.mem_iff d n node).2 hP, fun ⟨m, hm, far⟩ => ?_⟩
    obtain ⟨e, node'⟩ := h.whole m hm
    exact none e ((h.mem_iff e m node').1 hm) ((past e m d n node' node).1 far)
  · rintro ⟨hn, none⟩
    obtain ⟨d, node⟩ := h.whole n hn
    refine (h'.mem_iff d n node).2 ⟨(h.mem_iff d n node).1 hn, fun e hP far => none ?_⟩
    have node' := isNode_nodeOf sound model e
    exact ⟨_, (h.mem_iff e _ node').2 hP, (past e _ d n node' node).2 far⟩

/-! ## Steps up -/

/-- A step up ends at the node of a class. -/
theorem Up.exists_node (h : r.Up m n) : ∃ d, r.IsNode d n := by
  have model := sound.isConsistent_iff.1 consistent
  obtain ⟨c, ns, -, answer, hn⟩ := h
  cases (ask_eq sound consistent _ c).symm.trans answer
  exact (shows_directSuperClasses sound model c).whole n hn

/-- **A step up** goes to a node that covers the node it comes from. -/
theorem up_iff (hm : r.IsNode c m) (hn : r.IsNode d n) : r.Up m n ↔ c ⋖ d := by
  have model := sound.isConsistent_iff.1 consistent
  constructor
  · rintro ⟨c', ns, hc', answer, mem⟩
    cases (ask_eq sound consistent _ c').symm.trans answer
    have covers := ((shows_directSuperClasses sound model c').mem_iff d n hn).1 mem
    exact AntisymmRel.trans_covBy (hm.mem_iff.1 hc') covers
  · intro covers
    exact ⟨c, _, hm.self_mem, ask_eq sound consistent _ c,
      ((shows_directSuperClasses sound model c).mem_iff d n hn).2 covers⟩

/-- Steps from one covering class to the next are steps up between their nodes. -/
theorem transGen_up (steps : Relation.TransGen (· ⋖ ·) c d) :
    Relation.TransGen r.Up (r.taxonomy.nodeOf c.1) (r.taxonomy.nodeOf d.1) := by
  have model := sound.isConsistent_iff.1 consistent
  have step : ∀ a b : Known r.axioms, a ⋖ b →
      r.Up (r.taxonomy.nodeOf a.1) (r.taxonomy.nodeOf b.1) := fun a b =>
    (up_iff sound consistent (isNode_nodeOf sound model a) (isNode_nodeOf sound model b)).2
  induction steps with
  | single covers => exact .single (step _ _ covers)
  | tail _ covers ih => exact ih.tail (step _ _ covers)

/-- **Steps up, one or more**, lead to the nodes of what is greater. -/
theorem transGen_up_iff (hm : r.IsNode c m) :
    Relation.TransGen r.Up m n ↔ ∃ d, r.IsNode d n ∧ c < d := by
  have model := sound.isConsistent_iff.1 consistent
  constructor
  · intro steps
    induction steps with
    | single step =>
      obtain ⟨d, hd⟩ := step.exists_node sound consistent
      exact ⟨d, hd, ((up_iff sound consistent hm hd).1 step).lt⟩
    | tail _ step ih =>
      obtain ⟨e, he, above⟩ := ih
      obtain ⟨d, hd⟩ := step.exists_node sound consistent
      exact ⟨d, hd, above.trans ((up_iff sound consistent he hd).1 step).lt⟩
  · rintro ⟨d, hd, above⟩
    cases (isNode_iff sound model).1 hm
    cases (isNode_iff sound model).1 hd
    exact transGen_up sound consistent (lt_iff_transGen_covBy.1 above)

/-! ## The bottom -/

omit sound consistent in
/-- The empty class, which is always known. -/
def nothing (r : Reasoner) : Known r.axioms := ⟨ClassName.nothing, .inr (.inl rfl)⟩

omit sound consistent in
/-- The empty class is below every other. -/
theorem nothing_le (c : Known r.axioms) : r.nothing ≤ c :=
  fun m _ x hx => absurd hx (m.nothing x)

/-- **What cannot have instances** lies below the empty class. -/
theorem isSatisfiable_eq_false_iff :
    r.isSatisfiable (.ofClass c.1) = .ok false ↔ c ≤ r.nothing := by
  have model := sound.isConsistent_iff.1 consistent
  obtain ⟨b, answer⟩ := sound.isSatisfiable_answers (e := .ofClass c.1) fun _ => ⟨_, rfl⟩
  have possible := sound.isSatisfiable_iff answer
  rw [answer, Except.ok.injEq, ← Bool.not_eq_true, possible]
  constructor
  · exact fun none m hm x hx => absurd ⟨m, hm, x, hx⟩ none
  · rintro below ⟨m, hm, x, hx⟩
    exact m.nothing x (below m hm x hx)

/-- The node of the empty class has exactly what cannot have instances, and lies below all else. -/
theorem bottom_of_nothing : ∃ b, .ofClass ClassName.nothing ∈ b ∧
    (∀ x, x ∈ b ↔ ∃ d : Known r.axioms, x = .ofClass d.1 ∧
      r.isSatisfiable (.ofClass d.1) = .ok false) ∧
    ∀ c : Known r.axioms, ∃ subs, r.ask (.subClasses false) c = .ok subs ∧
      (.ofClass c.1 ∈ b ∧ r.IsNode c b ∧ subs = ∅ ∨ .ofClass c.1 ∉ b ∧ b ∈ subs) := by
  have model := sound.isConsistent_iff.1 consistent
  have node := isNode_nodeOf sound model r.nothing
  refine ⟨_, node.self_mem, fun x => (node x).trans ?_, fun c =>
    ⟨_, ask_eq sound consistent _ c, ?_⟩⟩
  · refine exists_congr fun d => and_congr_right fun _ => ?_
    rw [isSatisfiable_eq_false_iff sound consistent]
    exact and_iff_right (nothing_le d)
  · have shows := shows_subClasses sound model c
    by_cases empty : c ≤ r.nothing
    · have same := node.mem_iff.2 ⟨nothing_le c, empty⟩
      have own : r.taxonomy.nodeOf c.1 = r.taxonomy.nodeOf r.nothing.1 :=
        (isNode_nodeOf sound model c).eq_of_le node empty (nothing_le c)
      refine .inl ⟨same, own ▸ isNode_nodeOf sound model c, SortedSet.ext fun n => ?_⟩
      refine iff_of_false (fun hn => ?_) (SortedSet.not_mem_empty n)
      obtain ⟨d, hd⟩ := shows.whole n hn
      exact ((shows.mem_iff d n hd).1 hn).not_ge (empty.trans (nothing_le d))
    · refine .inr ⟨fun mem => empty (node.mem_iff.1 mem).2, ?_⟩
      exact (shows.mem_iff _ _ node).2 (lt_of_le_not_ge (nothing_le c) empty)

end

/-- **The class hierarchy.** A consistent reasoner built from valid axioms answers with a
hierarchy. -/
theorem hierarchical (built : r.Built) (consistent : r.isConsistent = true) : r.Hierarchical := by
  have sound := (built_invariant built).1
  have model := sound.isConsistent_iff.1 consistent
  have asked := ask_eq sound consistent
  constructor
  case node =>
    exact fun c => ⟨_, isNode_nodeOf sound model c, asked _ c⟩
  case partitioned =>
    intro kind x ns classes answer
    obtain ⟨P, shows⟩ := shows_query sound consistent classes answer
    exact shows.partitioned sound consistent
  case directSuper =>
    intro c k hk
    -- the direct nodes are the nearest of the others, by what stands between two of them
    refine ⟨_, _, asked _ c, asked _ c, mem_near_iff sound consistent
      (fun e d => c < e ∧ e < d) (shows_superClasses sound model c) ?_ ?_⟩
    · exact fun e m d n he hd => and_congr (hk.under_iff he) (he.under_iff hd)
    · refine (shows_directSuperClasses sound model c).congr fun d => ?_
      exact and_congr_right fun _ => forall_congr' fun e => by tauto
  case directSub =>
    intro c k hk
    refine ⟨_, _, asked _ c, asked _ c, mem_near_iff sound consistent
      (fun e d => d < e ∧ e < c) (shows_subClasses sound model c) ?_ ?_⟩
    · exact fun e m d n he hd => and_congr (hd.under_iff he) (he.under_iff hk)
    · refine (shows_directSubClasses sound model c).congr fun d => ?_
      exact and_congr_right fun _ => forall_congr' fun e => by tauto
  case directTypes =>
    intro i known
    refine ⟨_, _, query_aboutIndividual sound consistent known _,
      query_aboutIndividual sound consistent known _, mem_near_iff sound consistent
        (fun e d => e < d) (shows_types sound model i) ?_ (shows_directTypes sound model i)⟩
    exact fun e m d n he hd => he.under_iff hd
  case mirrored =>
    intro c d k n hk hn
    refine ⟨_, _, asked _ c, asked _ d, ?_⟩
    exact ((shows_directSuperClasses sound model c).mem_iff d n hn).trans
      ((shows_directSubClasses sound model d).mem_iff c k hk).symm
  case reached =>
    intro c k hk
    have shows := shows_superClasses sound model c
    refine ⟨_, asked _ c, fun n => ?_⟩
    rw [transGen_up_iff sound consistent hk]
    constructor
    · intro hn
      obtain ⟨d, hd⟩ := shows.whole n hn
      exact ⟨d, hd, (shows.mem_iff d n hd).1 hn⟩
    · rintro ⟨d, hd, above⟩
      exact (shows.mem_iff d n hd).2 above
  case bottom => exact bottom_of_nothing sound consistent

/-- Griffins are one node with the empty class, and steps up lead from it to the mammals. -/
theorem bestiary_climbed :
    let r := ((new "bestiary").serve (.apply bestiary [])).2
    r.Built ∧ r.isConsistent = true ∧ ∃ k n, .ofClass ⟨"Griffin"⟩ ∈ k ∧
      .ofClass ClassName.nothing ∈ k ∧ .ofClass ⟨"Mammal"⟩ ∈ n ∧ Relation.TransGen r.Up k n := by
  intro r
  have built : r.Built :=
    .serve (q := .apply bestiary []) (.new "bestiary") (by decide +kernel : ∀ a ∈ bestiary, a.Valid)
  have consistent : r.isConsistent = true := by decide +kernel
  have law := hierarchical built consistent
  let griffin : Known r.axioms := ⟨⟨"Griffin"⟩,
    .inr (.inr ⟨.subClassOf ⟨"Griffin"⟩ ⟨"Cat"⟩, by decide +kernel, by decide +kernel⟩)⟩
  obtain ⟨k, node, own⟩ := law.node griffin
  obtain ⟨supers, above, reached⟩ := law.reached griffin k node
  have empty : (r.ask .equivalentClasses griffin).toOption.map
      (·.containsEntity (.ofClass ClassName.nothing)) = some true := by decide +kernel
  have mammal : (r.ask (.superClasses false) griffin).toOption.map
      (·.containsEntity (.ofClass ⟨"Mammal"⟩)) = some true := by decide +kernel
  rw [own] at empty
  rw [above] at mammal
  obtain ⟨n, hn, mem⟩ := NodeSet.containsEntity_iff.1 (Option.some.inj mammal)
  have single := NodeSet.containsEntity_insert.1 (Option.some.inj empty)
  rw [NodeSet.containsEntity_empty] at single
  exact ⟨built, consistent, k, n, node.self_mem, single.resolve_right Bool.false_ne_true, mem,
    (reached n).1 hn⟩

end Reasoner

end OntologyService
