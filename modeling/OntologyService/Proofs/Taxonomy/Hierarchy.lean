import OntologyService.Proofs.Semantics.Canonical

/-!
# The hierarchy that queries read

`isBelow` is a preorder on classes: what is in the closure of a class has its closure inside the
closure of that class, and a class that nothing can be in lies below every other. On the classes
that the axioms know, `equivalents` is the equivalence that goes with it (`mem_equivalents`), and
this is what makes the single pass of `groupFrom` right. The pass leaves out a class that some node
has already covered, and it may do so only because that node is then the node of the left-out class
too.

So each set of nodes is described by the classes that were grouped, whenever these are closed under
equivalence (`containsEntity_group`): one lemma for each kind of query, in terms of `isBelow`,
`isClash` and `types`. The direct forms are not treated here.
-/

namespace OntologyService

/-- The class is reserved, or one of the axioms mentions it. -/
def KnowsClass (axioms : AxiomSet) (c : ClassName) : Prop :=
  c = ClassName.thing ∨ c = ClassName.nothing ∨ ∃ a ∈ axioms, c ∈ a.classes

/-- One of the axioms asserts a class of the individual. -/
def KnowsIndividual (axioms : AxiomSet) (i : IndividualName) : Prop :=
  ∃ c, Axiom.classAssertion c i ∈ axioms

/-- What is above something that is above the start is above the start. -/
theorem Links.Above.closed {ls : Links ClassName} {start : ClassName → Prop} {d e : ClassName}
    (hd : ls.Above start d) (he : ls.Above (· = d) e) : ls.Above start e := by
  rcases he with lead | ⟨_, rfl, lead⟩
  · exact .inl lead
  · rcases hd with before | ⟨c, hc, before⟩
    · exact .inl (before.trans lead)
    · exact .inr ⟨c, hc, before.trans lead⟩

/-- An axiom mentions the class that an edge of it leads to. -/
theorem Axiom.mem_classes_of_edge {a : Axiom} {c d : ClassName} (h : (c, d) ∈ a.edges) :
    d ∈ a.classes := by
  cases a with
  | subClassOf sub sup =>
    cases List.mem_singleton.1 h
    exact List.mem_cons_of_mem _ (List.mem_cons_self ..)
  | equivalentClasses classes => exact (Axiom.mem_distinctPairs.1 h).2.1
  | disjointClasses classes => cases h
  | classAssertion cls individual => cases h

/-- The membership of an individual comes from an assertion only. -/
theorem Axiom.mem_memberships {a : Axiom} {i : IndividualName} {c : ClassName} :
    (i, c) ∈ a.memberships ↔ a = .classAssertion c i := by
  cases a <;> simp [Axiom.memberships, eq_comm, and_comm]

/-- An entity is in a set of nodes if it is in one of them. -/
theorem NodeSet.containsEntity_iff {ns : NodeSet} {e : Entity} :
    ns.containsEntity e = true ↔ ∃ n ∈ ns, e ∈ n := by
  simp only [NodeSet.containsEntity, List.any_eq_true, decide_eq_true_eq]
  exact Iff.rfl

/-- One node more adds its entities. -/
theorem NodeSet.containsEntity_insert {ns : NodeSet} {n : Node} {e : Entity} :
    NodeSet.containsEntity (ns.insert n) e = true ↔ e ∈ n ∨ ns.containsEntity e = true := by
  simp only [NodeSet.containsEntity_iff, SortedSet.mem_insert, or_and_right, exists_or,
    exists_eq_left]

theorem NodeSet.containsEntity_empty (e : Entity) :
    NodeSet.containsEntity (∅ : NodeSet) e = false := rfl

/-- In the node of some classes are these classes. -/
theorem Node.mem_ofClasses {cs : ClassSet} {e : Entity} :
    e ∈ Node.ofClasses cs ↔ ∃ c ∈ cs, e = .ofClass c := by
  simp only [Node.ofClasses, SortedSet.mem_image, eq_comm]

namespace Taxonomy

variable {t : Taxonomy} {axioms : AxiomSet} {c d e : ClassName} {i : IndividualName}

/-! ## Closures inside closures -/

namespace Recalls

/-- A class is in its closure. -/
theorem self_mem_closure (h : t.Recalls) (c : ClassName) : c ∈ t.closure c :=
  h.mem_closure.2 (.inr ⟨c, rfl, .refl⟩)

/-- A closure holds the closures of what is in it. -/
theorem closure_subset (h : t.Recalls) (hd : d ∈ t.closure c) (he : e ∈ t.closure d) :
    e ∈ t.closure c :=
  h.mem_closure.2 ((h.mem_closure.1 hd).closed (h.mem_closure.1 he))

/-- The types of an individual hold the closures of what is among them. -/
theorem types_closed (h : t.Recalls) (hd : d ∈ t.types i) (he : e ∈ t.closure d) :
    e ∈ t.types i :=
  h.mem_types.2 ((h.mem_types.1 hd).closed (h.mem_closure.1 he))

end Recalls

/-- A class is without instances if its closure holds a conflict. -/
theorem isSatisfiable_eq_false : t.isSatisfiable c = false ↔ t.Clash (· ∈ t.closure c) := by
  rw [isSatisfiable, Bool.not_eq_false', isClash_iff]

/-- A class below one that nothing can be in has no instance either. -/
theorem isSatisfiable_of_mem (h : t.Recalls) (hd : d ∈ t.closure c)
    (empty : t.isSatisfiable d = false) : t.isSatisfiable c = false := by
  rw [isSatisfiable_eq_false] at empty ⊢
  exact empty.mono fun _ he => h.closure_subset hd he

/-! ## The preorder -/

/-- A class is below what its closure holds, and below all if it has no instances. -/
theorem isBelow_iff : t.isBelow c d = true ↔ t.isSatisfiable c = false ∨ d ∈ t.closure c := by
  rw [isBelow, Bool.or_eq_true, Bool.not_eq_true', decide_eq_true_eq]

/-- Every class is below itself. -/
theorem isBelow_refl (h : t.Recalls) (c : ClassName) : t.isBelow c c = true :=
  isBelow_iff.2 (.inr (h.self_mem_closure c))

/-- What is below a class is below all that the class is below. -/
theorem isBelow_trans (h : t.Recalls) (hcd : t.isBelow c d = true) (hde : t.isBelow d e = true) :
    t.isBelow c e = true := by
  rw [isBelow_iff] at hcd hde ⊢
  rcases hcd with empty | hd
  · exact .inl empty
  · rcases hde with empty | he
    · exact .inl (isSatisfiable_of_mem h hd empty)
    · exact .inr (h.closure_subset hd he)

/-- Classes below one another lie below and above the same classes. -/
theorem isBelow_congr (h : t.Recalls) (hde : t.isBelow d e = true) (hed : t.isBelow e d = true)
    (c : ClassName) : t.isBelow c e = t.isBelow c d ∧ t.isBelow e c = t.isBelow d c := by
  constructor
  · rw [Bool.eq_iff_iff]
    exact ⟨fun hce => isBelow_trans h hce hed, fun hcd => isBelow_trans h hcd hde⟩
  · rw [Bool.eq_iff_iff]
    exact ⟨isBelow_trans h hde, isBelow_trans h hed⟩

/-- What clashes with a class clashes with every class below it. -/
theorem isClash_union_of_isBelow (h : t.Recalls) (hed : t.isBelow e d = true) {s : ClassSet}
    (clash : t.isClash (s ∪ t.closure d) = true) : t.isClash (s ∪ t.closure e) = true := by
  rw [isClash_iff] at clash ⊢
  rcases isBelow_iff.1 hed with empty | hd
  · exact (isSatisfiable_eq_false.1 empty).mono fun b hb => SortedSet.mem_union.2 (.inr hb)
  · refine clash.mono fun b hb => ?_
    rw [SortedSet.mem_union] at hb ⊢
    exact hb.imp_right (h.closure_subset hd)

/-! ## The names in use -/

section

variable (told : t.Faithful axioms)
include told

/-- The classes of the taxonomy are those that are known. -/
theorem mem_classes : c ∈ t.classes ↔ KnowsClass axioms c := by
  rw [classes, SortedSet.mem_insert, SortedSet.mem_insert, KnowsClass, or_left_comm]
  have used : c ∈ t.inUse.keySet ↔ ∃ a ∈ axioms, c ∈ a.classes := by
    rw [SortedSet.mem_iff, Table.keySet, told.tells.inUse.mem_keys, List.mem_flatMap]
    exact Iff.rfl
  rw [used]

/-- The taxonomy has the classes that are known. -/
theorem hasClass_iff : t.hasClass c = true ↔ KnowsClass axioms c := by
  have used : t.inUse.contains c = true ↔ ∃ a ∈ axioms, c ∈ a.classes := by
    rw [Table.contains_iff, told.tells.inUse.mem_keys, List.mem_flatMap]
    exact Iff.rfl
  simp only [hasClass, Bool.or_eq_true, decide_eq_true_eq, used, KnowsClass, or_assoc]

/-- The taxonomy has the individuals that are known. -/
theorem hasIndividual_iff : t.hasIndividual i = true ↔ KnowsIndividual axioms i := by
  have asserted : ∀ c, c ∈ Links.row i (axioms.toList.flatMap Axiom.memberships) ↔
      Axiom.classAssertion c i ∈ axioms := by
    intro c
    simp only [Links.mem_row, List.mem_flatMap, Axiom.mem_memberships, exists_eq_right]
    exact Iff.rfl
  rw [hasIndividual, Table.contains, told.tells.asserted.get?_eq]
  constructor
  · intro listed
    split at listed
    · cases listed
    · rename_i some
      obtain ⟨c, hc⟩ := List.exists_mem_of_ne_nil _ some
      exact ⟨c, (asserted c).1 hc⟩
  · rintro ⟨c, hc⟩
    rw [if_neg (List.ne_nil_of_mem ((asserted c).2 hc))]
    rfl

/-- The individuals of the taxonomy are those that are known. -/
theorem mem_individuals : i ∈ t.individuals ↔ KnowsIndividual axioms i := by
  rw [← hasIndividual_iff told, individuals, Table.mem_keySet]
  exact Iff.rfl

/-- Closures of known classes hold known classes only. -/
theorem mem_classes_of_mem_closure (hc : c ∈ t.classes) (hd : d ∈ t.closure c) :
    d ∈ t.classes := by
  have led : ∀ {b}, b ∈ t.classes → t.supers.Leads b d → d ∈ t.classes := by
    intro b hb lead
    induction lead with
    | refl => exact hb
    | tail _ last _ =>
      obtain ⟨a, ha, edge⟩ := told.linked_iff.1 last
      exact (mem_classes told).2 (.inr (.inr ⟨a, ha, Axiom.mem_classes_of_edge edge⟩))
  rw [told.recalls.closure_eq, mem_reach] at hd
  rcases hd with lead | lead
  · exact led hc lead
  · exact led ((mem_classes told).2 (.inl rfl)) lead

/-- The types of an individual are classes of the taxonomy. -/
theorem mem_classes_of_mem_types (hd : d ∈ t.types i) : d ∈ t.classes := by
  have thing : ClassName.thing ∈ t.classes := (mem_classes told).2 (.inl rfl)
  rcases told.recalls.mem_types.1 hd with lead | ⟨c, hc, lead⟩
  · exact mem_classes_of_mem_closure told thing (told.recalls.mem_closure.2 (.inl lead))
  · obtain ⟨a, ha, pair⟩ := told.mem_asserted.1 hc
    obtain rfl := Axiom.mem_memberships.1 pair
    have known : c ∈ t.classes :=
      (mem_classes told).2 (.inr (.inr ⟨_, ha, List.mem_singleton.2 rfl⟩))
    exact mem_classes_of_mem_closure told known
      (told.recalls.mem_closure.2 (.inr ⟨c, rfl, lead⟩))

/-! ## Equivalence -/

/-- **The equivalents of a known class** are the known classes below it and above it. -/
theorem mem_equivalents (hc : c ∈ t.classes) :
    d ∈ t.equivalents c ↔ d ∈ t.classes ∧ t.isBelow c d = true ∧ t.isBelow d c = true := by
  have recalls := told.recalls
  unfold equivalents
  -- a class that can have instances is sought in its own closure, an empty one among the empty ones
  cases sat : t.isSatisfiable c with
  | true =>
    have held : d ∈ t.closure c → t.isSatisfiable d = true := fun hd => by
      by_contra empty
      have := isSatisfiable_of_mem recalls hd (Bool.eq_false_iff.2 empty)
      rw [sat] at this
      cases this
    rw [if_pos rfl, SortedSet.mem_filter, Bool.or_eq_true, decide_eq_true_eq, decide_eq_true_eq]
    simp only [isBelow_iff, sat, Bool.true_eq_false, false_or]
    constructor
    · rintro ⟨hd, rfl | back⟩
      · exact ⟨hc, hd, .inr hd⟩
      · exact ⟨mem_classes_of_mem_closure told hc hd, hd, .inr back⟩
    · rintro ⟨-, hd, empty | back⟩
      · rw [held hd] at empty
        cases empty
      · exact ⟨hd, .inr back⟩
  | false =>
    rw [if_neg Bool.false_ne_true, SortedSet.mem_insert, SortedSet.mem_filter, Bool.not_eq_true']
    simp only [isBelow_iff, sat, true_or, true_and]
    constructor
    · rintro (rfl | ⟨hd, empty⟩)
      · exact ⟨hc, .inl sat⟩
      · exact ⟨hd, .inl empty⟩
    · rintro ⟨hd, empty | hcd⟩
      · exact .inr ⟨hd, empty⟩
      · exact .inr ⟨hd, isSatisfiable_of_mem recalls hcd sat⟩

/-- A class is equivalent to itself. -/
theorem self_mem_equivalents (hc : c ∈ t.classes) : c ∈ t.equivalents c :=
  (mem_equivalents told hc).2 ⟨hc, isBelow_refl told.recalls c, isBelow_refl told.recalls c⟩

/-- What is equivalent to an equivalent is equivalent. -/
theorem equivalents_trans (hc : c ∈ t.classes) (hd : d ∈ t.equivalents c)
    (he : e ∈ t.equivalents d) : e ∈ t.equivalents c := by
  obtain ⟨known, hcd, hdc⟩ := (mem_equivalents told hc).1 hd
  obtain ⟨known', hde, hed⟩ := (mem_equivalents told known).1 he
  exact (mem_equivalents told hc).2
    ⟨known', isBelow_trans told.recalls hcd hde, isBelow_trans told.recalls hed hdc⟩

/-! ## Grouping -/

/-- **The pass** adds the equivalents of every listed class, those that it leaves out included: of
a covered class all equivalents are in the nodes already. -/
theorem containsEntity_groupFrom {x : Entity} : ∀ (cs : List ClassName) {covered : ClassSet}
    {nodes : NodeSet}, (∀ c ∈ cs, c ∈ t.classes) →
    (∀ c ∈ covered, ∀ d ∈ t.equivalents c, nodes.containsEntity (.ofClass d) = true) →
    ((t.groupFrom covered nodes cs).containsEntity x = true ↔
      nodes.containsEntity x = true ∨ ∃ c ∈ cs, ∃ d ∈ t.equivalents c, x = .ofClass d)
  | [], covered, nodes, _, _ => by
    simp only [groupFrom, List.not_mem_nil, false_and, exists_false, or_false]
  | c :: cs, covered, nodes, known, covers => by
    have here := known c (List.mem_cons_self ..)
    have later : ∀ b ∈ cs, b ∈ t.classes := fun b hb => known b (List.mem_cons_of_mem _ hb)
    simp only [List.mem_cons, or_and_right, exists_or, exists_eq_left]
    unfold groupFrom
    by_cases skipped : c ∈ covered
    · rw [if_pos skipped, containsEntity_groupFrom cs later covers]
      constructor
      · exact Or.imp_right .inr
      · rintro (held | ⟨d, hd, rfl⟩ | rest)
        · exact .inl held
        · exact .inl (covers c skipped d hd)
        · exact .inr rest
    · rw [if_neg skipped]
      extract_lets own
      -- a node covers all of its classes at once
      have covers' : ∀ b ∈ covered ∪ own, ∀ d ∈ t.equivalents b,
          NodeSet.containsEntity (nodes.insert (Node.ofClasses own)) (.ofClass d) = true := by
        intro b hb d hd
        rw [NodeSet.containsEntity_insert, Node.mem_ofClasses]
        rcases SortedSet.mem_union.1 hb with hb | hb
        · exact .inr (covers b hb d hd)
        · exact .inl ⟨d, equivalents_trans told here hb hd, rfl⟩
      rw [containsEntity_groupFrom cs later covers', NodeSet.containsEntity_insert,
        Node.mem_ofClasses, or_assoc, or_left_comm]

/-- **The nodes of known classes closed under equivalence** name these classes and nothing else. -/
theorem containsEntity_group {cs : ClassSet} {x : Entity} (known : ∀ c ∈ cs, c ∈ t.classes)
    (closed : ∀ c ∈ cs, ∀ d ∈ t.equivalents c, d ∈ cs) :
    (t.group cs).containsEntity x = true ↔ ∃ d ∈ cs, x = .ofClass d := by
  have covers : ∀ c ∈ (∅ : ClassSet), ∀ d ∈ t.equivalents c,
      NodeSet.containsEntity ∅ (.ofClass d) = true := by
    intro c hc
    exact absurd hc (SortedSet.not_mem_empty c)
  rw [group, containsEntity_groupFrom told cs.toList known covers, NodeSet.containsEntity_empty]
  simp only [Bool.false_eq_true, false_or]
  constructor
  · rintro ⟨c, hc, d, hd, rfl⟩
    exact ⟨d, closed c hc d hd, rfl⟩
  · rintro ⟨d, hd, rfl⟩
    exact ⟨d, hd, d, self_mem_equivalents told (known d hd), rfl⟩

/-! ## The kinds of query -/

variable {x : Entity}

/-- The equivalents of a class are those that are below it and above it. -/
theorem containsEntity_equivalentClasses (hc : c ∈ t.classes) :
    (t.classQuery .equivalentClasses c).containsEntity x = true ↔
      ∃ d ∈ t.classes, x = .ofClass d ∧ t.isBelow c d = true ∧ t.isBelow d c = true := by
  rw [classQuery, NodeSet.containsEntity_insert, NodeSet.containsEntity_empty, Node.mem_ofClasses]
  simp only [Bool.false_eq_true, or_false, mem_equivalents told hc]
  grind

/-- The classes above a known class, and not below it. -/
theorem containsEntity_superNodes (hc : c ∈ t.classes) :
    (t.superNodes c).containsEntity x = true ↔
      ∃ d ∈ t.classes, x = .ofClass d ∧ t.isBelow c d = true ∧ t.isBelow d c = false := by
  unfold superNodes
  extract_lets own above
  have mem_above : ∀ d, d ∈ above ↔ d ∈ t.classes ∧ t.isBelow c d = true := by
    intro d
    rw [isBelow_iff]
    cases sat : t.isSatisfiable c with
    | true =>
      simp only [above, sat, if_true, Bool.true_eq_false, false_or]
      exact ⟨fun hd => ⟨mem_classes_of_mem_closure told hc hd, hd⟩, And.right⟩
    | false =>
      simp only [above, sat, Bool.false_eq_true, if_false, true_or, and_true]
  have mem : ∀ d, d ∈ above.filter (fun d => decide (d ∉ own)) ↔
      d ∈ t.classes ∧ t.isBelow c d = true ∧ t.isBelow d c = false := by
    intro d
    rw [SortedSet.mem_filter, mem_above, decide_eq_true_eq, mem_equivalents told hc]
    grind
  rw [containsEntity_group told (fun d hd => ((mem d).1 hd).1)]
  · simp only [mem]
    grind
  · intro d hd e he
    obtain ⟨known, hcd, hdc⟩ := (mem d).1 hd
    obtain ⟨known', hde, hed⟩ := (mem_equivalents told known).1 he
    obtain ⟨right, left⟩ := isBelow_congr told.recalls hde hed c
    exact (mem e).2 ⟨known', right.trans hcd, left.trans hdc⟩

/-- The classes below a known class, and not above it. -/
theorem containsEntity_subNodes (hc : c ∈ t.classes) :
    (t.subNodes c).containsEntity x = true ↔
      ∃ d ∈ t.classes, x = .ofClass d ∧ t.isBelow c d = false ∧ t.isBelow d c = true := by
  unfold subNodes
  extract_lets own
  have mem : ∀ d, d ∈ t.classes.filter (fun d => decide (d ∉ own) && t.isBelow d c) ↔
      d ∈ t.classes ∧ t.isBelow c d = false ∧ t.isBelow d c = true := by
    intro d
    rw [SortedSet.mem_filter, Bool.and_eq_true, decide_eq_true_eq, mem_equivalents told hc]
    grind
  rw [containsEntity_group told (fun d hd => ((mem d).1 hd).1)]
  · simp only [mem]
    grind
  · intro d hd e he
    obtain ⟨known, hcd, hdc⟩ := (mem d).1 hd
    obtain ⟨known', hde, hed⟩ := (mem_equivalents told known).1 he
    obtain ⟨right, left⟩ := isBelow_congr told.recalls hde hed c
    exact (mem e).2 ⟨known', right.trans hcd, left.trans hdc⟩

/-- The classes apart from a class are those whose closures conflict with its own. -/
theorem containsEntity_disjointNodes (c : ClassName) :
    (t.disjointNodes c).containsEntity x = true ↔
      ∃ d ∈ t.classes, x = .ofClass d ∧ t.isClash (t.closure c ∪ t.closure d) = true := by
  rw [disjointNodes, containsEntity_group told (fun d hd => (SortedSet.mem_filter.1 hd).1)]
  · simp only [SortedSet.mem_filter]
    grind
  · intro d hd e he
    obtain ⟨known, clash⟩ := SortedSet.mem_filter.1 hd
    obtain ⟨known', -, hed⟩ := (mem_equivalents told known).1 he
    exact SortedSet.mem_filter.2 ⟨known', isClash_union_of_isBelow told.recalls hed clash⟩

/-- The types of an individual that can be what it is asserted to be. -/
theorem containsEntity_typeNodes (free : t.isClash (t.types i) = false) :
    (t.typeNodes i).containsEntity x = true ↔ ∃ d ∈ t.types i, x = .ofClass d := by
  have recalls := told.recalls
  rw [typeNodes]
  refine containsEntity_group told (fun d hd => mem_classes_of_mem_types told hd) ?_
  intro d hd e he
  obtain ⟨-, hde, -⟩ := (mem_equivalents told (mem_classes_of_mem_types told hd)).1 he
  rcases isBelow_iff.1 hde with empty | up
  · have clash := isClash_iff.2 <|
      (isSatisfiable_eq_false.1 empty).mono fun b hb => recalls.types_closed hd hb
    rw [free] at clash
    cases clash
  · exact recalls.types_closed hd up

end

/-- The instances of a class are the individuals with the class among their types. -/
theorem containsEntity_instanceNodes {x : Entity} (c : ClassName) :
    (t.instanceNodes c).containsEntity x = true ↔
      ∃ i ∈ t.individuals, x = .ofIndividual i ∧ c ∈ t.types i := by
  rw [instanceNodes, NodeSet.containsEntity_iff]
  simp only [SortedSet.mem_image, SortedSet.mem_filter, decide_eq_true_eq]
  constructor
  · rintro ⟨_, ⟨i, ⟨hi, hc⟩, rfl⟩, hx⟩
    rw [SortedSet.mem_insert] at hx
    exact ⟨i, hi, hx.resolve_right (SortedSet.not_mem_empty x), hc⟩
  · rintro ⟨i, hi, rfl, hc⟩
    exact ⟨_, ⟨i, ⟨hi, hc⟩, rfl⟩, SortedSet.mem_insert.2 (.inl rfl)⟩

end Taxonomy

end OntologyService
