import OntologyService.Proofs.Taxonomy.Hierarchy

/-!
# The nodes of a result, and the nearest of them

A result about the hierarchy is made of whole nodes, `nodeOf` of the classes that it names
(`Names`). So whether the node of a class is in it is a question about that class
(`Names.nodeOf_mem_iff`), and no matter which class of the node is asked about.

The direct forms compare nodes by the class that stands for each, which is the first by name. Both
are one pass (`nearest`) with the comparison one way or the other. On whole nodes the comparison is
the same for any two classes of them, so the pass keeps the nodes with nothing else of the result
nearer, whichever class stands for which (`Names.nearest`).
-/

namespace OntologyService

namespace Node

/-- The entities of a set of classes are its classes. -/
theorem ofClass_mem_ofClasses {cs : ClassSet} {c : ClassName} :
    Entity.ofClass c ∈ ofClasses cs ↔ c ∈ cs := by
  simp only [mem_ofClasses, Entity.ofClass.injEq, exists_eq_right']

/-- The class that stands for a node is in it. -/
theorem mem_of_representative? {n : Node} {c : ClassName} (h : n.representative? = some c) :
    .ofClass c ∈ n := by
  obtain ⟨e, he, found⟩ := List.exists_of_findSome?_eq_some h
  cases e with
  | ofClass d =>
    cases found
    exact he
  | ofIndividual i => cases found

/-- A node with a class in it has one that stands for it. -/
theorem exists_representative {n : Node} {c : ClassName} (h : .ofClass c ∈ n) :
    ∃ d, n.representative? = some d := by
  rw [← Option.isSome_iff_exists, representative?, List.findSome?_isSome_iff]
  exact ⟨_, h, rfl⟩

end Node

namespace Taxonomy

variable {t : Taxonomy} {axioms : AxiomSet} {c d e : ClassName} {i : IndividualName}
  {n : Node} {ns : NodeSet} {P : ClassName → Prop}

/-! ## Whole nodes -/

/-- The node of a class: everything that is equivalent to it. -/
def nodeOf (t : Taxonomy) (c : ClassName) : Node := Node.ofClasses (t.equivalents c)

/-- **The result is made of the nodes of the known classes with the property**: each of its nodes
is the node of a known class, and it names these classes and nothing else. -/
structure Names (t : Taxonomy) (ns : NodeSet) (P : ClassName → Prop) : Prop where
  whole : ∀ n ∈ ns, ∃ c ∈ t.classes, n = t.nodeOf c
  named : ∀ x, ns.containsEntity x = true ↔ ∃ d ∈ t.classes, x = .ofClass d ∧ P d

/-- Nodes that name what satisfies a property name what satisfies an equivalent one. -/
theorem Names.congr {Q : ClassName → Prop} (h : t.Names ns P)
    (same : ∀ d ∈ t.classes, (P d ↔ Q d)) : t.Names ns Q := by
  refine ⟨h.whole, fun x => (h.named x).trans ?_⟩
  exact exists_congr fun d => and_congr_right fun hd => and_congr_right fun _ => same d hd

section

variable (told : t.Faithful axioms)
include told

/-- The node of a class holds the classes that are below it and above it. -/
theorem ofClass_mem_nodeOf (hc : c ∈ t.classes) : .ofClass d ∈ t.nodeOf c ↔
    d ∈ t.classes ∧ t.isBelow c d = true ∧ t.isBelow d c = true := by
  rw [nodeOf, Node.ofClass_mem_ofClasses, mem_equivalents told hc]

/-- A class is in its own node. -/
theorem self_mem_nodeOf (hc : c ∈ t.classes) : .ofClass c ∈ t.nodeOf c :=
  Node.ofClass_mem_ofClasses.2 (self_mem_equivalents told hc)

/-- **Classes have one node** exactly if they lie below one another. -/
theorem nodeOf_eq_iff (hc : c ∈ t.classes) (hd : d ∈ t.classes) :
    t.nodeOf d = t.nodeOf c ↔ t.isBelow c d = true ∧ t.isBelow d c = true := by
  constructor
  · intro same
    exact ((ofClass_mem_nodeOf told hc).1 (same ▸ self_mem_nodeOf told hd)).2
  · rintro ⟨hcd, hdc⟩
    have back := (mem_equivalents told hd).2 ⟨hc, hdc, hcd⟩
    have forth := (mem_equivalents told hc).2 ⟨hd, hcd, hdc⟩
    have same : t.equivalents d = t.equivalents c := SortedSet.ext fun e =>
      ⟨equivalents_trans told hc forth, equivalents_trans told hd back⟩
    rw [nodeOf, nodeOf, same]

/-- Classes of one node have one node. -/
theorem nodeOf_eq_of_mem (hc : c ∈ t.classes) (hd : .ofClass d ∈ t.nodeOf c) :
    t.nodeOf d = t.nodeOf c :=
  have mem := (ofClass_mem_nodeOf told hc).1 hd
  (nodeOf_eq_iff told hc mem.1).2 mem.2

/-- Whether the node of a class is in a result is a question about the class. -/
theorem Names.nodeOf_mem_iff (h : t.Names ns P) (hd : d ∈ t.classes) :
    t.nodeOf d ∈ ns ↔ P d := by
  have listed : ns.containsEntity (.ofClass d) = true ↔ P d := by
    rw [h.named]
    constructor
    · rintro ⟨_, _, ⟨⟩, hP⟩
      exact hP
    · exact fun hP => ⟨d, hd, rfl, hP⟩
  rw [← listed, NodeSet.containsEntity_iff]
  constructor
  · exact fun mem => ⟨_, mem, self_mem_nodeOf told hd⟩
  · rintro ⟨n, hn, mem⟩
    obtain ⟨c, hc, rfl⟩ := h.whole n hn
    exact nodeOf_eq_of_mem told hc mem ▸ hn

/-- A result of whole nodes, from what is asked of the classes of each. -/
theorem Names.of_nodeOf (whole : ∀ n ∈ ns, ∃ c ∈ t.classes, n = t.nodeOf c)
    (mem : ∀ d ∈ t.classes, (t.nodeOf d ∈ ns ↔ P d)) : t.Names ns P := by
  refine ⟨whole, fun x => ?_⟩
  rw [NodeSet.containsEntity_iff]
  constructor
  · rintro ⟨n, hn, hx⟩
    obtain ⟨c, hc, rfl⟩ := whole n hn
    obtain ⟨d, hd, rfl⟩ := Node.mem_ofClasses.1 hx
    have hd' := (mem_equivalents told hc).1 hd
    refine ⟨d, hd'.1, rfl, (mem d hd'.1).1 ?_⟩
    exact (nodeOf_eq_of_mem told hc hx).symm ▸ hn
  · rintro ⟨d, hd, rfl, hP⟩
    exact ⟨_, (mem d hd).2 hP, self_mem_nodeOf told hd⟩

/-! ## Grouped results -/

omit told in
/-- The pass adds nodes of the listed classes only. -/
theorem mem_groupFrom : ∀ (cs : List ClassName) {covered : ClassSet} {nodes : NodeSet},
    n ∈ t.groupFrom covered nodes cs → n ∈ nodes ∨ ∃ c ∈ cs, n = t.nodeOf c
  | [], _, _, hn => .inl hn
  | c :: cs, covered, nodes, hn => by
    unfold groupFrom at hn
    split at hn
    · rcases mem_groupFrom cs hn with hn | ⟨b, hb, same⟩
      · exact .inl hn
      · exact .inr ⟨b, List.mem_cons_of_mem _ hb, same⟩
    · rcases mem_groupFrom cs hn with hn | ⟨b, hb, same⟩
      · exact (SortedSet.mem_insert.1 hn).symm.imp_right fun same => ⟨c, List.mem_cons_self, same⟩
      · exact .inr ⟨b, List.mem_cons_of_mem _ hb, same⟩

/-- What names known classes and is a grouping of some classes is made of whole nodes. -/
theorem names_group {cs : ClassSet}
    (named : ∀ x, (t.group cs).containsEntity x = true ↔ ∃ d ∈ t.classes, x = .ofClass d ∧ P d) :
    t.Names (t.group cs) P := by
  refine ⟨fun n hn => ?_, named⟩
  obtain ⟨c, -, rfl⟩ := (mem_groupFrom cs.toList hn).resolve_left (SortedSet.not_mem_empty n)
  have own : .ofClass c ∈ t.nodeOf c := by
    rw [nodeOf, Node.ofClass_mem_ofClasses, equivalents]
    split
    · exact SortedSet.mem_filter.2 ⟨told.recalls.self_mem_closure c, by simp⟩
    · exact SortedSet.mem_insert.2 (.inl rfl)
  obtain ⟨_, hc, ⟨⟩, -⟩ := (named _).1 (NodeSet.containsEntity_iff.2 ⟨_, hn, own⟩)
  exact ⟨c, hc, rfl⟩

/-- The nodes above name the classes strictly above. -/
theorem names_superNodes (hc : c ∈ t.classes) : t.Names (t.superNodes c) fun d =>
    t.isBelow c d = true ∧ t.isBelow d c = false :=
  names_group told fun _ => containsEntity_superNodes told hc

/-- The nodes below name the classes strictly below. -/
theorem names_subNodes (hc : c ∈ t.classes) : t.Names (t.subNodes c) fun d =>
    t.isBelow c d = false ∧ t.isBelow d c = true :=
  names_group told fun _ => containsEntity_subNodes told hc

/-- The disjoint nodes name the classes whose closures clash with that of the class. -/
theorem names_disjointNodes (c : ClassName) : t.Names (t.disjointNodes c) fun d =>
    t.isClash (t.closure c ∪ t.closure d) = true :=
  names_group told fun _ => containsEntity_disjointNodes told c

/-- The nodes of the types of an individual name its types. -/
theorem names_typeNodes (free : t.isClash (t.types i) = false) :
    t.Names (t.typeNodes i) (· ∈ t.types i) := by
  refine names_group told fun x => (containsEntity_typeNodes told free).trans ?_
  refine exists_congr fun d => ⟨fun ⟨hd, same⟩ => ?_, fun ⟨_, same, hd⟩ => ⟨hd, same⟩⟩
  exact ⟨mem_classes_of_mem_types told hd, same, hd⟩

/-- The equivalent classes named are those below and above. -/
theorem names_equivalentClasses (hc : c ∈ t.classes) :
    t.Names (t.classQuery .equivalentClasses c) fun d =>
      t.isBelow c d = true ∧ t.isBelow d c = true := by
  refine ⟨fun n hn => ⟨c, hc, ?_⟩, fun x => containsEntity_equivalentClasses told hc⟩
  exact (SortedSet.mem_insert.1 hn).resolve_right (SortedSet.not_mem_empty n)

end

/-! ## The nearest nodes -/

/-- The nodes with no other node of the result nearer, by the classes that stand for them. -/
def nearest (near : ClassName → ClassName → Bool) (ns : NodeSet) : NodeSet :=
  let reps := represented ns
  .ofList ((reps.filter fun p => !reps.any fun q => decide (q.1 ≠ p.1) && near q.2 p.2).map
    Prod.fst)

/-- The most specific nodes are those with no other node of the result below. -/
theorem mostSpecific_eq_nearest (ns : NodeSet) :
    t.mostSpecific ns = nearest (fun e d => t.isBelow e d) ns := rfl

/-- The most general nodes are those with no other node of the result above. -/
theorem mostGeneral_eq_nearest (ns : NodeSet) :
    t.mostGeneral ns = nearest (fun e d => t.isBelow d e) ns := rfl

/-- A node is represented by its first class. -/
theorem mem_represented : (n, c) ∈ represented ns ↔ n ∈ ns ∧ n.representative? = some c := by
  rw [represented, List.mem_filterMap]
  constructor
  · rintro ⟨m, hm, stands⟩
    obtain ⟨d, found, ⟨⟩⟩ := Option.map_eq_some_iff.1 stands
    exact ⟨hm, found⟩
  · rintro ⟨hn, found⟩
    exact ⟨n, hn, by rw [found, Option.map_some]⟩

/-- A node is nearest if and only if no other node of the result is nearer. -/
theorem mem_nearest {near : ClassName → ClassName → Bool} :
    n ∈ nearest near ns ↔ n ∈ ns ∧ ∃ b, n.representative? = some b ∧
      ∀ m ∈ ns, m ≠ n → ∀ a, m.representative? = some a → near a b = false := by
  have kept : ∀ b, (!(represented ns).any fun q => decide (q.1 ≠ n) && near q.2 b) = true ↔
      ∀ m ∈ ns, m ≠ n → ∀ a, m.representative? = some a → near a b = false := by
    intro b
    simp only [Bool.not_eq_true', List.any_eq_false, Prod.forall, mem_represented,
      Bool.and_eq_true, decide_eq_true_eq, not_and, Bool.not_eq_true]
    exact ⟨fun h m hm ne a stands => h m a ⟨hm, stands⟩ ne,
      fun h m a mem ne => h m mem.1 ne a mem.2⟩
  rw [nearest, SortedSet.mem_ofList]
  simp only [List.mem_map, List.mem_filter, Prod.exists, mem_represented]
  constructor
  · rintro ⟨_, b, ⟨⟨hn, stands⟩, none⟩, rfl⟩
    exact ⟨hn, b, stands, (kept b).1 none⟩
  · rintro ⟨hn, b, stands, none⟩
    exact ⟨n, b, ⟨⟨hn, stands⟩, (kept b).2 none⟩, rfl⟩

section

variable (told : t.Faithful axioms)
include told

/-- **The nearest nodes of a result.** Of a comparison that does not tell equivalent classes apart,
it does not matter which of them stands for a node. -/
theorem Names.nearest (near : ClassName → ClassName → Bool) (h : t.Names ns P)
    (alike : ∀ {c c' d d'}, c ∈ t.classes → d ∈ t.classes → .ofClass c' ∈ t.nodeOf c →
      .ofClass d' ∈ t.nodeOf d → near c' d' = near c d) :
    t.Names (nearest near ns) fun d =>
      P d ∧ ∀ e ∈ t.classes, P e → near e d = true → t.nodeOf e = t.nodeOf d := by
  refine .of_nodeOf told (fun n hn => h.whole n (mem_nearest.1 hn).1) fun d hd => ?_
  rw [mem_nearest, h.nodeOf_mem_iff told hd]
  refine and_congr_right fun _ => ?_
  obtain ⟨b, stands⟩ := Node.exists_representative (self_mem_nodeOf told hd)
  have hb := Node.mem_of_representative? stands
  constructor
  · rintro ⟨b', stands', none⟩ e he hP nearer
    cases stands.symm.trans stands'
    obtain ⟨a, stands''⟩ := Node.exists_representative (self_mem_nodeOf told he)
    have ha := Node.mem_of_representative? stands''
    by_contra differ
    have far := none _ ((h.nodeOf_mem_iff told he).2 hP) differ a stands''
    rw [alike he hd ha hb, nearer] at far
    cases far
  · intro none
    refine ⟨b, stands, fun m hm differ a stands' => ?_⟩
    obtain ⟨e, he, rfl⟩ := h.whole m hm
    have ha := Node.mem_of_representative? stands'
    rw [alike he hd ha hb, ← Bool.not_eq_true]
    exact fun nearer => differ (none e he ((h.nodeOf_mem_iff told he).1 hm) nearer)

/-- Any classes of two nodes compare alike. -/
theorem isBelow_alike {c' d' : ClassName} (hc : c ∈ t.classes) (hd : d ∈ t.classes)
    (hc' : .ofClass c' ∈ t.nodeOf c) (hd' : .ofClass d' ∈ t.nodeOf d) :
    t.isBelow c' d' = t.isBelow c d := by
  obtain ⟨-, up, down⟩ := (ofClass_mem_nodeOf told hc).1 hc'
  obtain ⟨-, up', down'⟩ := (ofClass_mem_nodeOf told hd).1 hd'
  exact (isBelow_congr told.recalls up down d').2.trans
    (isBelow_congr told.recalls up' down' c).1

/-- The most specific nodes name what has nothing of the set strictly below it. -/
theorem Names.mostSpecific (h : t.Names ns P) : t.Names (t.mostSpecific ns) fun d =>
    P d ∧ ∀ e ∈ t.classes, P e → t.isBelow e d = true → t.isBelow d e = true := by
  rw [mostSpecific_eq_nearest]
  refine (h.nearest told (fun e d => t.isBelow e d) (isBelow_alike told)).congr fun d hd => ?_
  refine and_congr_right fun _ => forall₂_congr fun e he => ?_
  rw [nodeOf_eq_iff told hd he]
  grind

/-- The most general nodes name what has nothing of the set strictly above it. -/
theorem Names.mostGeneral (h : t.Names ns P) : t.Names (t.mostGeneral ns) fun d =>
    P d ∧ ∀ e ∈ t.classes, P e → t.isBelow d e = true → t.isBelow e d = true := by
  rw [mostGeneral_eq_nearest]
  refine (h.nearest told (fun e d => t.isBelow d e)
    fun hc hd hc' hd' => isBelow_alike told hd hc hd' hc').congr fun d hd => ?_
  refine and_congr_right fun _ => forall₂_congr fun e he => ?_
  rw [nodeOf_eq_iff told hd he]
  grind

end

end Taxonomy

end OntologyService
