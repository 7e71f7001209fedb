import OntologyService.Proofs.Reasoner.Decision
import OntologyService.Proofs.Taxonomy.Hierarchy

/-!
# Queries and entailment

Two ways lead to an answer about the hierarchy. A query reads closures, with cases of its own for
classes that nothing can be in; entailment refutes, by way of a normal form. Both are held against
models here: what a query reads off the taxonomy is what holds in every model
(`isBelow_iff_entails`, `isClash_iff_apart`, `mem_types_iff_entails`), and what entailment answers
is so by the laws of the decision procedure. Hence the two agree pair by pair
(`isEntailed_subClassOf`, `isEntailed_disjointClasses`, `isEntailed_classAssertion`).

**The law** (`query_iff_isEntailed`): a consistent reasoner built from valid axioms answers every
query about a name that its axioms know, and the answer names exactly the known names that
entailment puts there, one axiom at a time. That the names are known is what makes these axioms
valid, so that entailment answers about them at all.
-/

namespace OntologyService

/-! ## What the taxonomy says, and what holds in every model -/

namespace Taxonomy

variable {t : Taxonomy} {axioms : AxiomSet} {c d : ClassName} {i : IndividualName}

/-- Classes that do not clash have an instance in common, and one that is in no class to which
they do not lead. -/
theorem exists_instance (told : t.Faithful axioms) (model : Consistent axioms) {cs ds : ClassSet}
    (free : ¬ t.Clash (t.supers.Above (· ∈ cs)))
    (out : ∀ d ∈ ds, ¬ t.supers.Above (· ∈ cs) d) :
    ∃ m : Interpretation, m.Models axioms ∧ ∃ x : m.Domain,
      (∀ c ∈ cs, m.instances c x) ∧ ∀ d ∈ ds, ¬ m.instances d x := by
  let p : Conjunct := { classes := cs, negatedClasses := ds }
  have start : Reasoner.startOf t p = (· ∈ cs) := by
    funext c
    simp [Reasoner.startOf, p]
  have can : Reasoner.canHold t p = true := by
    rw [Reasoner.canHold_iff_free told.recalls, start]
    exact ⟨Nat.zero_le 1, fun i hi => absurd hi (SortedSet.not_mem_empty i), free, out⟩
  obtain ⟨m, hm, x, holds⟩ := (Reasoner.canHold_iff told model).1 can
  exact ⟨m, hm, x, holds.classes, holds.negatedClasses⟩

/-- What is in a class is in everything that its closure holds. -/
theorem instances_of_mem_closure (told : t.Faithful axioms) {m : Interpretation}
    (hm : m.Models axioms) {x : m.Domain} (hc : m.instances c x) (hd : d ∈ t.closure c) :
    m.instances d x := by
  refine instances_of_above told hm ?_ (told.recalls.mem_closure.1 hd)
  rintro _ rfl
  exact hc

section

variable (told : t.Faithful axioms) (model : Consistent axioms)
include told model

/-- **A class lies below another** exactly if it does in every model. -/
theorem isBelow_iff_entails : t.isBelow c d = true ↔ Entails axioms (.subClassOf c d) := by
  rw [isBelow_iff]
  constructor
  · rintro below m hm x hc
    rcases below with empty | hd
    · have clash := isSatisfiable_eq_false.1 empty
      exact absurd (clash.mono fun b hb => instances_of_mem_closure told hm hc hb)
        (not_clash told hm)
    · exact instances_of_mem_closure told hm hc hd
  · -- a class that can have an instance and does not lead to `d` has one outside of `d`
    intro follows
    by_contra h
    rw [not_or, Bool.not_eq_false] at h
    obtain ⟨sat, away⟩ := h
    have start : ∀ {b}, t.supers.Above (· ∈ SortedSet.insert c ∅) b → b ∈ t.closure c := by
      intro b above
      refine told.recalls.mem_closure.2 (above.mono fun a ha => ?_)
      exact (SortedSet.mem_insert.1 ha).resolve_right (SortedSet.not_mem_empty a)
    have free : ¬ t.Clash (t.supers.Above (· ∈ SortedSet.insert c ∅)) := by
      intro clash
      rw [isSatisfiable_eq_false.2 (clash.mono fun b hb => start hb)] at sat
      cases sat
    have out : ∀ b ∈ SortedSet.insert d ∅, ¬ t.supers.Above (· ∈ SortedSet.insert c ∅) b := by
      intro b hb above
      obtain rfl := (SortedSet.mem_insert.1 hb).resolve_right (SortedSet.not_mem_empty b)
      exact away (start above)
    obtain ⟨m, hm, x, ins, outs⟩ := exists_instance told model free out
    exact outs d (SortedSet.mem_insert.2 (.inl rfl))
      (follows m hm x (ins c (SortedSet.mem_insert.2 (.inl rfl))))

/-- **The closures of two classes clash** exactly if the classes share no instance in any model. -/
theorem isClash_iff_apart : t.isClash (t.closure c ∪ t.closure d) = true ↔
    ∀ m : Interpretation, m.Models axioms → ∀ x, ¬ (m.instances c x ∧ m.instances d x) := by
  rw [isClash_iff]
  constructor
  · rintro clash m hm x ⟨hc, hd⟩
    refine absurd (clash.mono fun b hb => ?_) (not_clash told hm (x := x))
    rcases SortedSet.mem_union.1 hb with hb | hb
    · exact instances_of_mem_closure told hm hc hb
    · exact instances_of_mem_closure told hm hd hb
  · intro apart
    by_contra free
    have both : ¬ t.Clash (t.supers.Above (· ∈ SortedSet.ofList [c, d])) := by
      refine fun clash => free (clash.mono fun b above => ?_)
      rw [SortedSet.mem_union, told.recalls.mem_closure, told.recalls.mem_closure,
        ← Links.above_or]
      exact above.mono fun a ha => by simpa using SortedSet.mem_ofList.1 ha
    have out : ∀ b ∈ (∅ : ClassSet), ¬ t.supers.Above (· ∈ SortedSet.ofList [c, d]) b :=
      fun b hb => absurd hb (SortedSet.not_mem_empty b)
    obtain ⟨m, hm, x, ins, -⟩ := exists_instance told model both out
    exact apart m hm x ⟨ins c (by simp), ins d (by simp)⟩

/-- **An individual has a class among its types** exactly if it is in the class in every model. -/
theorem mem_types_iff_entails : c ∈ t.types i ↔ Entails axioms (.classAssertion c i) := by
  rw [told.recalls.mem_types]
  constructor
  · intro above m hm
    exact instances_of_above told hm (fun b hb => instances_of_told told hm hb) above
  · -- in the canonical model an individual is in nothing but what its told types lead to
    intro follows
    have free := (isConsistent_iff_free told.recalls).1 ((isConsistent_iff told).2 model)
    exact follows (canonical t t.told free) (canonical_models told free fun _ _ h => h)

/-- Over axioms that have a model, no individual has types that clash. -/
theorem isClash_types (i : IndividualName) : t.isClash (t.types i) = false := by
  have free := (isConsistent_iff_free told.recalls).1 ((isConsistent_iff told).2 model) (some i)
  rw [← Bool.not_eq_true, isClash_iff]
  exact fun clash => free (clash.mono fun b hb => told.recalls.mem_types.1 hb)

end

end Taxonomy

/-! ## The axioms that are put to the test -/

namespace Axiom

/-- The classes of a group without defect have names. -/
theorem text_ne_of_groupDefect? {cs : ClassSet} (h : groupDefect? cs = none) {c : ClassName}
    (hc : c ∈ cs) : c.text ≠ "" := by
  unfold groupDefect? at h
  split at h
  · cases h
  · split at h
    · cases h
    · rename_i named
      exact fun empty => named (List.any_eq_true.2 ⟨c, hc, decide_eq_true empty⟩)

/-- A valid axiom leaves no class without a name. -/
theorem Valid.text_ne {a : Axiom} (valid : a.Valid) {c : ClassName} (hc : c ∈ a.classes) :
    c.text ≠ "" := by
  unfold Valid at valid
  cases a with
  | subClassOf sub sup =>
    simp only [defect?, ite_eq_right_iff, reduceCtorEq, imp_false, not_or] at valid
    simp only [classes, List.mem_cons, List.not_mem_nil, or_false] at hc
    rcases hc with rfl | rfl
    · exact valid.1
    · exact valid.2
  | equivalentClasses cs => exact text_ne_of_groupDefect? valid hc
  | disjointClasses cs => exact text_ne_of_groupDefect? valid hc
  | classAssertion cls individual =>
    simp only [defect?, ite_eq_right_iff, reduceCtorEq, imp_false, not_or] at valid
    cases List.mem_singleton.1 hc
    exact valid.1

/-- The individual of a valid assertion has a name. -/
theorem Valid.individual_ne {c : ClassName} {i : IndividualName}
    (valid : (classAssertion c i).Valid) : i.text ≠ "" := by
  unfold Valid at valid
  simp only [defect?, ite_eq_right_iff, reduceCtorEq, imp_false, not_or] at valid
  exact valid.2

/-- An inclusion of named classes is valid. -/
theorem valid_subClassOf {c d : ClassName} (hc : c.text ≠ "") (hd : d.text ≠ "") :
    (subClassOf c d).Valid := by
  simp only [Valid, defect?, hc, hd, or_self, if_false]

/-- An assertion of a named class for a named individual is valid. -/
theorem valid_classAssertion {c : ClassName} {i : IndividualName} (hc : c.text ≠ "")
    (hi : i.text ≠ "") : (classAssertion c i).Valid := by
  simp only [Valid, defect?, hc, hi, or_self, if_false]

/-- Two classes that differ make a set of two. -/
theorem size_pair {c d : ClassName} (ne : d ≠ c) : (SortedSet.ofList [c, d]).size = 2 := by
  have distinct : [c, d].Nodup := by simp [ne.symm]
  exact (SortedSet.perm_of_mem_iff distinct fun a => SortedSet.mem_ofList).length_eq

/-- The disjointness of two named classes that differ is valid. -/
theorem valid_disjointClasses {c d : ClassName} (hc : c.text ≠ "") (hd : d.text ≠ "")
    (ne : d ≠ c) : (disjointClasses (.ofList [c, d])).Valid := by
  have named : ¬ ((SortedSet.ofList [c, d]).toList.any fun c => decide (c.text = "")) = true := by
    rw [List.any_eq_true]
    rintro ⟨b, hb, empty⟩
    have hb' : b ∈ [c, d] := SortedSet.mem_ofList.1 hb
    simp only [List.mem_cons, List.not_mem_nil, or_false] at hb'
    rcases hb' with rfl | rfl
    · exact hc (of_decide_eq_true empty)
    · exact hd (of_decide_eq_true empty)
  rw [Valid, defect?, groupDefect?, size_pair ne, if_neg (by omega), if_neg named]

end Axiom

/-! ## Agreement, one axiom at a time -/

namespace Reasoner

variable {r : Reasoner} {c d : ClassName} {i : IndividualName}

/-- A class that valid axioms know of has a name. -/
theorem text_ne_of_knows {axioms : AxiomSet} (held : ∀ a ∈ axioms, a.Valid)
    (known : KnowsClass axioms c) : c.text ≠ "" := by
  rcases known with rfl | rfl | ⟨a, ha, hc⟩
  · decide
  · decide
  · exact (held a ha).text_ne hc

theorem text_ne_of_knowsIndividual {axioms : AxiomSet} (held : ∀ a ∈ axioms, a.Valid)
    (known : KnowsIndividual axioms i) : i.text ≠ "" := by
  obtain ⟨c, hc⟩ := known
  exact (held _ hc).individual_ne

namespace Sound

/-- A statement that can be decided gets the answer that its models give. -/
theorem isEntailed_eq (h : r.Sound) {x : Axiom} (valid : x.Valid) (small : ¬ x.TooManyPairs)
    {b : Bool} (hb : b = true ↔ Entails r.axioms x) : r.isEntailed x = .ok b := by
  obtain ⟨b', answer⟩ := h.isEntailed_eq_ok valid fun large => small large.2
  have same : b' = b := Bool.eq_iff_iff.2 ((h.isEntailed_iff answer).trans hb.symm)
  rw [answer, same]

variable (h : r.Sound) (model : Consistent r.axioms)
include h model

/-- An inclusion is entailed if and only if the taxonomy has it. -/
theorem isEntailed_subClassOf (hc : c.text ≠ "") (hd : d.text ≠ "") :
    r.isEntailed (.subClassOf c d) = .ok (r.taxonomy.isBelow c d) :=
  h.isEntailed_eq (Axiom.valid_subClassOf hc hd) id
    (Taxonomy.isBelow_iff_entails h.taxonomy model)

/-- An assertion is entailed if and only if the class is among the types of the individual. -/
theorem isEntailed_classAssertion (hc : c.text ≠ "") (hi : i.text ≠ "") :
    r.isEntailed (.classAssertion c i) = .ok (decide (c ∈ r.taxonomy.types i)) := by
  refine h.isEntailed_eq (Axiom.valid_classAssertion hc hi) id ?_
  rw [decide_eq_true_eq]
  exact Taxonomy.mem_types_iff_entails h.taxonomy model

/-- A disjointness is entailed if and only if the two closures clash. -/
theorem isEntailed_disjointClasses (hc : c.text ≠ "") (hd : d.text ≠ "") (ne : d ≠ c) :
    r.isEntailed (.disjointClasses (.ofList [c, d])) =
      .ok (r.taxonomy.isClash (r.taxonomy.closure c ∪ r.taxonomy.closure d)) := by
  have small : ¬ (Axiom.disjointClasses (.ofList [c, d])).TooManyPairs := by
    rw [Axiom.TooManyPairs, Axiom.size_pair ne]
    omega
  refine h.isEntailed_eq (Axiom.valid_disjointClasses hc hd ne) small ?_
  rw [Taxonomy.isClash_iff_apart h.taxonomy model]
  refine forall₂_congr fun m _ => ?_
  simp only [Interpretation.Satisfies, SortedSet.mem_ofList, List.mem_cons, List.not_mem_nil,
    or_false]
  constructor
  · rintro apart a (rfl | rfl) b (rfl | rfl) differ x ⟨ha, hb⟩
    · exact differ rfl
    · exact apart x ⟨ha, hb⟩
    · exact apart x ⟨hb, ha⟩
    · exact differ rfl
  · exact fun apart x => apart c (.inl rfl) d (.inr rfl) ne.symm x

/-- A class clashes with itself exactly if it lies below the empty class. -/
theorem isBelow_nothing : r.taxonomy.isBelow c ClassName.nothing =
    r.taxonomy.isClash (r.taxonomy.closure c ∪ r.taxonomy.closure c) := by
  rw [Bool.eq_iff_iff, Taxonomy.isBelow_iff_entails h.taxonomy model,
    Taxonomy.isClash_iff_apart h.taxonomy model]
  refine forall₂_congr fun m _ => forall_congr' fun x => ?_
  simp only [and_self]
  exact ⟨fun below hc => m.nothing x (below hc), fun out hc => absurd hc out⟩

end Sound

/-! ## The law -/

/-- The query is answered, and the answer names the known classes with the property, and nothing
else. -/
def ListsClasses (r : Reasoner) (kind : QueryKind) (e : Entity) (P : ClassName → Prop) : Prop :=
  ∃ ns, r.query kind e = .ok ns ∧
    ∀ x, ns.containsEntity x = true ↔ ∃ d, x = .ofClass d ∧ KnowsClass r.axioms d ∧ P d

/-- The query is answered, and the answer names the known individuals with the property, and
nothing else. -/
def ListsIndividuals (r : Reasoner) (kind : QueryKind) (e : Entity) (P : IndividualName → Prop) :
    Prop :=
  ∃ ns, r.query kind e = .ok ns ∧
    ∀ x, ns.containsEntity x = true ↔ ∃ i, x = .ofIndividual i ∧ KnowsIndividual r.axioms i ∧ P i

/-- A query about a class that is known is answered from the taxonomy. -/
theorem query_aboutClass (h : r.Sound) (consistent : r.isConsistent = true)
    (known : KnowsClass r.axioms c) (q : ClassQuery) :
    r.query (.aboutClass q) (.ofClass c) = .ok (r.taxonomy.classQuery q c) := by
  rw [query, consistent, (Taxonomy.hasClass_iff h.taxonomy).2 known]
  rfl

/-- So is one about an individual that is known. -/
theorem query_aboutIndividual (h : r.Sound) (consistent : r.isConsistent = true)
    (known : KnowsIndividual r.axioms i) (direct : Bool) :
    r.query (.aboutIndividual direct) (.ofIndividual i) =
      .ok (r.taxonomy.typeQuery direct i) := by
  rw [query, consistent, (Taxonomy.hasIndividual_iff h.taxonomy).2 known]
  rfl

/-- What a query about a known class names, from what its nodes name. -/
theorem listsClasses_of (h : r.Sound) (consistent : r.isConsistent = true)
    (known : KnowsClass r.axioms c) {q : ClassQuery} {P Q : ClassName → Prop}
    (names : ∀ x, (r.taxonomy.classQuery q c).containsEntity x = true ↔
      ∃ d ∈ r.taxonomy.classes, x = .ofClass d ∧ Q d)
    (same : ∀ d, KnowsClass r.axioms d → (Q d ↔ P d)) :
    r.ListsClasses (.aboutClass q) (.ofClass c) P := by
  refine ⟨_, query_aboutClass h consistent known q, fun x => (names x).trans ?_⟩
  simp only [Taxonomy.mem_classes h.taxonomy]
  constructor
  · rintro ⟨d, hd, rfl, hQ⟩
    exact ⟨d, rfl, hd, (same d hd).1 hQ⟩
  · rintro ⟨d, rfl, hd, hP⟩
    exact ⟨d, hd, rfl, (same d hd).2 hP⟩

section

variable (sound : r.Sound) (held : ∀ a ∈ r.axioms, a.Valid) (consistent : r.isConsistent = true)
include sound held consistent

/-- The instances listed are those whose assertion is entailed. -/
theorem lists_instances (known : KnowsClass r.axioms c) :
    r.ListsIndividuals (.aboutClass .instances) (.ofClass c) fun i =>
      r.isEntailed (.classAssertion c i) = .ok true := by
  have model := sound.isConsistent_iff.1 consistent
  have entailed : ∀ i, KnowsIndividual r.axioms i → r.isEntailed (.classAssertion c i) =
      .ok (decide (c ∈ r.taxonomy.types i)) := fun i hi =>
    sound.isEntailed_classAssertion model (text_ne_of_knows held known)
      (text_ne_of_knowsIndividual held hi)
  refine ⟨_, query_aboutClass sound consistent known _, fun x => ?_⟩
  rw [Taxonomy.classQuery, Taxonomy.containsEntity_instanceNodes]
  simp only [Taxonomy.mem_individuals sound.taxonomy]
  constructor
  · rintro ⟨i, hi, rfl, hc⟩
    refine ⟨i, rfl, hi, ?_⟩
    rw [entailed i hi, decide_eq_true hc]
  · rintro ⟨i, rfl, hi, hc⟩
    rw [entailed i hi, Except.ok.injEq, decide_eq_true_eq] at hc
    exact ⟨i, hi, rfl, hc⟩

/-- The types listed are those whose assertion is entailed. -/
theorem lists_types (known : KnowsIndividual r.axioms i) :
    r.ListsClasses (.aboutIndividual false) (.ofIndividual i) fun d =>
      r.isEntailed (.classAssertion d i) = .ok true := by
  have model := sound.isConsistent_iff.1 consistent
  have entailed : ∀ d, KnowsClass r.axioms d → r.isEntailed (.classAssertion d i) =
      .ok (decide (d ∈ r.taxonomy.types i)) := fun d hd =>
    sound.isEntailed_classAssertion model (text_ne_of_knows held hd)
      (text_ne_of_knowsIndividual held known)
  have free := Taxonomy.isClash_types sound.taxonomy model i
  refine ⟨_, query_aboutIndividual sound consistent known false, fun x => ?_⟩
  rw [Taxonomy.typeQuery, if_neg Bool.false_ne_true,
    Taxonomy.containsEntity_typeNodes sound.taxonomy free]
  constructor
  · rintro ⟨d, hd, rfl⟩
    have hd' := (Taxonomy.mem_classes sound.taxonomy).1
      (Taxonomy.mem_classes_of_mem_types sound.taxonomy hd)
    exact ⟨d, rfl, hd', (entailed d hd').trans (by rw [decide_eq_true hd])⟩
  · rintro ⟨d, rfl, hd', hd⟩
    have hd : decide (d ∈ r.taxonomy.types i) = true :=
      Except.ok.inj ((entailed d hd').symm.trans hd)
    exact ⟨d, of_decide_eq_true hd, rfl⟩

end

/-- **Queries agree with entailment.** A consistent reasoner built from valid axioms answers every
query about a known name. The answer names the classes below and above the class for equivalence,
those strictly above or strictly below it for the hierarchy, those that are entailed to be disjoint
from it, where the class is disjoint from itself if it is entailed to be empty, the individuals that
are entailed to be in it, and the classes that an individual is entailed to be in. -/
theorem query_iff_isEntailed (built : r.Built) (consistent : r.isConsistent = true) :
    (∀ c, KnowsClass r.axioms c →
      r.ListsClasses (.aboutClass .equivalentClasses) (.ofClass c) (fun d =>
        r.isEntailed (.subClassOf c d) = .ok true ∧ r.isEntailed (.subClassOf d c) = .ok true) ∧
      r.ListsClasses (.aboutClass (.superClasses false)) (.ofClass c) (fun d =>
        r.isEntailed (.subClassOf c d) = .ok true ∧ r.isEntailed (.subClassOf d c) = .ok false) ∧
      r.ListsClasses (.aboutClass (.subClasses false)) (.ofClass c) (fun d =>
        r.isEntailed (.subClassOf c d) = .ok false ∧ r.isEntailed (.subClassOf d c) = .ok true) ∧
      r.ListsClasses (.aboutClass .disjointClasses) (.ofClass c) (fun d =>
        if d = c then r.isEntailed (.subClassOf c ClassName.nothing) = .ok true
        else r.isEntailed (.disjointClasses (.ofList [c, d])) = .ok true) ∧
      r.ListsIndividuals (.aboutClass .instances) (.ofClass c) (fun i =>
        r.isEntailed (.classAssertion c i) = .ok true)) ∧
    ∀ i, KnowsIndividual r.axioms i →
      r.ListsClasses (.aboutIndividual false) (.ofIndividual i) (fun d =>
        r.isEntailed (.classAssertion d i) = .ok true) := by
  obtain ⟨sound, held⟩ := built_invariant built
  have model := sound.isConsistent_iff.1 consistent
  have told := sound.taxonomy
  have named : ∀ {c}, KnowsClass r.axioms c → c.text ≠ "" := text_ne_of_knows held
  refine ⟨fun c known => ?_, fun i known => ?_⟩
  · have classes := (Taxonomy.mem_classes told).2 known
    -- entailment answers by the same closures that the queries read
    have below : ∀ d, KnowsClass r.axioms d →
        r.isEntailed (.subClassOf c d) = .ok (r.taxonomy.isBelow c d) ∧
          r.isEntailed (.subClassOf d c) = .ok (r.taxonomy.isBelow d c) := fun d hd =>
      ⟨sound.isEntailed_subClassOf model (named known) (named hd),
        sound.isEntailed_subClassOf model (named hd) (named known)⟩
    refine ⟨?_, ?_, ?_, ?_, ?_⟩
    · refine listsClasses_of sound consistent known
        (fun x => Taxonomy.containsEntity_equivalentClasses told classes) fun d hd => ?_
      rw [(below d hd).1, (below d hd).2, Except.ok.injEq, Except.ok.injEq]
    · refine listsClasses_of sound consistent known
        (fun x => Taxonomy.containsEntity_superNodes told classes) fun d hd => ?_
      rw [(below d hd).1, (below d hd).2, Except.ok.injEq, Except.ok.injEq]
    · refine listsClasses_of sound consistent known
        (fun x => Taxonomy.containsEntity_subNodes told classes) fun d hd => ?_
      rw [(below d hd).1, (below d hd).2, Except.ok.injEq, Except.ok.injEq]
    · refine listsClasses_of sound consistent known
        (fun x => Taxonomy.containsEntity_disjointNodes told c) fun d hd => ?_
      split
      · rename_i same
        rw [sound.isEntailed_subClassOf model (named known) (by decide),
          sound.isBelow_nothing model, Except.ok.injEq, same]
      · rename_i ne
        rw [sound.isEntailed_disjointClasses model (named known) (named hd) ne, Except.ok.injEq]
    · exact lists_instances sound held consistent known
  · exact lists_types sound held consistent known

/-- Pets that include griffins: cats and birds at once, so that there is none. -/
def bestiary : List Axiom :=
  pets ++ [.subClassOf ⟨"Griffin"⟩ ⟨"Cat"⟩, .subClassOf ⟨"Griffin"⟩ ⟨"Bird"⟩]

/-- Griffins lie below everything that is known, and so are found below cats and apart from
themselves, and Felix is found among the mammals. -/
theorem bestiary_queried :
    let r := ((new "bestiary").serve (.apply bestiary [])).2
    r.Built ∧ r.isConsistent = true ∧ KnowsClass r.axioms ⟨"Griffin"⟩ ∧
      r.isEntailed (.subClassOf ⟨"Griffin"⟩ ⟨"Cat"⟩) = .ok true ∧
      r.isEntailed (.subClassOf ⟨"Cat"⟩ ⟨"Griffin"⟩) = .ok false ∧
      r.isEntailed (.subClassOf ⟨"Griffin"⟩ ClassName.nothing) = .ok true ∧
      r.isEntailed (.classAssertion ⟨"Mammal"⟩ ⟨"felix"⟩) = .ok true := by
  intro r
  have built : r.Built :=
    .serve (q := .apply bestiary []) (.new "bestiary") (by decide +kernel : ∀ a ∈ bestiary, a.Valid)
  have consistent : r.isConsistent = true := by decide +kernel
  obtain ⟨about, -⟩ := query_iff_isEntailed built consistent
  have griffin : KnowsClass r.axioms ⟨"Griffin"⟩ :=
    .inr (.inr ⟨.subClassOf ⟨"Griffin"⟩ ⟨"Cat"⟩, by decide +kernel, by decide +kernel⟩)
  have mammal : KnowsClass r.axioms ⟨"Mammal"⟩ :=
    .inr (.inr ⟨.subClassOf ⟨"Cat"⟩ ⟨"Mammal"⟩, by decide +kernel, by decide +kernel⟩)
  obtain ⟨-, ⟨ns, above, names⟩, -, ⟨ns', apart, names'⟩, -⟩ := about ⟨"Griffin"⟩ griffin
  obtain ⟨-, -, -, -, ns'', instances, names''⟩ := about ⟨"Mammal"⟩ mammal
  have found : (r.query (.aboutClass (.superClasses false)) (.ofClass ⟨"Griffin"⟩)).toOption.map
      (·.containsEntity (.ofClass ⟨"Cat"⟩)) = some true := by decide +kernel
  have found' : (r.query (.aboutClass .disjointClasses) (.ofClass ⟨"Griffin"⟩)).toOption.map
      (·.containsEntity (.ofClass ⟨"Griffin"⟩)) = some true := by decide +kernel
  have found'' : (r.query (.aboutClass .instances) (.ofClass ⟨"Mammal"⟩)).toOption.map
      (·.containsEntity (.ofIndividual ⟨"felix"⟩)) = some true := by decide +kernel
  rw [above] at found
  rw [apart] at found'
  rw [instances] at found''
  obtain ⟨d, hd, -, up, down⟩ := (names _).1 (Option.some.inj found)
  obtain ⟨d', hd', -, empty⟩ := (names' _).1 (Option.some.inj found')
  obtain ⟨i, hi, -, felix⟩ := (names'' _).1 (Option.some.inj found'')
  cases hd
  cases hd'
  cases hi
  exact ⟨built, consistent, griffin, up, down, (by simpa using empty), felix⟩

end Reasoner

end OntologyService
