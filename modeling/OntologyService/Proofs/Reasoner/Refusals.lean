import OntologyService.Proofs.Reasoner.Queries
import OntologyService.Proofs.Semantics.Locality

/-!
# How a query ends

A query is refused for one of three reasons or it is answered, and the reasons are looked at in a
fixed order: the axioms have no model, the query does not apply to that kind of entity, the entity
is not known. `query_cases` tells the four ends apart by what is true of the axioms. What it rests
on is that the two lookups of the taxonomy, which count occurrences from one change to the next,
find exactly the entities that the axioms of the moment mention (`knowsClass_iff`,
`knowsIndividual_iff`). Nothing else is left of the changes that led there.

**The law** (`query_ends_after`): after any history each end comes about under its condition and
under no other, and a change makes an entity unknown exactly if it takes back every axiom that
mentions it, those that the same batch adds among them.
-/

namespace OntologyService

/-- The entity is one of the two classes that are there without any axiom. -/
def Entity.Reserved (e : Entity) : Prop :=
  e = .ofClass ClassName.thing ∨ e = .ofClass ClassName.nothing

/-- One of the axioms mentions the entity. -/
def Mentions (axioms : AxiomSet) (e : Entity) : Prop := ∃ a ∈ axioms, e ∈ a.mentioned

/-- The kind of query is one that is put to this kind of entity. -/
def QueryKind.Takes : QueryKind → Entity → Prop
  | .aboutClass _, .ofClass _ | .aboutIndividual _, .ofIndividual _ => True
  | .aboutClass _, .ofIndividual _ | .aboutIndividual _, .ofClass _ => False

/-- Only an assertion mentions an individual. -/
theorem Axiom.ofIndividual_mem_mentioned {a : Axiom} {i : IndividualName} :
    Entity.ofIndividual i ∈ a.mentioned ↔ ∃ c, a = .classAssertion c i := by
  cases a <;> simp [mentioned, eq_comm]

section

variable {axioms : AxiomSet} {c : ClassName} {i : IndividualName}

/-- A class is known if and only if it is reserved or mentioned. -/
theorem knowsClass_iff :
    KnowsClass axioms c ↔ (Entity.ofClass c).Reserved ∨ Mentions axioms (.ofClass c) := by
  simp only [KnowsClass, Entity.Reserved, Mentions, Axiom.ofClass_mem_mentioned,
    Entity.ofClass.injEq, or_assoc]

/-- No individual is reserved. -/
theorem knowsIndividual_iff : KnowsIndividual axioms i ↔
    (Entity.ofIndividual i).Reserved ∨ Mentions axioms (.ofIndividual i) := by
  simp only [KnowsIndividual, Entity.Reserved, Mentions, Axiom.ofIndividual_mem_mentioned,
    reduceCtorEq, or_self, false_or]
  constructor
  · rintro ⟨c, asserted⟩
    exact ⟨_, asserted, c, rfl⟩
  · rintro ⟨_, held, c, rfl⟩
    exact ⟨c, held⟩

end

namespace Reasoner

variable {r : Reasoner} {kind : QueryKind} {e : Entity}

/-! ## One query -/

/-- **The four ends of a query**, in the order in which the reasons are looked at. -/
theorem query_cases (sound : r.Sound) (kind : QueryKind) (e : Entity) :
    (¬ Consistent r.axioms ∧ r.query kind e = .error (.inconsistent r.ontology)) ∨
      (Consistent r.axioms ∧ ¬ kind.Takes e ∧
        r.query kind e = .error (.invalidQuery kind.name e.render)) ∨
      (Consistent r.axioms ∧ kind.Takes e ∧ ¬ (e.Reserved ∨ Mentions r.axioms e) ∧
        r.query kind e = .error (.unknownEntity e.render)) ∨
      (Consistent r.axioms ∧ kind.Takes e ∧ (e.Reserved ∨ Mentions r.axioms e) ∧
        ∃ ns, r.query kind e = .ok ns) := by
  by_cases model : Consistent r.axioms
  · have bit := sound.isConsistent_iff.2 model
    refine .inr ?_
    -- with a model, the kind of query and the kind of entity decide which lookup is made, if any
    match kind, e with
    | .aboutClass q, .ofClass c =>
      refine .inr ?_
      rw [← knowsClass_iff, ← Taxonomy.hasClass_iff sound.taxonomy, query, bit]
      cases r.taxonomy.hasClass c with
      | true => exact .inr ⟨model, trivial, rfl, _, rfl⟩
      | false => exact .inl ⟨model, trivial, Bool.false_ne_true, rfl⟩
    | .aboutIndividual direct, .ofIndividual i =>
      refine .inr ?_
      rw [← knowsIndividual_iff, ← Taxonomy.hasIndividual_iff sound.taxonomy, query, bit]
      cases r.taxonomy.hasIndividual i with
      | true => exact .inr ⟨model, trivial, rfl, _, rfl⟩
      | false => exact .inl ⟨model, trivial, Bool.false_ne_true, rfl⟩
    | .aboutClass q, .ofIndividual i => exact .inl ⟨model, id, by rw [query, bit]; rfl⟩
    | .aboutIndividual direct, .ofClass c => exact .inl ⟨model, id, by rw [query, bit]; rfl⟩
  · have bit := mt sound.isConsistent_iff.1 model
    rw [Bool.not_eq_true] at bit
    refine .inl ⟨model, ?_⟩
    unfold query
    rw [bit]
    rfl

/-- Working the closures out beforehand does not show in the reply. -/
theorem serve_query (sound : r.Sound) (kind : QueryKind) (e : Entity) :
    (r.serve (.query kind e)).1 = .ofExcept .nodes (r.query kind e) := by
  have alike : r.settle.classify.Alike r :=
    ⟨sound.settle.classify, sound, settle_ontology r, settle_axioms r⟩
  exact congrArg (Reply.ofExcept .nodes) (alike.query_eq kind e)

/-- **How a query ends**: each end with the condition under which it comes about. Every query meets
the condition of one end. -/
structure Ends (r : Reasoner) (kind : QueryKind) (e : Entity) : Prop where
  inconsistent : (r.serve (.query kind e)).1 = .refused (.inconsistent r.ontology) ↔
    ¬ Consistent r.axioms
  misplaced : (r.serve (.query kind e)).1 = .refused (.invalidQuery kind.name e.render) ↔
    Consistent r.axioms ∧ ¬ kind.Takes e
  unknown : (r.serve (.query kind e)).1 = .refused (.unknownEntity e.render) ↔
    Consistent r.axioms ∧ kind.Takes e ∧ ¬ (e.Reserved ∨ Mentions r.axioms e)
  answered : (∃ ns, (r.serve (.query kind e)).1 = .nodes ns) ↔
    Consistent r.axioms ∧ kind.Takes e ∧ (e.Reserved ∨ Mentions r.axioms e)

/-- The ends exclude one another, and so do their conditions. -/
theorem Sound.ends (sound : r.Sound) (kind : QueryKind) (e : Entity) : r.Ends kind e := by
  have served := serve_query sound kind e
  rcases query_cases sound kind e with ⟨model, end_⟩ | ⟨model, takes, end_⟩ |
      ⟨model, takes, known, end_⟩ | ⟨model, takes, known, ns, end_⟩ <;>
    rw [end_] at served
  · constructor <;> simp [served, Reply.ofExcept, model]
  · constructor <;> simp [served, Reply.ofExcept, model, takes]
  · constructor <;> simp [served, Reply.ofExcept, model, takes, known]
  · constructor <;> simp [served, Reply.ofExcept, model, takes, known]

/-! ## One change -/

/-- **When an entity is forgotten**: what a batch makes unknown, and what the removals of a batch
make unknown of that which got an answer before. -/
structure Forgets (r : Reasoner) (kind : QueryKind) (e : Entity) : Prop where
  changed : ∀ additions removals, let r' := (r.serve (.apply additions removals)).2
    kind.Takes e → Consistent r'.axioms →
      ((r'.serve (.query kind e)).1 = .refused (.unknownEntity e.render) ↔
        ¬ e.Reserved ∧
          ∀ a, a ∈ r.axioms ∨ a ∈ additions → e ∈ a.mentioned → a ∈ removals)
  removed : ∀ removals, let r' := (r.serve (.apply [] removals)).2
    (∃ ns, (r.serve (.query kind e)).1 = .nodes ns) →
      ((r'.serve (.query kind e)).1 = .refused (.unknownEntity e.render) ↔
        ¬ e.Reserved ∧ ∀ a ∈ r.axioms, e ∈ a.mentioned → a ∈ removals)

/-- What is held after a batch is what was held or added, less what is removed. -/
theorem mem_apply {r : Reasoner} (sound : r.Sound) {additions removals : List Axiom} {a : Axiom} :
    a ∈ (r.serve (.apply additions removals)).2.axioms ↔
      (a ∈ r.axioms ∨ a ∈ additions) ∧ a ∉ removals := by
  rw [(sound.serve _).2.2, Request.change, SortedSet.mem_sdiff, SortedSet.mem_union,
    SortedSet.mem_ofList, SortedSet.mem_ofList]

/-- Nothing is left that mentions an entity exactly if all that mentioned it is taken back. -/
theorem mentions_apply {r : Reasoner} (sound : r.Sound) {additions removals : List Axiom} :
    Mentions (r.serve (.apply additions removals)).2.axioms e ↔
      ¬ ∀ a, a ∈ r.axioms ∨ a ∈ additions → e ∈ a.mentioned → a ∈ removals := by
  simp only [Mentions, mem_apply sound]
  grind

/-- An entity is unknown after a batch if and only if every axiom that mentions it was removed. -/
theorem unknown_apply_iff (sound : r.Sound) {additions removals : List Axiom}
    (takes : kind.Takes e) (model : Consistent (r.serve (.apply additions removals)).2.axioms) :
    ((r.serve (.apply additions removals)).2.serve (.query kind e)).1 =
        .refused (.unknownEntity e.render) ↔
      ¬ e.Reserved ∧ ∀ a, a ∈ r.axioms ∨ a ∈ additions → e ∈ a.mentioned → a ∈ removals := by
  rw [((sound.serve _).1.ends kind e).unknown, mentions_apply sound]
  simp only [model, takes, true_and, not_or, not_not]

/-- An engine within its invariant forgets what is no longer mentioned. -/
theorem Sound.forgets (sound : r.Sound) (kind : QueryKind) (e : Entity) : r.Forgets kind e where
  changed _ _ := unknown_apply_iff sound
  removed := by
    intro removals r' answered
    obtain ⟨model, takes, -⟩ := (sound.ends kind e).answered.1 answered
    -- what is left of axioms with a model has that model
    have model' : Consistent r'.axioms :=
      model.mono fun a ha => ((mem_apply sound).1 ha).1.resolve_right List.not_mem_nil
    simp only [unknown_apply_iff sound takes model', List.not_mem_nil, or_false, r']

/-! ## The law -/

/-- **Every query ends for its reason.** After any history of changes and reads, the axioms held are
those that the changes make of none. A query is refused as inconsistent exactly if they have no
model; else as misplaced exactly if it is put to the other kind of entity; else as about an unknown
entity exactly if none of them mentions it and it is no reserved class; and else it is answered. So
an entity becomes unknown by the removal of the last axiom that mentions it, and by nothing else. -/
theorem query_ends_after (ontology : String) (history : List Request) :
    let r := (new ontology).after history
    r.ontology = ontology ∧ r.axioms = history.foldl Request.change ∅ ∧
      ∀ kind e, r.Ends kind e ∧ r.Forgets kind e := by
  intro r
  obtain ⟨sound, name, axioms⟩ := Sound.after history (sound_new ontology)
  exact ⟨name, axioms, fun kind e => ⟨sound.ends kind e, sound.forgets kind e⟩⟩

/-- Felix, a cat and also called a mammal, is still known when he is no longer called a cat, and is
unknown when he is called neither. -/
theorem felix_forgotten :
    let called (c : ClassName) : Axiom := .classAssertion c ⟨"felix"⟩
    let r := (new "pets").after [.apply (called ⟨"Mammal"⟩ :: pets) []]
    let types := Request.query (.aboutIndividual false) (.ofIndividual ⟨"felix"⟩)
    let unknown := Reply.refused (.unknownEntity "individual felix")
    (∃ ns, (r.serve types).1 = .nodes ns) ∧
      ((r.serve (.apply [] [called ⟨"Cat"⟩])).2.serve types).1 ≠ unknown ∧
      ((r.serve (.apply [] [called ⟨"Cat"⟩, called ⟨"Mammal"⟩])).2.serve types).1 = unknown := by
  intro called r types unknown
  obtain ⟨-, -, ends⟩ := query_ends_after "pets" [.apply (called ⟨"Mammal"⟩ :: pets) []]
  obtain ⟨-, forgets⟩ := ends (.aboutIndividual false) (.ofIndividual ⟨"felix"⟩)
  have known : (match (r.serve types).1 with | .nodes _ => true | _ => false) = true := by
    decide +kernel
  have answered : ∃ ns, (r.serve types).1 = .nodes ns := by
    cases reply : (r.serve types).1 with
    | nodes ns => exact ⟨ns, rfl⟩
    | _ => rw [reply] at known; cases known
  have named : ∀ a ∈ r.axioms, Entity.ofIndividual ⟨"felix"⟩ ∈ a.mentioned →
      a ∈ [called ⟨"Cat"⟩, called ⟨"Mammal"⟩] := by decide +kernel
  refine ⟨answered, fun lost => ?_, (forgets.removed _ answered).2 ⟨?_, named⟩⟩
  · have last := ((forgets.removed _ answered).1 lost).2 (called ⟨"Mammal"⟩)
    exact absurd (last (by decide +kernel) (by decide +kernel)) (by decide +kernel)
  · rintro (same | same) <;> cases same

end Reasoner

end OntologyService
