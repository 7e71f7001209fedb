import OntologyService.Proofs.Explanation.Generator

/-!
# The relevant axioms, in whatever order they are found

The signature grows while the axioms are looked at, so what a single pass takes depends on the order
of the axioms. What the loop of passes comes to does not. `Gathers` lets every pass visit what is
left in an order of its own; each of its states is covered in the sense of `Relevance`, so wherever
a pass takes nothing, what has been taken is what is connected to the seed (`Gathers.taken_eq`), and
a pass that does take something leaves fewer axioms (`Gathers.count`).

**The law** (`relevant_saturated`): the relevant axioms of a consistent reasoner are the least set
of its axioms that holds whatever shares a name with the statement, with a reserved class or with an
axiom of the set; every such loop ends with this set; and any axioms of the reasoner entail the
statement exactly if those of them that are in the set do, for the interpretations and for an engine
that is made of them.
-/

namespace OntologyService

namespace Axiom

/-- The axioms have a class or an individual in common. -/
def Shares (a b : Axiom) : Prop := ∃ e ∈ a.mentioned, e ∈ b.mentioned

/-- The axiom mentions one of the two reserved classes. -/
def MentionsReserved (a : Axiom) : Prop :=
  .ofClass ClassName.thing ∈ a.mentioned ∨ .ofClass ClassName.nothing ∈ a.mentioned

end Axiom

/-! ## Passes in any order -/

namespace Relevance

variable {seed : SortedSet Entity} {axioms : AxiomSet} {n : Nat} {p : Pass} {order : List Axiom}

/-- A pass over axioms in this order, on top of what was taken before. -/
def Pass.visit (p : Pass) (order : List Axiom) : Pass :=
  pass { signature := p.signature, taken := p.taken } order

/-- **A loop of passes**, with the number of those that took something. Each visits what the one
before left out, in an order of its own. -/
inductive Gathers (seed : SortedSet Entity) (axioms : AxiomSet) : Nat → Pass → Prop
  | start : Gathers seed axioms 0 { signature := seed, taken := ∅, skipped := axioms.toList }
  | visit {n : Nat} {p : Pass} {order : List Axiom} (h : Gathers seed axioms n p)
    (visited : order.Perm p.skipped) (took : (p.visit order).skipped.length ≠ order.length) :
    Gathers seed axioms (n + 1) (p.visit order)

/-- What is gathered in a pass covers the axioms. -/
theorem Gathers.covers (h : Gathers seed axioms n p) :
    Covers seed axioms.toList p.signature p.taken p.skipped := by
  induction h with
  | start => exact covers_start seed axioms.toList
  | @visit n p order _ visited _ ih =>
    exact pass_covers order { signature := p.signature, taken := p.taken } (ih.perm visited)

/-- A pass skips no more axioms than it visits. -/
theorem visit_skipped_length (p : Pass) (order : List Axiom) :
    (p.visit order).skipped.length ≤ order.length := by
  have fewer := pass_skipped_length order { signature := p.signature, taken := p.taken }
  rwa [List.length_nil, Nat.zero_add] at fewer

/-- Every pass that takes something leaves fewer axioms. -/
theorem Gathers.count (h : Gathers seed axioms n p) : n + p.skipped.length ≤ axioms.size := by
  induction h with
  | start => exact Nat.le_of_eq (Nat.zero_add _)
  | @visit n p order _ visited took ih =>
    have fewer := visit_skipped_length p order
    rw [← visited.length_eq] at ih
    omega

/-- **Where a pass takes nothing**, what is connected has been taken. -/
theorem Gathers.taken_eq (h : Gathers seed axioms n p) (visited : order.Perm p.skipped)
    (idle : (p.visit order).skipped.length = order.length) :
    p.taken = connected seed axioms.toList := by
  have apart := pass_idle order { signature := p.signature, taken := p.taken }
    (idle.trans (Nat.zero_add _).symm)
  refine SortedSet.ext fun a => ?_
  rw [(h.covers.perm visited).mem_taken apart, mem_connected]

end Relevance

/-! ## The least set -/

namespace Reasoner

variable {r : Reasoner} {x : Axiom}

/-- The set holds every axiom of the reasoner that has a name in common with the statement, with a
reserved class, or with an axiom of the set. -/
def Saturated (r : Reasoner) (x : Axiom) (M : AxiomSet) : Prop :=
  ∀ a ∈ r.axioms, a.Shares x ∨ a.MentionsReserved ∨ (∃ b ∈ M, a.Shares b) → a ∈ M

/-- **The module of a statement**: the least set that is saturated. -/
structure IsModule (r : Reasoner) (x : Axiom) (M : AxiomSet) : Prop where
  within : ∀ a ∈ M, a ∈ r.axioms
  saturated : r.Saturated x M
  least : ∀ M', r.Saturated x M' → ∀ a ∈ M, a ∈ M'

/-- An axiom touches the seed if it shares an entity with the goal or mentions a reserved one. -/
theorem exists_mem_seed_iff (valid : x.Valid) {a : Axiom} :
    (∃ e ∈ a.mentioned, e ∈ Relevance.seed (.ofAxiom x)) ↔ a.Shares x ∨ a.MentionsReserved := by
  simp only [Relevance.seed, SortedSet.mem_insert, ClassExpression.mem_signature_ofAxiom valid]
  constructor
  · rintro ⟨e, mentioned, rfl | rfl | shared⟩
    · exact .inr (.inr mentioned)
    · exact .inr (.inl mentioned)
    · exact .inl ⟨e, mentioned, shared⟩
  · rintro (⟨e, mentioned, shared⟩ | mentioned | mentioned)
    · exact ⟨e, mentioned, .inr (.inr shared)⟩
    · exact ⟨_, mentioned, .inr (.inl rfl)⟩
    · exact ⟨_, mentioned, .inl rfl⟩

/-- Over axioms with a model, the relevant ones are those connected with the seed. -/
theorem relevant_eq (consistent : r.isConsistent = true) (e : ClassExpression) :
    r.relevant e = Relevance.connected (Relevance.seed e) r.axioms.toList := if_pos consistent

/-- **The relevant axioms** are the module of the statement. -/
theorem isModule_relevant (consistent : r.isConsistent = true) (valid : x.Valid) :
    r.IsModule x (r.relevant (.ofAxiom x)) := by
  have relevant {a : Axiom} : a ∈ r.relevant (.ofAxiom x) ↔
      Relevance.Connected (Relevance.seed (.ofAxiom x)) r.axioms.toList a := by
    rw [relevant_eq consistent]
    exact Relevance.mem_connected
  refine ⟨fun a ha => mem_of_mem_relevant ha, fun a ha names => ?_, fun M saturated a ha => ?_⟩
  · rw [← or_assoc, ← exists_mem_seed_iff valid] at names
    rcases names with ⟨e, mentioned, seeded⟩ | ⟨b, hb, e, mentioned, shared⟩
    · exact relevant.2 (.seeded ha mentioned seeded)
    · exact relevant.2 (.shared ha mentioned (relevant.1 hb) shared)
  · have connected := relevant.1 ha
    clear ha
    induction connected with
    | seeded listed mentioned seeded =>
      refine saturated _ listed ?_
      rw [← or_assoc, ← exists_mem_seed_iff valid]
      exact .inl ⟨_, mentioned, seeded⟩
    | shared listed mentioned _ shared ih =>
      exact saturated _ listed (.inr (.inr ⟨_, ih, _, mentioned, shared⟩))

/-! ## Entailment -/

/-- A consistent engine does not support a statement of too many pairs: it refuses it. -/
theorem not_supports_of_tooManyPairs {ontology : String} {axioms : AxiomSet}
    (valid : ∀ a ∈ axioms, a.Valid) (model : Consistent axioms) (valid_x : x.Valid)
    (large : x.TooManyPairs) : ¬ Supports ontology axioms x := by
  obtain ⟨r, made, built, -, held⟩ := Reasoner.ofAxioms_built ontology valid
  have same : r.axioms = axioms := SortedSet.ext held
  rintro ⟨r', made', answer⟩
  cases made.symm.trans made'
  rw [isEntailed_of_valid valid_x, (built_invariant built).1.isSatisfiable_refused (same ▸ model)
    (ClassExpression.dnf_ofAxiom_eq_error (Axiom.tooManyPairs_iff.1 large))] at answer
  cases answer

/-- To support a statement is to support it by the relevant axioms. -/
theorem supports_inter_iff {ontology : String} (sound : r.Sound) (held : ∀ a ∈ r.axioms, a.Valid)
    (consistent : r.isConsistent = true) (valid : x.Valid) {N M : AxiomSet}
    (sub : ∀ a ∈ N, a ∈ r.axioms) (entails : Entails N x ↔ Entails (N.inter M) x) :
    Supports ontology N x ↔ Supports ontology (N.inter M) x := by
  have part : ∀ a ∈ N.inter M, a ∈ r.axioms := fun a ha => sub a (SortedSet.mem_inter.1 ha).1
  have valid_N : ∀ a ∈ N, a.Valid := fun a ha => held a (sub a ha)
  have valid_part : ∀ a ∈ N.inter M, a.Valid := fun a ha => held a (part a ha)
  by_cases large : x.TooManyPairs
  · have model := sound.isConsistent_iff.1 consistent
    exact iff_of_false (not_supports_of_tooManyPairs valid_N (model.mono sub) valid large)
      (not_supports_of_tooManyPairs valid_part (model.mono part) valid large)
  · rw [supports_iff valid_N valid large, supports_iff valid_part valid large, entails]

/-- **The relevant axioms are the module, in whatever order they are found.** Of a consistent
reasoner they are the least saturated set. At every point of a loop of passes, whatever the order in
which the next one visits the axioms that are left, it either takes nothing, and the relevant axioms
have been taken, or the loop goes on; and it goes on at most as often as there are axioms. And any
axioms of the reasoner entail the statement exactly if the relevant ones among them do. -/
theorem relevant_saturated (built : r.Built) (consistent : r.isConsistent = true)
    (valid : x.Valid) :
    r.IsModule x (r.relevant (.ofAxiom x)) ∧
      (∀ n p, Relevance.Gathers (Relevance.seed (.ofAxiom x)) r.axioms n p →
        n ≤ r.axioms.size ∧ ∀ order : List Axiom, order.Perm p.skipped →
          ((p.visit order).skipped.length = order.length ∧ p.taken = r.relevant (.ofAxiom x)) ∨
            Relevance.Gathers (Relevance.seed (.ofAxiom x)) r.axioms (n + 1) (p.visit order)) ∧
      ∀ N : AxiomSet, (∀ a ∈ N, a ∈ r.axioms) →
        (Entails N x ↔ Entails (N.inter (r.relevant (.ofAxiom x))) x) ∧
          ∀ ontology, Supports ontology N x ↔
            Supports ontology (N.inter (r.relevant (.ofAxiom x))) x := by
  obtain ⟨sound, held⟩ := built_invariant built
  refine ⟨isModule_relevant consistent valid, fun n p gathers => ⟨?_, fun order visited => ?_⟩,
    fun N sub => ?_⟩
  · exact Nat.le_trans (Nat.le_add_right n _) gathers.count
  · by_cases idle : (p.visit order).skipped.length = order.length
    · rw [relevant_eq consistent]
      exact .inl ⟨idle, gathers.taken_eq visited idle⟩
    · exact .inr (gathers.visit visited idle)
  · have entails : Entails N x ↔ Entails (N.inter (r.relevant (.ofAxiom x))) x :=
      ⟨entails_relevant sound valid sub, fun h => h.mono fun a ha => (SortedSet.mem_inter.1 ha).1⟩
    exact ⟨entails, fun _ => supports_inter_iff sound held consistent valid sub entails⟩

/-- An axiom that is found only after one that is listed behind it, and one that is never found. -/
def chained : List Axiom :=
  [.subClassOf ⟨"A"⟩ ⟨"B"⟩, .subClassOf ⟨"B"⟩ ⟨"C"⟩, .subClassOf ⟨"X"⟩ ⟨"Y"⟩]

/-- The two axioms of the chain matter to a statement about its end, and the third does not. -/
theorem relevant_chained :
    let r := ((new "chain").serve (.apply chained [])).2
    r.Built ∧ r.isConsistent = true ∧ (Axiom.subClassOf ⟨"C"⟩ ⟨"D"⟩).Valid ∧
      r.IsModule (.subClassOf ⟨"C"⟩ ⟨"D"⟩) (.ofList (chained.take 2)) := by
  intro r
  have built : r.Built :=
    .serve (q := .apply chained []) (.new "chain") (by decide +kernel : ∀ a ∈ chained, a.Valid)
  have consistent : r.isConsistent = true := by decide +kernel
  have valid : (Axiom.subClassOf ⟨"C"⟩ ⟨"D"⟩).Valid := by decide +kernel
  have found : r.relevant (.ofAxiom (.subClassOf ⟨"C"⟩ ⟨"D"⟩)) = .ofList (chained.take 2) := by
    decide +kernel
  refine ⟨built, consistent, valid, ?_⟩
  rw [← found]
  exact (relevant_saturated built consistent valid).1

end Reasoner

end OntologyService
