import OntologyService.Explanation.Relevance
import OntologyService.Proofs.Reasoner.Decision
import OntologyService.Proofs.Semantics.Locality

/-!
# The relevant axioms are enough

An axiom is **connected** to a signature if it mentions an entity of it, or of a connected axiom
(`Connected`). `Relevance.connected` collects axioms in passes. What holds throughout is `Covers`:
the axioms taken so far are connected, what they mention and the seed make up the signature met so
far, and every other axiom is still to be looked at. A pass either takes an axiom or shows that none
of those left touches the signature, so the bound on the number of passes is never felt, and what is
taken in the end is what is connected (`mem_connected`).

**The law** (`entails_relevant`): a set of axioms of a reasoner entails a valid axiom exactly if its
relevant part does. In an ontology with a model this is locality. In one without, everything is
relevant, and there is nothing to show.
-/

namespace OntologyService

/-! ## The signature of an expression -/

namespace ClassExpression

mutual

/-- What an expression adds to the entities seen is its signature. -/
theorem mem_mentionedOnto {a : Entity} : ∀ (e : ClassExpression) (seen : SortedSet Entity),
    a ∈ mentionedOnto seen e ↔ a ∈ seen ∨ a ∈ e.signature
  | .ofClass c, seen => by
    simp only [signature, mentionedOnto, SortedSet.mem_insert, SortedSet.not_mem_empty, or_false]
    exact or_comm
  | .nominal i, seen => by
    simp only [signature, mentionedOnto, SortedSet.mem_insert, SortedSet.not_mem_empty, or_false]
    exact or_comm
  | .not e, seen => by
    rw [mentionedOnto, mem_mentionedOnto e seen, signature, signature, mentionedOnto]
  | .and es, seen => by
    rw [mentionedOnto, mem_mentionedInOnto es seen, signature, mentionedOnto,
      mem_mentionedInOnto es ∅]
    simp only [SortedSet.not_mem_empty, false_or]
  | .or es, seen => by
    rw [mentionedOnto, mem_mentionedInOnto es seen, signature, mentionedOnto,
      mem_mentionedInOnto es ∅]
    simp only [SortedSet.not_mem_empty, false_or]

/-- What a list of expressions adds is the signatures of its members. -/
theorem mem_mentionedInOnto {a : Entity} : ∀ (es : List ClassExpression) (seen : SortedSet Entity),
    a ∈ mentionedInOnto seen es ↔ a ∈ seen ∨ ∃ e ∈ es, a ∈ e.signature
  | [], seen => by simp only [mentionedInOnto, List.not_mem_nil, false_and, exists_false, or_false]
  | e :: es, seen => by
    rw [mentionedInOnto, mem_mentionedInOnto es, mem_mentionedOnto e seen,
      List.exists_mem_cons_iff, or_assoc]

end

/-- The signature of a disjunction is that of its members. -/
theorem mem_signature_or {a : Entity} {es : List ClassExpression} :
    a ∈ (ClassExpression.or es).signature ↔ ∃ e ∈ es, a ∈ e.signature := by
  rw [signature, mentionedOnto, mem_mentionedInOnto]
  simp only [SortedSet.not_mem_empty, false_or]

theorem mem_signature_pair {a : Entity} {e f : ClassExpression} :
    a ∈ (ClassExpression.and [e, f]).signature ↔ a ∈ e.signature ∨ a ∈ f.signature := by
  rw [signature, mentionedOnto, mem_mentionedInOnto]
  simp only [SortedSet.not_mem_empty, false_or, List.mem_cons, List.not_mem_nil, or_false,
    exists_eq_or_imp, exists_eq_left]

theorem mem_signature_ofClass {a : Entity} {c : ClassName} :
    a ∈ (ClassExpression.ofClass c).signature ↔ a = .ofClass c := by
  rw [signature, mentionedOnto, SortedSet.mem_insert, or_iff_left (SortedSet.not_mem_empty a)]

theorem mem_signature_nominal {a : Entity} {i : IndividualName} :
    a ∈ (ClassExpression.nominal i).signature ↔ a = .ofIndividual i := by
  rw [signature, mentionedOnto, SortedSet.mem_insert, or_iff_left (SortedSet.not_mem_empty a)]

theorem mem_signature_not {a : Entity} {e : ClassExpression} :
    a ∈ (ClassExpression.not e).signature ↔ a ∈ e.signature := by
  rw [signature, mentionedOnto]
  exact Iff.rfl

/-- The signature of a difference is its two classes. -/
theorem mem_signature_difference {a : Entity} {c d : ClassName} :
    a ∈ (difference c d).signature ↔ a = .ofClass c ∨ a = .ofClass d := by
  rw [difference, mem_signature_pair, mem_signature_not, mem_signature_ofClass,
    mem_signature_ofClass]

/-- A valid group of classes has another beside each. -/
theorem exists_other {classes : ClassSet} (valid : Axiom.groupDefect? classes = none)
    (c : ClassName) : ∃ d ∈ classes, c ≠ d := by
  by_contra alone
  have same : ∀ b ∈ classes, b = c := by
    intro b hb
    by_contra ne
    exact alone ⟨b, hb, Ne.symm ne⟩
  have few : classes.size ≤ 1 :=
    SortedSet.size_le_one fun a ha b hb => (same a ha).trans (same b hb).symm
  rw [Axiom.groupDefect?, if_pos (by omega)] at valid
  cases valid

/-- **The expression of a valid axiom** mentions what the axiom mentions. A group of one class
would be told apart from nothing, and not be mentioned at all. -/
theorem mem_signature_ofAxiom {x : Axiom} (valid : x.Valid) {a : Entity} :
    a ∈ (ofAxiom x).signature ↔ a ∈ x.mentioned := by
  cases x with
  | subClassOf sub sup =>
    rw [ofAxiom, mem_signature_difference, Axiom.mentioned, List.mem_cons, List.mem_singleton]
  | equivalentClasses classes =>
    rw [ofAxiom, mem_signature_or, Axiom.mentioned, List.mem_map]
    constructor
    · rintro ⟨e, he, ha⟩
      obtain ⟨⟨c, d⟩, pair, rfl⟩ := List.mem_map.1 he
      obtain ⟨hc, hd, -⟩ := Axiom.mem_distinctPairs.1 pair
      rcases mem_signature_difference.1 ha with rfl | rfl
      · exact ⟨c, hc, rfl⟩
      · exact ⟨d, hd, rfl⟩
    · rintro ⟨c, hc, rfl⟩
      obtain ⟨d, hd, ne⟩ := exists_other valid c
      have pair := Axiom.mem_distinctPairs.2 ⟨hc, hd, Ne.symm ne⟩
      exact ⟨_, List.mem_map_of_mem pair, mem_signature_difference.2 (.inl rfl)⟩
  | disjointClasses classes =>
    rw [ofAxiom, mem_signature_or, Axiom.mentioned, List.mem_map]
    have both {c d : ClassName} : a ∈ (and [.ofClass c, .ofClass d]).signature ↔
        a = .ofClass c ∨ a = .ofClass d := by
      rw [mem_signature_pair, mem_signature_ofClass, mem_signature_ofClass]
    constructor
    · rintro ⟨e, he, ha⟩
      obtain ⟨⟨c, d⟩, pair, rfl⟩ := List.mem_map.1 he
      obtain ⟨hc, hd, -⟩ := mem_of_mem_laterPairs pair classes.nodup
      rcases both.1 ha with rfl | rfl
      · exact ⟨c, hc, rfl⟩
      · exact ⟨d, hd, rfl⟩
    · rintro ⟨c, hc, rfl⟩
      obtain ⟨d, hd, ne⟩ := exists_other valid c
      rcases mem_laterPairs_or ne hc hd with pair | pair
      · exact ⟨_, List.mem_map_of_mem pair, both.2 (.inl rfl)⟩
      · exact ⟨_, List.mem_map_of_mem pair, both.2 (.inr rfl)⟩
  | classAssertion cls individual =>
    rw [ofAxiom, mem_signature_pair, mem_signature_not, mem_signature_nominal,
      mem_signature_ofClass, Axiom.mentioned, List.mem_cons, List.mem_singleton, or_comm]

end ClassExpression

/-! ## The passes -/

namespace Relevance

/-- An axiom touches a signature if and only if it mentions an entity of it. -/
theorem touches_iff {signature : SortedSet Entity} {a : Axiom} :
    touches signature a = true ↔ ∃ e ∈ a.mentioned, e ∈ signature := by
  simp only [touches, List.any_eq_true, decide_eq_true_eq]

/-- **An axiom of the list is connected to a seed**: it mentions an entity of the seed, or one that
a connected axiom mentions. -/
inductive Connected (seed : SortedSet Entity) (axioms : List Axiom) : Axiom → Prop
  | seeded {a : Axiom} {e : Entity} (listed : a ∈ axioms) (mentioned : e ∈ a.mentioned)
    (seeded : e ∈ seed) : Connected seed axioms a
  | shared {a b : Axiom} {e : Entity} (listed : a ∈ axioms) (mentioned : e ∈ a.mentioned)
    (h : Connected seed axioms b) (shared : e ∈ b.mentioned) : Connected seed axioms a

/-- What is connected with a seed is among the axioms. -/
theorem Connected.listed {seed : SortedSet Entity} {axioms : List Axiom} {a : Axiom}
    (h : Connected seed axioms a) : a ∈ axioms := by
  cases h with
  | seeded listed _ _ => exact listed
  | shared listed _ _ _ => exact listed

/-- **What holds between two passes**: what is taken is connected, the signature is made up of the
seed and of what is taken, and every axiom is taken or left. -/
structure Covers (seed : SortedSet Entity) (axioms : List Axiom) (signature : SortedSet Entity)
    (taken : AxiomSet) (rest : List Axiom) : Prop where
  connected : ∀ a ∈ taken, Connected seed axioms a
  signature : ∀ e, e ∈ signature ↔ e ∈ seed ∨ ∃ a ∈ taken, e ∈ a.mentioned
  left : ∀ a ∈ rest, a ∈ axioms
  split : ∀ a ∈ axioms, a ∈ taken ∨ a ∈ rest

variable {seed : SortedSet Entity} {axioms : List Axiom}

/-- At the start nothing is taken, and every axiom is still to be looked at. -/
theorem covers_start (seed : SortedSet Entity) (axioms : List Axiom) :
    Covers seed axioms seed ∅ axioms where
  connected a ha := absurd ha (SortedSet.not_mem_empty a)
  signature _ := (or_iff_left fun ⟨a, ha, _⟩ => SortedSet.not_mem_empty a ha).symm
  left _ ha := ha
  split _ ha := .inr ha

/-- What a cover leaves may be looked at in any order. -/
theorem Covers.perm {signature : SortedSet Entity} {taken : AxiomSet} {rest order : List Axiom}
    (h : Covers seed axioms signature taken rest) (visited : order.Perm rest) :
    Covers seed axioms signature taken order where
  connected := h.connected
  signature := h.signature
  left a ha := h.left a (visited.mem_iff.1 ha)
  split a ha := (h.split a ha).imp_right visited.mem_iff.2

/-- Taking an axiom that touches the signature keeps the cover. -/
theorem Covers.take {signature : SortedSet Entity} {taken : AxiomSet} {before behind : List Axiom}
    {a : Axiom} (h : Covers seed axioms signature taken (before ++ a :: behind))
    (touched : touches signature a = true) :
    Covers seed axioms (a.mentioned.foldl (fun s e => s.insert e) signature) (taken.insert a)
      (before ++ behind) := by
  have listed : a ∈ axioms := h.left a (List.mem_append_right _ List.mem_cons_self)
  constructor
  · intro b hb
    rcases SortedSet.mem_insert.1 hb with rfl | hb
    · -- what is touched shares an entity with the seed or with an axiom that was taken
      obtain ⟨e, mentioned, he⟩ := touches_iff.1 touched
      rcases (h.signature e).1 he with seeded | ⟨c, hc, shared⟩
      · exact .seeded listed mentioned seeded
      · exact .shared listed mentioned (h.connected c hc) shared
    · exact h.connected b hb
  · intro e
    rw [SortedSet.mem_foldl_insert, h.signature]
    simp only [SortedSet.mem_insert, or_and_right, exists_or, exists_eq_left]
    rw [or_assoc, or_comm (a := e ∈ a.mentioned)]
  · intro b hb
    refine h.left b ?_
    rcases List.mem_append.1 hb with hb | hb
    · exact List.mem_append_left _ hb
    · exact List.mem_append_right _ (List.mem_cons_of_mem _ hb)
  · intro b hb
    rw [SortedSet.mem_insert, List.mem_append]
    rcases h.split b hb with hb | hb
    · exact .inl (.inr hb)
    · rcases List.mem_append.1 hb with hb | hb
      · exact .inr (.inl hb)
      · rcases List.mem_cons.1 hb with rfl | hb
        · exact .inl (.inl rfl)
        · exact .inr (.inr hb)

/-- **A pass** keeps the cover. -/
theorem pass_covers : ∀ (as : List Axiom) (p : Pass),
    Covers seed axioms p.signature p.taken (p.skipped ++ as) →
    Covers seed axioms (pass p as).signature (pass p as).taken (pass p as).skipped
  | [], p, h => by
    rw [pass]
    rw [List.append_nil] at h
    exact h
  | a :: as, p, h => by
    rw [pass]
    split
    · next touched => exact pass_covers as _ (h.take touched)
    · refine pass_covers as _ ?_
      rw [List.append_assoc, List.singleton_append]
      exact h

/-- A pass skips at most what it is given. -/
theorem pass_skipped_length : ∀ (as : List Axiom) (p : Pass),
    (pass p as).skipped.length ≤ p.skipped.length + as.length
  | [], p => Nat.le_refl _
  | a :: as, p => by
    rw [pass]
    split
    · have later := pass_skipped_length as { p with
        signature := a.mentioned.foldl (fun s e => s.insert e) p.signature
        taken := p.taken.insert a }
      rw [List.length_cons]
      exact Nat.le_trans later (by dsimp only; omega)
    · have later := pass_skipped_length as { p with skipped := p.skipped ++ [a] }
      rw [List.length_append, List.length_singleton] at later
      rw [List.length_cons]
      omega

/-- **A pass that skips everything** shows that nothing touches the signature. -/
theorem pass_idle : ∀ (as : List Axiom) (p : Pass),
    (pass p as).skipped.length = p.skipped.length + as.length →
    ∀ a ∈ as, touches p.signature a = false
  | [], _, _ => fun a ha => nomatch ha
  | a :: as, p, h => by
    rw [pass] at h
    split at h
    · have later := pass_skipped_length as { p with
        signature := a.mentioned.foldl (fun s e => s.insert e) p.signature
        taken := p.taken.insert a }
      rw [h, List.length_cons] at later
      dsimp only at later
      omega
    · rename_i apart
      have later := pass_idle as { p with skipped := p.skipped ++ [a] } (by
        rw [h, List.length_append, List.length_singleton, List.length_cons]
        omega)
      intro b hb
      rcases List.mem_cons.1 hb with rfl | hb
      · exact Bool.eq_false_iff.2 apart
      · exact later b hb

/-- **The passes** end with a cover whose remainder lies apart from its signature. -/
theorem passes_apart : ∀ (n : Nat) (signature : SortedSet Entity) (taken : AxiomSet)
    (rest : List Axiom), rest.length ≤ n → Covers seed axioms signature taken rest →
    ∃ signature' rest', Covers seed axioms signature' (passes n signature taken rest) rest' ∧
      ∀ a ∈ rest', touches signature' a = false
  | 0, signature, taken, rest, enough, h => by
    have none : rest = [] := List.length_eq_zero_iff.1 (Nat.le_zero.1 enough)
    exact ⟨signature, rest, h, fun a ha => nomatch none ▸ ha⟩
  | n + 1, signature, taken, rest, enough, h => by
    rw [passes]
    split
    · rename_i idle
      refine ⟨signature, rest, h, pass_idle rest { signature, taken } ?_⟩
      rw [idle, List.length_nil, Nat.zero_add]
    · rename_i took
      have fewer := pass_skipped_length rest { signature, taken }
      rw [List.length_nil, Nat.zero_add] at fewer
      exact passes_apart n _ _ _ (by omega) (pass_covers rest { signature, taken } h)

/-- **A cover whose remainder lies apart from its signature** has taken what is connected. -/
theorem Covers.mem_taken {signature : SortedSet Entity} {taken : AxiomSet} {rest : List Axiom}
    (h : Covers seed axioms signature taken rest) (apart : ∀ a ∈ rest, touches signature a = false)
    {a : Axiom} : a ∈ taken ↔ Connected seed axioms a := by
  have touched {b : Axiom} {e : Entity} (listed : b ∈ axioms) (mentioned : e ∈ b.mentioned)
      (met : e ∈ signature) : b ∈ taken := by
    refine (h.split b listed).resolve_right fun hb => ?_
    exact absurd (touches_iff.2 ⟨e, mentioned, met⟩) (Bool.eq_false_iff.1 (apart b hb))
  refine ⟨h.connected a, fun connected => ?_⟩
  induction connected with
  | seeded listed mentioned seeded =>
    exact touched listed mentioned ((h.signature _).2 (.inl seeded))
  | shared listed mentioned _ shared ih =>
    exact touched listed mentioned ((h.signature _).2 (.inr ⟨_, ih, shared⟩))

/-- **What the passes take** is what is connected. -/
theorem mem_connected {a : Axiom} : a ∈ connected seed axioms ↔ Connected seed axioms a := by
  obtain ⟨signature, rest, covers, apart⟩ :=
    passes_apart axioms.length seed ∅ axioms (Nat.le_refl _) (covers_start seed axioms)
  exact covers.mem_taken apart

/-- An entity of the seed, or one that a connected axiom mentions. -/
def Meets (seed : SortedSet Entity) (axioms : List Axiom) (e : Entity) : Prop :=
  e ∈ seed ∨ ∃ a, Connected seed axioms a ∧ e ∈ a.mentioned

/-- An axiom that mentions an entity that is met is connected. -/
theorem Meets.connected {e : Entity} (h : Meets seed axioms e) {a : Axiom} (listed : a ∈ axioms)
    (mentioned : e ∈ a.mentioned) : Connected seed axioms a := by
  rcases h with seeded | ⟨b, connected, shared⟩
  · exact .seeded listed mentioned seeded
  · exact .shared listed mentioned connected shared

end Relevance

/-! ## The law -/

namespace Reasoner

variable {r : Reasoner} {x : Axiom}

/-- Relevant axioms are axioms of the reasoner. -/
theorem mem_of_mem_relevant {e : ClassExpression} {a : Axiom} (h : a ∈ r.relevant e) :
    a ∈ r.axioms := by
  unfold relevant at h
  split at h
  · exact SortedSet.mem_iff.2 (Relevance.mem_connected.1 h).listed
  · exact h

/-- **The relevant axioms are enough**: what axioms of the reasoner entail, the relevant ones among
them entail. -/
theorem entails_relevant (sound : r.Sound) (valid : x.Valid) {axioms : AxiomSet}
    (sub : ∀ a ∈ axioms, a ∈ r.axioms) (h : Entails axioms x) :
    Entails (axioms.filter fun a => decide (a ∈ r.relevant (.ofAxiom x))) x := by
  unfold relevant
  by_cases bit : r.isConsistent = true
  · rw [if_pos bit]
    have seeded : ∀ e, e = .ofClass ClassName.nothing ∨ e = .ofClass ClassName.thing ∨
        e ∈ (ClassExpression.ofAxiom x).signature →
        Relevance.Meets (Relevance.seed (.ofAxiom x)) r.axioms.toList e := by
      intro e he
      refine .inl ?_
      rw [Relevance.seed, SortedSet.mem_insert, SortedSet.mem_insert]
      exact he
    refine Entails.of_apart
      (fun c => Relevance.Meets (Relevance.seed (.ofAxiom x)) r.axioms.toList (.ofClass c))
      (seeded _ (.inr (.inl rfl))) (seeded _ (.inl rfl))
      ((sound.isConsistent_iff.1 bit).mono sub) ?_ ?_ ?_ h
    · intro c hc
      refine seeded _ (.inr (.inr ?_))
      exact (ClassExpression.mem_signature_ofAxiom valid).2 (Axiom.ofClass_mem_mentioned.2 hc)
    · intro a ha c hc
      have taken := of_decide_eq_true (SortedSet.mem_filter.1 ha).2
      exact .inr ⟨a, Relevance.mem_connected.1 taken, Axiom.ofClass_mem_mentioned.2 hc⟩
    · intro a ha out c hc met
      have connected := met.connected (SortedSet.mem_iff.1 (sub a ha))
        (Axiom.ofClass_mem_mentioned.2 hc)
      exact out (SortedSet.mem_filter.2 ⟨ha, decide_eq_true (Relevance.mem_connected.2 connected)⟩)
  · rw [if_neg bit]
    -- without a model every axiom is relevant
    exact h.mono fun a ha => SortedSet.mem_filter.2 ⟨ha, decide_eq_true (sub a ha)⟩

/-- The relevant axioms entail what all of them entail. -/
theorem entails_relevant_iff (sound : r.Sound) (valid : x.Valid) :
    Entails (r.relevant (.ofAxiom x)) x ↔ Entails r.axioms x := by
  constructor
  · exact fun h => h.mono fun a ha => mem_of_mem_relevant ha
  · intro h
    refine (entails_relevant sound valid (fun _ ha => ha) h).mono fun a ha => ?_
    exact of_decide_eq_true (SortedSet.mem_filter.1 ha).2

end Reasoner

end OntologyService
