import Mathlib.Data.Option.Basic
import Mathlib.Logic.Basic
import OntologyService.Proofs.Semantics.Refutation
import OntologyService.Proofs.Taxonomy.Memo
import OntologyService.Reasoner.Basic

/-!
# The canonical interpretation

What a taxonomy says of one thing is a set of classes closed under the edges: the classes that the
thing starts from, `owl:Thing`, and everything above these (`Links.Above`). Such a set is a
**clash** if it holds `owl:Nothing` or two classes declared disjoint.

One direction is soundness. In a model of the axioms the classes of an element are closed under the
edges and never clash, so what an element starts from holds it in everything above
(`instances_of_above`, `not_clash`).

The other is completeness. `canonical` has the individuals for its elements and one element to
spare, and lets each be in what is above its start and in nothing else. It is an interpretation as
soon as no element clashes, and a model as soon as each individual starts from what it is asserted
to be (`canonical_models`). The spare element is the instance of expressions that no individual
need belong to.

**The laws** (`isConsistent_iff`, `canHold_iff`): a taxonomy is consistent exactly if its axioms
have a model, and a conjunct can hold exactly if it holds at an element of some model.
-/

namespace OntologyService

/-- The classes that the links lead to from `owl:Thing` and from the classes one starts from. -/
def Links.Above (ls : Links ClassName) (start : ClassName → Prop) (d : ClassName) : Prop :=
  ls.Leads ClassName.thing d ∨ ∃ c, start c ∧ ls.Leads c d

/-- What is above some classes is above more of them. -/
theorem Links.Above.mono {ls : Links ClassName} {start start' : ClassName → Prop}
    (h : ∀ c, start c → start' c) {d : ClassName} (above : ls.Above start d) :
    ls.Above start' d := by
  rcases above with lead | ⟨c, hc, lead⟩
  · exact .inl lead
  · exact .inr ⟨c, h c hc, lead⟩

/-- What is above two starts together is above one of them. -/
theorem Links.above_or {ls : Links ClassName} {start start' : ClassName → Prop} {d : ClassName} :
    ls.Above (fun c => start c ∨ start' c) d ↔ ls.Above start d ∨ ls.Above start' d := by
  constructor
  · rintro (lead | ⟨c, hc | hc, lead⟩)
    · exact .inl (.inl lead)
    · exact .inl (.inr ⟨c, hc, lead⟩)
    · exact .inr (.inr ⟨c, hc, lead⟩)
  · rintro (above | above)
    · exact above.mono fun c hc => .inl hc
    · exact above.mono fun c hc => .inr hc

namespace Taxonomy

/-- **A clash**: classes that nothing can be in together. -/
def Clash (t : Taxonomy) (among : ClassName → Prop) : Prop :=
  among ClassName.nothing ∨ ∃ c d, among c ∧ among d ∧ d ∈ t.disjoint.targets c

/-- Classes that clash still do among more. -/
theorem Clash.mono {t : Taxonomy} {among among' : ClassName → Prop}
    (h : ∀ c, among c → among' c) (clash : t.Clash among) : t.Clash among' := by
  rcases clash with none | ⟨c, d, hc, hd, conflict⟩
  · exact .inl (h _ none)
  · exact .inr ⟨c, d, h c hc, h d hd, conflict⟩

/-- What each individual is asserted to be; nothing is asserted of the spare element. -/
def told (t : Taxonomy) : Option IndividualName → ClassName → Prop
  | none, _ => False
  | some i, c => c ∈ t.asserted.targets i

/-! ## What the engine computes -/

/-- The engine finds a clash among classes if and only if there is one. -/
theorem isClash_iff {t : Taxonomy} {s : ClassSet} : t.isClash s = true ↔ t.Clash (· ∈ s) := by
  simp only [isClash, Clash, Bool.or_eq_true, decide_eq_true_eq, List.any_eq_true]
  constructor
  · rintro (none | ⟨c, hc, d, conflict, hd⟩)
    · exact .inl none
    · exact .inr ⟨c, d, hc, hd, conflict⟩
  · rintro (none | ⟨c, d, hc, hd, conflict⟩)
    · exact .inl none
    · exact .inr ⟨c, hc, d, conflict, hd⟩

namespace Recalls

variable {t : Taxonomy}

/-- The closure of a class is what is above it. -/
theorem mem_closure (h : t.Recalls) {c d : ClassName} :
    d ∈ t.closure c ↔ t.supers.Above (· = c) d := by
  rw [h.closure_eq, mem_reach, Links.Above, or_comm]
  simp only [exists_eq_left]

/-- The joint closure of some classes is what is above one of them. -/
theorem mem_jointClosure (h : t.Recalls) {cs : List ClassName} {d : ClassName} :
    d ∈ t.jointClosure cs ↔ t.supers.Above (· ∈ cs) d := by
  rw [jointClosure, SortedSet.mem_foldl_union, h.mem_closure]
  constructor
  · rintro ((lead | ⟨c, rfl, lead⟩) | ⟨c, hc, above⟩)
    · exact .inl lead
    · exact .inl lead
    · exact (h.mem_closure.1 above).mono fun b e => e ▸ hc
  · rintro (lead | ⟨c, hc, lead⟩)
    · exact .inl (.inl lead)
    · exact .inr ⟨c, hc, h.mem_closure.2 (.inr ⟨c, rfl, lead⟩)⟩

/-- The types of an individual are what is above the classes it is told to be in. -/
theorem mem_types (h : t.Recalls) {i : IndividualName} {d : ClassName} :
    d ∈ t.types i ↔ t.supers.Above (t.told (some i)) d := h.mem_jointClosure

end Recalls

/-- An individual that is not among the individuals is asserted to be nothing. -/
theorem mem_individuals_of_told {t : Taxonomy} {i : IndividualName} {c : ClassName}
    (h : t.told (some i) c) : i ∈ t.individuals := by
  rw [individuals, Table.mem_keySet]
  cases hg : t.asserted.get? i with
  | some _ => rfl
  | none =>
    simp only [told, Links.targets, Links.tally, hg, Option.getD_none, Table.mem_keys,
      Table.get?_empty, Option.isSome_none, Bool.false_eq_true] at h

/-- **A taxonomy is consistent** if no element of the canonical interpretation clashes. -/
theorem isConsistent_iff_free {t : Taxonomy} (h : t.Recalls) :
    t.isConsistent = true ↔ ∀ x, ¬ t.Clash (t.supers.Above (t.told x)) := by
  have at_thing : t.isSatisfiable ClassName.thing = true ↔
      ¬ t.Clash (t.supers.Above (t.told none)) := by
    rw [isSatisfiable, Bool.not_eq_true', ← Bool.not_eq_true, isClash_iff, not_iff_not]
    have same : ∀ d, d ∈ t.closure ClassName.thing ↔ t.supers.Above (t.told none) d := by
      intro d
      rw [h.mem_closure, Links.Above, Links.Above]
      simp only [exists_eq_left, told, false_and, exists_false, or_false, or_self]
    simp only [same]
  have at_individual : ∀ i, (!t.isClash (t.types i)) = true ↔
      ¬ t.Clash (t.supers.Above (t.told (some i))) := by
    intro i
    rw [Bool.not_eq_true', ← Bool.not_eq_true, isClash_iff, not_iff_not]
    simp only [h.mem_types]
  rw [isConsistent, Bool.and_eq_true, at_thing, List.all_eq_true, Option.forall]
  refine and_congr_right fun free => ?_
  constructor
  · intro all i
    by_cases hi : i ∈ t.individuals
    · exact (at_individual i).1 (all i hi)
    · -- nothing is asserted of it, so it is like the spare element
      exact fun clash => free (clash.mono fun d above => above.mono fun c hc =>
        hi (mem_individuals_of_told hc))
  · exact fun all i _ => (at_individual i).2 (all i)

end Taxonomy

/-! ## Soundness -/

section

variable {t : Taxonomy} {axioms : AxiomSet} {m : Interpretation} {x : m.Domain}

/-- An edge holds in every model. -/
theorem instances_of_edge {a : Axiom} (h : m.Satisfies a) {c d : ClassName}
    (edge : (c, d) ∈ a.edges) (hc : m.instances c x) : m.instances d x := by
  cases a with
  | subClassOf sub sup =>
    cases List.mem_singleton.1 edge
    exact h x hc
  | equivalentClasses classes =>
    obtain ⟨c_mem, d_mem, -⟩ := Axiom.mem_distinctPairs.1 edge
    exact (h c c_mem d d_mem x).1 hc
  | disjointClasses classes => cases edge
  | classAssertion cls individual => cases edge

/-- In a model, an instance of a class is one of every class above. -/
theorem instances_of_leads (told : t.Faithful axioms) (model : m.Models axioms) {c d : ClassName}
    (lead : t.supers.Leads c d) (hc : m.instances c x) : m.instances d x := by
  induction lead with
  | refl => exact hc
  | tail _ last ih =>
    obtain ⟨a, ha, edge⟩ := told.linked_iff.1 last
    exact instances_of_edge (model a ha) edge ih

/-- **What an element starts from** holds it in everything above. -/
theorem instances_of_above (told : t.Faithful axioms) (model : m.Models axioms)
    {start : ClassName → Prop} (h : ∀ c, start c → m.instances c x) {d : ClassName}
    (above : t.supers.Above start d) : m.instances d x := by
  rcases above with lead | ⟨c, hc, lead⟩
  · exact instances_of_leads told model lead (m.thing x)
  · exact instances_of_leads told model lead (h c hc)

/-- **The classes of an element** never clash. -/
theorem not_clash (told : t.Faithful axioms) (model : m.Models axioms) :
    ¬ t.Clash (m.instances · x) := by
  rintro (none | ⟨c, d, hc, hd, conflict⟩)
  · exact m.nothing x none
  · obtain ⟨a, ha, pair⟩ := told.mem_disjoint.1 conflict
    have holds := model a ha
    cases a with
    | disjointClasses classes =>
      obtain ⟨c_mem, d_mem, ne⟩ := Axiom.mem_distinctPairs.1 pair
      exact holds c c_mem d d_mem (Ne.symm ne) x ⟨hc, hd⟩
    | subClassOf sub sup => cases pair
    | equivalentClasses classes => cases pair
    | classAssertion cls individual => cases pair

/-- What is asserted of an individual is true of it. -/
theorem instances_of_told (told : t.Faithful axioms) (model : m.Models axioms)
    {i : IndividualName} {c : ClassName} (h : t.told (some i) c) :
    m.instances c (m.denotes i) := by
  obtain ⟨a, ha, pair⟩ := told.mem_asserted.1 h
  have holds := model a ha
  cases a with
  | classAssertion cls individual =>
    cases List.mem_singleton.1 pair
    exact holds
  | subClassOf sub sup => cases pair
  | equivalentClasses classes => cases pair
  | disjointClasses classes => cases pair

end

/-! ## Completeness -/

/-- **The canonical interpretation** of a taxonomy: the individuals and one element to spare, each
in what is above its start. -/
def canonical (t : Taxonomy) (start : Option IndividualName → ClassName → Prop)
    (free : ∀ x, ¬ t.Clash (t.supers.Above (start x))) : Interpretation where
  Domain := Option IndividualName
  instances c x := t.supers.Above (start x) c
  denotes := some
  inhabited := ⟨none⟩
  thing _ := .inl .refl
  nothing x h := free x (.inl h)
  unique := Option.some_injective _

/-- **The canonical interpretation is a model** if each individual starts from what it is asserted
to be. -/
theorem canonical_models {t : Taxonomy} {axioms : AxiomSet} (told : t.Faithful axioms)
    {start : Option IndividualName → ClassName → Prop}
    (free : ∀ x, ¬ t.Clash (t.supers.Above (start x)))
    (starts : ∀ i c, t.told (some i) c → start (some i) c) :
    (canonical t start free).Models axioms := by
  -- what an axiom states is a link, and what is above goes up along links
  have step : ∀ {a}, a ∈ axioms → ∀ {c d}, (c, d) ∈ a.edges → ∀ x,
      t.supers.Above (start x) c → t.supers.Above (start x) d := by
    intro a ha c d edge x above
    have link := told.linked_iff.2 ⟨a, ha, edge⟩
    rcases above with lead | ⟨b, hb, lead⟩
    · exact .inl (.tail lead link)
    · exact .inr ⟨b, hb, .tail lead link⟩
  intro a ha
  cases a with
  | subClassOf sub sup => exact fun x => step ha (List.mem_singleton.2 rfl) x
  | equivalentClasses classes =>
    have below : ∀ c ∈ classes, ∀ d ∈ classes, ∀ x,
        t.supers.Above (start x) c → t.supers.Above (start x) d := by
      intro c hc d hd x
      by_cases e : d = c
      · rw [e]
        exact id
      · exact step ha (Axiom.mem_distinctPairs.2 ⟨hc, hd, e⟩) x
    exact fun c hc d hd x => ⟨below c hc d hd x, below d hd c hc x⟩
  | disjointClasses classes =>
    rintro c hc d hd ne x ⟨above, above'⟩
    have pair : (c, d) ∈ (Axiom.disjointClasses classes).conflicts :=
      Axiom.mem_distinctPairs.2 ⟨hc, hd, Ne.symm ne⟩
    exact free x (.inr ⟨c, d, above, above', told.mem_disjoint.2 ⟨_, ha, pair⟩⟩)
  | classAssertion cls individual =>
    have asserted : t.told (some individual) cls :=
      told.mem_asserted.2 ⟨_, ha, List.mem_singleton.2 rfl⟩
    exact .inr ⟨cls, starts individual cls asserted, .refl⟩

/-! ## The laws -/

/-- **A taxonomy is consistent** exactly if its axioms have a model. -/
theorem Taxonomy.isConsistent_iff {t : Taxonomy} {axioms : AxiomSet} (told : t.Faithful axioms) :
    t.isConsistent = true ↔ Consistent axioms := by
  rw [isConsistent_iff_free told.recalls]
  constructor
  · exact fun free => ⟨canonical t t.told free, canonical_models told free fun _ _ h => h⟩
  · rintro ⟨m, model⟩ x
    cases x with
    | none =>
      obtain ⟨y⟩ := m.inhabited
      exact fun clash => not_clash told model (x := y) <| clash.mono fun d above =>
        instances_of_above told model (fun c hc => hc.elim) above
    | some i =>
      exact fun clash => not_clash told model (x := m.denotes i) <| clash.mono fun d above =>
        instances_of_above told model (fun c hc => instances_of_told told model hc) above

namespace Reasoner

/-- What an element of a conjunct starts from: the classes of the conjunct, and what is asserted of
its individuals. -/
def startOf (t : Taxonomy) (p : Conjunct) (c : ClassName) : Prop :=
  c ∈ p.classes ∨ ∃ i ∈ p.nominals, t.told (some i) c

/-- The four tests of a conjunct, as what they are about. -/
theorem canHold_iff_free {t : Taxonomy} (h : t.Recalls) {p : Conjunct} :
    canHold t p = true ↔ p.nominals.size ≤ 1 ∧ (∀ i ∈ p.nominals, i ∉ p.negatedNominals) ∧
      ¬ t.Clash (t.supers.Above (startOf t p)) ∧
      ∀ c ∈ p.negatedClasses, ¬ t.supers.Above (startOf t p) c := by
  have supers : ∀ d, d ∈ p.nominals.toList.foldl (fun acc i => acc ∪ t.types i)
      (t.jointClosure p.classes.toList) ↔ t.supers.Above (startOf t p) d := by
    intro d
    rw [SortedSet.mem_foldl_union, h.mem_jointClosure]
    unfold startOf
    rw [Links.above_or]
    constructor
    · rintro (above | ⟨i, hi, typed⟩)
      · exact .inl above
      · exact .inr ((h.mem_types.1 typed).mono fun c hc => ⟨i, hi, hc⟩)
    · rintro (above | lead | ⟨c, ⟨i, hi, hc⟩, lead⟩)
      · exact .inl above
      · exact .inl (.inl lead)
      · exact .inr ⟨i, hi, h.mem_types.2 (.inr ⟨c, hc, lead⟩)⟩
  unfold canHold
  simp only [Bool.and_eq_true, decide_eq_true_eq, SortedSet.disjoint_iff, Bool.not_eq_true',
    ← Bool.not_eq_true, Taxonomy.isClash_iff, supers, and_assoc]

/-- The element that is to bear a conjunct: its individual, or the spare one if it names none. -/
def bearer (p : Conjunct) : Option IndividualName := p.nominals.toList.head?

/-- Every element starts from what is asserted of it, and the bearer from the conjunct besides. -/
def startWith (t : Taxonomy) (p : Conjunct) (x : Option IndividualName) (c : ClassName) : Prop :=
  t.told x c ∨ x = bearer p ∧ startOf t p c

/-- What is asserted of the bearer is asserted of an individual of the conjunct. -/
theorem startOf_of_bearer {t : Taxonomy} {p : Conjunct} (few : p.nominals.size ≤ 1)
    {c : ClassName} (h : startWith t p (bearer p) c) : startOf t p c := by
  rcases h with told | ⟨-, start⟩
  · cases hy : bearer p with
    | none =>
      rw [hy] at told
      exact told.elim
    | some i =>
      rw [hy] at told
      exact .inr ⟨i, (SortedSet.mem_iff_head? few).2 hy, told⟩
  · exact start

/-- No element clashes, if neither the conjunct nor what is asserted does. -/
theorem startWith_free {t : Taxonomy} {p : Conjunct} (few : p.nominals.size ≤ 1)
    (free : ¬ t.Clash (t.supers.Above (startOf t p)))
    (others : ∀ x, ¬ t.Clash (t.supers.Above (t.told x))) (x : Option IndividualName) :
    ¬ t.Clash (t.supers.Above (startWith t p x)) := by
  intro clash
  by_cases e : x = bearer p
  · rw [e] at clash
    exact free (clash.mono fun d above => above.mono fun c hc => startOf_of_bearer few hc)
  · exact others x (clash.mono fun d above => above.mono fun c hc =>
      hc.resolve_right fun h => e h.1)

/-- **A conjunct can hold** exactly if it holds at an element of some model of the axioms, given
that there is a model. -/
theorem canHold_iff {t : Taxonomy} {axioms : AxiomSet} (told : t.Faithful axioms)
    (consistent : Consistent axioms) {p : Conjunct} :
    canHold t p = true ↔
      ∃ m : Interpretation, m.Models axioms ∧ ∃ x : m.Domain, p.Holds (m.valuation x) := by
  rw [canHold_iff_free told.recalls]
  constructor
  · rintro ⟨few, apart, free, out⟩
    have others := (Taxonomy.isConsistent_iff_free told.recalls).1
      ((Taxonomy.isConsistent_iff told).2 consistent)
    have free' := startWith_free few free others
    have named : ∀ i, i ∈ p.nominals ↔ bearer p = some i := fun i => SortedSet.mem_iff_head? few
    refine ⟨canonical t (startWith t p) free', canonical_models told free' fun i c hc => .inl hc,
      bearer p, ?_⟩
    constructor
    · exact fun c hc => .inr ⟨c, .inr ⟨rfl, .inl hc⟩, .refl⟩
    · exact fun c hc above => out c hc (above.mono fun b hb => startOf_of_bearer few hb)
    · exact fun i hi => ((named i).1 hi).symm
    · exact fun i hi e => apart i ((named i).2 (Eq.symm e)) hi
  · rintro ⟨m, model, x, holds⟩
    have starts : ∀ c, startOf t p c → m.instances c x := by
      rintro c (hc | ⟨i, hi, hc⟩)
      · exact holds.classes c hc
      · rw [← show m.denotes i = x from holds.nominals i hi]
        exact instances_of_told told model hc
    refine ⟨?_, ?_, ?_, ?_⟩
    · exact SortedSet.size_le_one fun i hi j hj =>
        m.unique ((holds.nominals i hi).trans (holds.nominals j hj).symm)
    · exact fun i hi hi' => holds.negatedNominals i hi' (holds.nominals i hi)
    · exact fun clash => not_clash told model (x := x) <| clash.mono fun d above =>
        instances_of_above told model starts above
    · exact fun c hc above => holds.negatedClasses c hc (instances_of_above told model starts above)

end Reasoner

end OntologyService
