import OntologyService.Proofs.Taxonomy.Reachability
import OntologyService.Proofs.Taxonomy.Supports

/-!
# The memoised closures

A taxonomy **recalls** when every closure it remembers is the closure that a walk over its present
edges would give. Reading only ever adds such closures. A change **trims** the memo: it evicts the
closures that hold a class from which an edge appeared or disappeared, and no others. This is enough
(`Recalls.trim`): off those classes the links are what they were, so a closure that holds none of
them was never led through a changed edge and is not led through one now (`reach_eq_of_avoids`).

To trim is a law of a single edge, in any taxonomy at all. It adds up over the edges of an axiom
because the edges that one change makes are not unmade by the same change (`Trims.trans`).

`Faithful` joins this to what the indices count: a faithful taxonomy is one that the axioms alone
account for. It is what every change and every read keeps, and the only thing that later modules
assume of a taxonomy.
-/

namespace OntologyService

/-! ## Links after a change -/

namespace Tally

variable {κ : Type} [Ranked κ]

theorem get?_increment_of_ne {k k' : κ} (h : k' ≠ k) (t : Tally κ) :
    (t.increment k).get? k' = t.get? k' := Table.get?_insert_of_ne h _ t

/-- A support less for one key leaves the counts of the others. -/
theorem get?_decrement_of_ne {k k' : κ} (h : k' ≠ k) (t : Tally κ) :
    (t.decrement k).get? k' = t.get? k' := by
  unfold decrement
  split
  · rfl
  · exact Table.get?_erase_of_ne h t
  · exact Table.get?_erase_of_ne h t
  · exact Table.get?_insert_of_ne h _ t

theorem contains_increment_self (k : κ) (t : Tally κ) : (t.increment k).contains k = true := by
  rw [Table.contains, increment, Table.get?_insert_self, Option.isSome_some]

/-- A support less leaves no key that was not there. -/
theorem contains_of_decrement {k : κ} {t : Tally κ} (h : (t.decrement k).contains k = true) :
    t.contains k = true := by
  cases hg : t.get? k with
  | none =>
    unfold decrement at h
    rw [hg] at h
    exact h
  | some n => rw [Table.contains, hg, Option.isSome_some]

end Tally

namespace Links

variable {κ : Type} [Ranked κ]

/-- A support more links the pair. -/
theorem linked_support_self (ls : Links κ) (k : κ) (c : ClassName) :
    (ls.support k c).linked k c = true := by
  rw [linked, support, tally_insert_self]
  exact Tally.contains_increment_self c _

/-- A support more changes no other pair. -/
theorem linked_support_of_ne {k k' : κ} {c c' : ClassName} (h : (k', c') ≠ (k, c))
    (ls : Links κ) : (ls.support k c).linked k' c' = ls.linked k' c' := by
  unfold linked support
  by_cases hk : k' = k
  · have hc : c' ≠ c := fun e => h (by rw [hk, e])
    rw [hk, tally_insert_self, Table.contains, Tally.get?_increment_of_ne hc]
    rfl
  · rw [tally_insert_of_ne hk]

/-- The tally of a source after one support less for one of its links, where the source is kept
or where nothing of it is left to keep. -/
theorem get?_tally_retract (ls : Links κ) (k : κ) (c c' : ClassName) :
    ((ls.retract k c).tally k).get? c' = ((ls.tally k).decrement c).get? c' := by
  cases hg : ls.get? k with
  | none =>
    have empty : Links.tally ls k = ∅ := by rw [tally, hg, Option.getD_none]
    have none : ((∅ : Tally ClassName).decrement c).get? c' = none := by
      rw [Tally.decrement, Table.get?_empty]
      exact Table.get?_empty c'
    unfold retract
    simp only [hg]
    rw [empty, none, Table.get?_empty]
  | some t =>
    have own : Links.tally ls k = t := by rw [tally, hg, Option.getD_some]
    unfold retract
    simp only [hg]
    split
    · rename_i he
      rw [own, Table.isEmpty_iff.1 he, tally, Table.get?_erase_self, Option.getD_none]
    · rw [own, tally_insert_self]

/-- A support less changes no other pair. -/
theorem linked_retract_of_ne {k k' : κ} {c c' : ClassName} (h : (k', c') ≠ (k, c))
    (ls : Links κ) : (ls.retract k c).linked k' c' = ls.linked k' c' := by
  unfold linked
  by_cases hk : k' = k
  · have hc : c' ≠ c := fun e => h (by rw [hk, e])
    rw [hk, Table.contains, get?_tally_retract, Tally.get?_decrement_of_ne hc]
    rfl
  · congr 1
    unfold retract
    split
    · rfl
    · split
      · rw [tally, Table.get?_erase_of_ne hk]
        rfl
      · exact tally_insert_of_ne hk ls _

/-- A support less links nothing. -/
theorem linked_of_retract {k : κ} {c : ClassName} {ls : Links κ}
    (h : (ls.retract k c).linked k c = true) : ls.linked k c = true := by
  rw [linked, Table.contains, get?_tally_retract] at h
  exact Tally.contains_of_decrement h

/-- A support more links one pair, and leaves the others as they were. -/
theorem linked_support (ls : Links κ) (k k' : κ) (c c' : ClassName) :
    (ls.support k c).linked k' c' = true ↔ (k', c') = (k, c) ∨ ls.linked k' c' = true := by
  by_cases same : (k', c') = (k, c)
  · obtain ⟨rfl, rfl⟩ := Prod.mk.inj same
    simp only [linked_support_self, true_or]
  · rw [linked_support_of_ne same, or_iff_right same]

/-- Where two tables of links differ at some sources only, what one leads to the other leads to as
well, or it leads to such a source. -/
theorem leads_or_leads {ls ms : Links ClassName} {changed : ClassName → Prop} {c d : ClassName}
    (same : ∀ b, ¬ changed b → ∀ d, ls.linked b d = ms.linked b d) (h : ls.Leads c d) :
    ms.Leads c d ∨ ∃ b, changed b ∧ ms.Leads c b := by
  induction h using Relation.ReflTransGen.head_induction_on with
  | refl => exact .inl .refl
  | @head a e hae _ ih =>
    by_cases ha : changed a
    · exact .inr ⟨a, ha, .refl⟩
    · have hae' : ms.linked a e = true := same a ha e ▸ hae
      rcases ih with h | ⟨b, hb, h⟩
      · exact .inl (.head hae' h)
      · exact .inr ⟨b, hb, .head hae' h⟩

end Links

namespace Taxonomy

variable {t u v : Taxonomy} {b c : ClassName}

/-! ## Changes of edges -/

/-- An edge from the class appeared or disappeared. -/
def Changed (t u : Taxonomy) (b : ClassName) : Prop :=
  ∃ d, u.supers.linked b d ≠ t.supers.linked b d

theorem Changed.symm (h : t.Changed u b) : u.Changed t b := by
  obtain ⟨d, ne⟩ := h
  exact ⟨d, ne.symm⟩

/-- What changed over two steps changed in one of them. -/
theorem Changed.or (h : t.Changed v b) : t.Changed u b ∨ u.Changed v b := by
  obtain ⟨d, ne⟩ := h
  by_cases same : u.supers.linked b d = t.supers.linked b d
  · exact .inr ⟨d, fun same' => ne (same'.trans same)⟩
  · exact .inl ⟨d, same⟩

/-- Every edge is still there. -/
def Grows (t u : Taxonomy) : Prop :=
  ∀ b d, t.supers.linked b d = true → u.supers.linked b d = true

/-- What appears on the way stays, while edges only appear. -/
theorem changed_of_grows (h : t.Grows u) (h' : u.Grows v) :
    t.Changed u b ∨ u.Changed v b → t.Changed v b := by
  rintro (⟨d, ne⟩ | ⟨d, ne⟩)
  · refine ⟨d, fun same => ne (Bool.eq_iff_iff.2 ⟨fun there => ?_, h b d⟩)⟩
    rw [← same]
    exact h' b d there
  · refine ⟨d, fun same => ne (Bool.eq_iff_iff.2 ⟨fun there => ?_, h' b d⟩)⟩
    rw [same] at there
    exact h b d there

/-- **A closure that holds no changed class** does not notice the change. -/
theorem reach_eq_of_avoids (avoids : ∀ b, t.Changed u b → b ∉ t.reach c) :
    u.reach c = t.reach c := by
  have same (b : ClassName) (h : ¬ t.Changed u b) (d : ClassName) :
      t.supers.linked b d = u.supers.linked b d := by
    by_contra ne
    exact h ⟨d, Ne.symm ne⟩
  have back {a d : ClassName} (away : ∀ b, t.Changed u b → ¬ t.supers.Leads a b) :
      t.supers.Leads a d ↔ u.supers.Leads a d := by
    have away' : ¬ ∃ b, t.Changed u b ∧ t.supers.Leads a b := fun ⟨b, hb, h⟩ => away b hb h
    have same' (b : ClassName) (h : ¬ t.Changed u b) (d : ClassName) :
        u.supers.linked b d = t.supers.linked b d := (same b h d).symm
    constructor
    · intro h
      refine (Links.leads_or_leads same h).resolve_right fun ⟨b, hb, h⟩ => ?_
      exact (Links.leads_or_leads same' h).elim (away b hb) away'
    · exact fun h => (Links.leads_or_leads same' h).resolve_right away'
  refine SortedSet.ext fun d => ?_
  rw [mem_reach, mem_reach, back fun b hb h => avoids b hb (mem_reach.2 (.inl h)),
    back fun b hb h => avoids b hb (mem_reach.2 (.inr h))]

/-! ## The memo -/

/-- **The taxonomy recalls**: every remembered closure is the closure. -/
def Recalls (t : Taxonomy) : Prop := ∀ c known, t.closures.get? c = some known → known = t.reach c

/-- A memo without closures recalls. -/
theorem recalls_empty : Recalls {} := by
  intro c known h
  rw [Table.get?_empty] at h
  cases h

/-- With a memo that recalls, it makes no difference whether a closure is remembered. -/
theorem Recalls.closure_eq {t : Taxonomy} (h : t.Recalls) (c : ClassName) :
    t.closure c = t.reach c := by
  unfold closure
  split
  · rename_i known hk
    exact h c known hk
  · rfl

/-- To remember a closure is to recall it. -/
theorem Recalls.remember {t : Taxonomy} (h : t.Recalls) (c : ClassName) :
    (t.remember c).Recalls := by
  intro d known hd
  show known = t.reach d
  by_cases e : d = c
  · rw [e, Taxonomy.remember, Table.get?_insert_self] at hd
    rw [e, ← h.closure_eq c]
    exact (Option.some.inj hd).symm
  · rw [Taxonomy.remember, Table.get?_insert_of_ne e] at hd
    exact h d known hd

/-! ## What a change evicts -/

/-- **The memo is trimmed**: of the closures there were, just those are left that hold no class from
which an edge appeared or disappeared. -/
def Trims (t u : Taxonomy) : Prop :=
  ∀ c known, u.closures.get? c = some known ↔
    t.closures.get? c = some known ∧ ∀ b, t.Changed u b → b ∉ known

/-- Trimming a memo is enough to keep it right. -/
theorem Recalls.trim (h : t.Recalls) (trims : t.Trims u) : u.Recalls := by
  intro c known held
  obtain ⟨held, avoids⟩ := (trims c known).1 held
  obtain rfl := h c known held
  exact (reach_eq_of_avoids avoids).symm

/-- Where no link changed, nothing is to be evicted. -/
theorem trims_of_linked (same : ∀ b d, u.supers.linked b d = t.supers.linked b d)
    (memo : u.closures = t.closures) : t.Trims u := by
  intro c known
  rw [memo]
  exact (and_iff_left fun b ⟨d, changed⟩ => absurd (same b d) changed).symm

/-- Where the links of one class changed, the closures that hold this class are evicted. -/
theorem trims_evict (memo : u.closures = t.closures) (changed : ∀ a, t.Changed u a ↔ a = b) :
    t.Trims (u.evict b) := by
  intro c known
  rw [evict, Table.get?_filter, memo, Option.filter_eq_some_iff, decide_eq_true_eq]
  refine and_congr_right fun _ => ⟨fun avoids a h => ?_, fun avoids => avoids b ((changed b).2 rfl)⟩
  rwa [(changed a).1 h]

/-- Two trims are one, if what the first changed is still changed after the second. -/
theorem Trims.trans (h : t.Trims u) (h' : u.Trims v)
    (settled : ∀ b, t.Changed u b ∨ u.Changed v b → t.Changed v b) : t.Trims v := by
  intro c known
  rw [h' c known, h c known, and_assoc]
  refine and_congr_right fun _ => ⟨fun ⟨before, after⟩ b hb => ?_, fun all => ⟨?_, ?_⟩⟩
  · exact hb.or.elim (before b) (after b)
  · exact fun b hb => all b (settled b (.inl hb))
  · exact fun b hb => all b (settled b (.inr hb))

/-- An edge that is the only one to change is a change at its lower class. -/
theorem changed_iff {e : ClassName × ClassName}
    (other : ∀ a d, (a, d) ≠ e → u.supers.linked a d = t.supers.linked a d)
    (here : u.supers.linked e.1 e.2 ≠ t.supers.linked e.1 e.2) (a : ClassName) :
    t.Changed u a ↔ a = e.1 := by
  constructor
  · rintro ⟨d, ne⟩
    by_contra away
    exact ne (other a d fun same => away (congrArg Prod.fst same))
  · rintro rfl
    exact ⟨e.2, here⟩

/-- **One support more for an edge** trims the memo. -/
theorem trims_addEdge (t : Taxonomy) (e : ClassName × ClassName) : t.Trims (t.addEdge e) := by
  have other (a d : ClassName) (ne : (a, d) ≠ e) :
      (t.supers.support e.1 e.2).linked a d = t.supers.linked a d :=
    Links.linked_support_of_ne ne _
  have there := Links.linked_support_self t.supers e.1 e.2
  unfold addEdge
  extract_lets t'
  by_cases old : t.supers.linked e.1 e.2 = true
  · rw [if_pos old]
    refine trims_of_linked (fun a d => ?_) rfl
    by_cases eq : (a, d) = e
    · obtain rfl := eq
      exact there.trans old.symm
    · exact other a d eq
  · rw [if_neg old]
    exact trims_evict rfl (changed_iff other fun same => old (same.symm.trans there))

/-- **One support less for an edge** trims the memo. -/
theorem trims_removeEdge (t : Taxonomy) (e : ClassName × ClassName) : t.Trims (t.removeEdge e) := by
  have other (a d : ClassName) (ne : (a, d) ≠ e) :
      (t.supers.retract e.1 e.2).linked a d = t.supers.linked a d :=
    Links.linked_retract_of_ne ne _
  unfold removeEdge
  extract_lets t'
  by_cases gone : (t.supers.linked e.1 e.2 && !t'.supers.linked e.1 e.2) = true
  · rw [if_pos gone]
    rw [Bool.and_eq_true, Bool.not_eq_true'] at gone
    refine trims_evict rfl (changed_iff other fun same => ?_)
    exact Bool.false_ne_true (gone.2.symm.trans (same.trans gone.1))
  · rw [if_neg gone]
    refine trims_of_linked (fun a d => ?_) rfl
    by_cases eq : (a, d) = e
    · obtain rfl := eq
      rw [Bool.and_eq_true, Bool.not_eq_true', not_and, Bool.not_eq_false] at gone
      rw [Bool.eq_iff_iff]
      exact ⟨Links.linked_of_retract, gone⟩
    · exact other a d eq

/-- An edge more is a support more. -/
theorem supers_addEdge (t : Taxonomy) (e : ClassName × ClassName) :
    (t.addEdge e).supers = t.supers.support e.1 e.2 := by
  obtain ⟨memo, eq⟩ := addEdge_eq t e
  rw [eq]

/-- An edge less is a support less. -/
theorem supers_removeEdge (t : Taxonomy) (e : ClassName × ClassName) :
    (t.removeEdge e).supers = t.supers.retract e.1 e.2 := by
  obtain ⟨memo, eq⟩ := removeEdge_eq t e
  rw [eq]

/-- With an edge more, every link there was is there. -/
theorem grows_addEdge (t : Taxonomy) (e : ClassName × ClassName) : t.Grows (t.addEdge e) := by
  intro b d there
  rw [supers_addEdge, Links.linked_support]
  exact .inr there

/-- With an edge less, no link is there that was not. -/
theorem grows_removeEdge (t : Taxonomy) (e : ClassName × ClassName) : (t.removeEdge e).Grows t := by
  intro b d there
  rw [supers_removeEdge] at there
  by_cases same : (b, d) = e
  · obtain rfl := same
    exact Links.linked_of_retract there
  · rwa [Links.linked_retract_of_ne same] at there

/-- Adding the edges of an axiom trims the memo. -/
theorem trims_addEdges : ∀ (es : List (ClassName × ClassName)) (t : Taxonomy),
    t.Trims (es.foldl addEdge t) ∧ t.Grows (es.foldl addEdge t)
  | [], _ => ⟨trims_of_linked (fun _ _ => rfl) rfl, fun _ _ there => there⟩
  | e :: es, t => by
    obtain ⟨trims, grows⟩ := trims_addEdges es (t.addEdge e)
    have first := grows_addEdge t e
    exact ⟨(trims_addEdge t e).trans trims fun _ => changed_of_grows first grows,
      fun b d there => grows b d (first b d there)⟩

/-- Removing the edges of an axiom trims the memo. -/
theorem trims_removeEdges : ∀ (es : List (ClassName × ClassName)) (t : Taxonomy),
    t.Trims (es.foldl removeEdge t) ∧ (es.foldl removeEdge t).Grows t
  | [], _ => ⟨trims_of_linked (fun _ _ => rfl) rfl, fun _ _ there => there⟩
  | e :: es, t => by
    obtain ⟨trims, grows⟩ := trims_removeEdges es (t.removeEdge e)
    have first := grows_removeEdge t e
    refine ⟨(trims_removeEdge t e).trans trims fun b changed => ?_,
      fun b d there => first b d (grows b d there)⟩
    exact (changed_of_grows grows first (changed.symm.imp Changed.symm Changed.symm)).symm

/-- **To take in an axiom** trims the memo. -/
theorem trims_insert (t : Taxonomy) (a : Axiom) : t.Trims (t.insert a) :=
  (trims_addEdges a.edges t).1

/-- **To take back an axiom** trims the memo. -/
theorem trims_remove (t : Taxonomy) (a : Axiom) : t.Trims (t.remove a) :=
  (trims_removeEdges a.edges t).1

/-! ## Taxonomies that the axioms account for -/

/-- **The taxonomy is faithful to the axioms**: it tells them, and its memo recalls. -/
structure Faithful (t : Taxonomy) (axioms : AxiomSet) : Prop where
  tells : t.Tells axioms
  recalls : t.Recalls

/-- A taxonomy of nothing is faithful to no axioms. -/
theorem faithful_empty : Faithful {} ∅ := ⟨tells_empty, recalls_empty⟩

namespace Faithful

variable {t : Taxonomy} {axioms : AxiomSet} {a : Axiom}

/-- **An axiom more** keeps a taxonomy faithful. -/
theorem insert (h : t.Faithful axioms) (new : a ∉ axioms) :
    (t.insert a).Faithful (axioms.insert a) :=
  ⟨h.tells.insert new, h.recalls.trim (trims_insert t a)⟩

/-- **An axiom less** keeps a taxonomy faithful. -/
theorem remove (h : t.Faithful axioms) (held : a ∈ axioms) :
    (t.remove a).Faithful (axioms.erase a) :=
  ⟨h.tells.remove held, h.recalls.trim (trims_remove t a)⟩

/-- Reading keeps a taxonomy faithful. -/
theorem remember (h : t.Faithful axioms) (c : ClassName) : (t.remember c).Faithful axioms :=
  ⟨⟨h.tells.supers, h.tells.disjoint, h.tells.asserted, h.tells.inUse⟩, h.recalls.remember c⟩

/-- Reading about several classes keeps a taxonomy faithful. -/
theorem rememberAll (cs : List ClassName) : ∀ {t : Taxonomy}, t.Faithful axioms →
    (t.rememberAll cs).Faithful axioms := by
  induction cs with
  | nil => intro t h; exact h
  | cons c cs ih => intro t h; exact ih (h.remember c)

/-- Classification keeps a taxonomy faithful. -/
theorem classify (h : t.Faithful axioms) : t.classify.Faithful axioms := h.rememberAll _

/-- Linked are the pairs that an axiom has as an edge. -/
theorem linked_iff (h : t.Faithful axioms) {c d : ClassName} :
    t.supers.linked c d = true ↔ ∃ a ∈ axioms, (c, d) ∈ a.edges := by
  rw [h.tells.supers.linked_iff, List.mem_flatMap]
  exact Iff.rfl

/-- In conflict are the pairs that an axiom puts there. -/
theorem mem_disjoint (h : t.Faithful axioms) {c d : ClassName} :
    d ∈ t.disjoint.targets c ↔ ∃ a ∈ axioms, (c, d) ∈ a.conflicts := by
  rw [h.tells.disjoint.mem_targets, List.mem_flatMap]
  exact Iff.rfl

/-- Asserted are the memberships that an axiom states. -/
theorem mem_asserted (h : t.Faithful axioms) {i : IndividualName} {c : ClassName} :
    c ∈ t.asserted.targets i ↔ ∃ a ∈ axioms, (i, c) ∈ a.memberships := by
  rw [h.tells.asserted.mem_targets, List.mem_flatMap]
  exact Iff.rfl

end Faithful

end Taxonomy

end OntologyService
