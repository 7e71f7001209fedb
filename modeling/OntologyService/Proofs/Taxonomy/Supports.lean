import OntologyService.Proofs.Order.Listing
import OntologyService.Taxonomy.Basic

/-!
# Support counts

A tally **counts** a list of facts when each key has as many supports as it has occurrences in the
list, and no key is kept without a support; a table of links counts a list of pairs in the same
way. Both are determined by what they count (`Tally.Counts.unique`, `Links.Counts.unique`), so two
tables that count the same facts are equal, whatever happened to them before.

**The law** (`Taxonomy.Tells.insert`, `Taxonomy.Tells.remove`): the four indices of a taxonomy
count what the axioms state, each axiom once, and taking an axiom in or back keeps them at that. A
single support is one step of a table; an axiom is a fold of such steps over what it states; and a
set of axioms is a listing, in which a change of one axiom is a permutation of one block.

The memoised closures are not read here. What a change does to them is in `Memo`.
-/

namespace OntologyService

variable {σ φ : Type}

/-- Steps that each add one fact add all of them. -/
theorem foldl_adds (counts : σ → List φ → Prop) (step : σ → φ → σ)
    (perm : ∀ s as bs, as.Perm bs → counts s as → counts s bs)
    (adds : ∀ s as a, counts s as → counts (step s a) (a :: as)) :
    ∀ (fs : List φ) {s : σ} {as : List φ}, counts s as → counts (fs.foldl step s) (fs ++ as)
  | [], _, _, h => h
  | f :: fs, s, as, h => by
    have rest := foldl_adds counts step perm adds fs (adds s as f h)
    exact perm _ _ _ List.perm_middle rest

/-- Steps that each take one fact away take all of them away. -/
theorem foldl_takes (counts : σ → List φ → Prop) (step : σ → φ → σ)
    (takes : ∀ s as a, counts s (a :: as) → counts (step s a) as) :
    ∀ (fs : List φ) {s : σ} {as : List φ}, counts s (fs ++ as) → counts (fs.foldl step s) as
  | [], _, _, h => h
  | f :: fs, _, _, h => foldl_takes counts step takes fs (takes _ _ f h)

/-! ## Tallies -/

namespace Tally

variable {κ : Type} [Ranked κ] [DecidableEq κ]

/-- How many supports a key has. -/
def supportsOf (t : Tally κ) (k : κ) : Nat := (t.get? k).getD 0

/-- **The tally counts the facts**: as many supports for each as it has occurrences, and no key
without one. -/
structure Counts (t : Tally κ) (facts : List κ) : Prop where
  positive : ∀ k, t.get? k ≠ some 0
  supports : ∀ k, t.supportsOf k = facts.count k

/-- An empty tally counts no facts. -/
theorem counts_empty : Counts (∅ : Tally κ) [] where
  positive k h := by simp only [Table.get?_empty, reduceCtorEq] at h
  supports k := by simp only [supportsOf, Table.get?_empty, Option.getD_none, List.count_nil]

namespace Counts

variable {t u : Tally κ} {facts facts' : List κ}

/-- A tally counts facts in any order. -/
theorem perm (p : facts.Perm facts') (h : t.Counts facts) : t.Counts facts' where
  positive := h.positive
  supports k := (h.supports k).trans (p.count_eq k)

/-- A count is the value that the tally has for the key, where it has one. -/
theorem get?_eq (h : t.Counts facts) (k : κ) :
    t.get? k = if facts.count k = 0 then none else some (facts.count k) := by
  have hs := h.supports k
  unfold supportsOf at hs
  cases hg : t.get? k with
  | none =>
    rw [hg, Option.getD_none] at hs
    rw [if_pos hs.symm]
  | some n =>
    rw [hg, Option.getD_some] at hs
    have hn : n ≠ 0 := fun e => h.positive k (e ▸ hg)
    rw [if_neg (hs ▸ hn), hs]

/-- What a tally counts determines it. -/
theorem unique (h : t.Counts facts) (h' : u.Counts facts) : t = u :=
  Table.ext fun k => (h.get?_eq k).trans (h'.get?_eq k).symm

/-- The keys of a tally are the facts. -/
theorem mem_keys (h : t.Counts facts) {k : κ} : k ∈ t.keys ↔ k ∈ facts := by
  rw [Table.mem_keys, h.get?_eq, ← List.count_pos_iff]
  by_cases e : facts.count k = 0
  · simp only [e, if_true, Option.isSome_none, Bool.false_eq_true, Nat.lt_irrefl]
  · simp only [e, if_false, Option.isSome_some, Nat.pos_of_ne_zero e]

/-- A tally of nothing is empty. -/
theorem isEmpty_iff (h : t.Counts facts) : t.isEmpty = true ↔ facts = [] := by
  rw [Table.isEmpty_iff]
  constructor
  · rintro rfl
    refine List.eq_nil_iff_forall_not_mem.2 fun k hk => ?_
    rw [← h.mem_keys, Table.mem_keys, Table.get?_empty] at hk
    cases hk
  · rintro rfl
    exact h.unique counts_empty

/-- A fact more is a support more. -/
theorem increment (k : κ) (h : t.Counts facts) : (t.increment k).Counts (k :: facts) := by
  have step : ∀ k', (t.increment k).get? k' =
      if k' = k then some (facts.count k + 1) else t.get? k' := by
    intro k'
    by_cases e : k' = k
    · subst e
      have hs := h.supports k'
      rw [if_pos rfl, Tally.increment, Table.get?_insert_self]
      rw [supportsOf] at hs
      rw [hs]
    · rw [if_neg e, Tally.increment, Table.get?_insert_of_ne e]
  constructor
  · intro k'
    rw [step]
    by_cases e : k' = k
    · rw [if_pos e]
      simp only [ne_eq, Option.some.injEq, Nat.succ_ne_zero, not_false_eq_true]
    · rw [if_neg e]
      exact h.positive k'
  · intro k'
    rw [supportsOf, step]
    by_cases e : k' = k
    · rw [if_pos e, e, List.count_cons_self, Option.getD_some]
    · rw [if_neg e, List.count_cons_of_ne (Ne.symm e)]
      exact h.supports k'

/-- A fact less is a support less. -/
theorem decrement (k : κ) (h : t.Counts (k :: facts)) : (t.decrement k).Counts facts := by
  -- the key stands for one fact more than afterwards, so it is there
  have own : t.get? k = some (facts.count k + 1) := by
    rw [h.get?_eq, List.count_cons_self, if_neg (Nat.succ_ne_zero _)]
  have step : ∀ k', (t.decrement k).get? k' =
      if facts.count k' = 0 then none else some (facts.count k') := by
    intro k'
    by_cases e : k' = k
    · subst e
      unfold Tally.decrement
      rw [own]
      cases hn : facts.count k' with
      | zero => exact Table.get?_erase_self k' t
      | succ n => exact Table.get?_insert_self k' (n + 1) t
    · have other : (t.decrement k).get? k' = t.get? k' := by
        unfold Tally.decrement
        rw [own]
        cases facts.count k with
        | zero => exact Table.get?_erase_of_ne e t
        | succ n => exact Table.get?_insert_of_ne e (n + 1) t
      rw [other, h.get?_eq, List.count_cons_of_ne (Ne.symm e)]
  constructor
  · intro k' hk
    rw [step] at hk
    by_cases e : facts.count k' = 0
    · rw [if_pos e] at hk
      cases hk
    · rw [if_neg e] at hk
      exact e (Option.some.inj hk)
  · intro k'
    rw [supportsOf, step]
    by_cases e : facts.count k' = 0
    · rw [if_pos e, e, Option.getD_none]
    · rw [if_neg e, Option.getD_some]

/-- Several facts more are as many supports more. -/
theorem incrementAll (ks : List κ) (h : t.Counts facts) :
    Counts (ks.foldl (fun u k => u.increment k) t) (ks ++ facts) :=
  foldl_adds Counts _ (fun _ _ _ => perm) (fun _ _ k => increment k) ks h

/-- Several facts less are as many supports less. -/
theorem decrementAll (ks : List κ) (h : t.Counts (ks ++ facts)) :
    Counts (ks.foldl (fun u k => u.decrement k) t) facts :=
  foldl_takes Counts _ (fun _ _ k => decrement k) ks h

end Counts

end Tally

/-! ## Links -/

namespace Links

section Rows

variable {κ : Type} [DecidableEq κ]

/-- The classes that a list of pairs gives to a source, as often as it does. -/
def row (k : κ) (facts : List (κ × ClassName)) : List ClassName :=
  facts.filterMap fun p => if p.1 = k then some p.2 else none

theorem row_cons_self (k : κ) (c : ClassName) (facts : List (κ × ClassName)) :
    row k ((k, c) :: facts) = c :: row k facts := by
  rw [row, List.filterMap_cons, if_pos rfl]
  rfl

theorem row_cons_of_ne {k k' : κ} (h : k' ≠ k) (c : ClassName) (facts : List (κ × ClassName)) :
    row k' ((k, c) :: facts) = row k' facts := by
  rw [row, List.filterMap_cons, if_neg (Ne.symm h)]
  rfl

/-- In the row of a source are the classes that it is stated with. -/
theorem mem_row {k : κ} {c : ClassName} {facts : List (κ × ClassName)} :
    c ∈ row k facts ↔ (k, c) ∈ facts := by
  rw [row, List.mem_filterMap]
  constructor
  · rintro ⟨⟨k', c'⟩, hp, h⟩
    by_cases e : k' = k
    · rw [if_pos e] at h
      cases h
      exact e ▸ hp
    · rw [if_neg e] at h
      cases h
  · intro h
    exact ⟨(k, c), h, if_pos rfl⟩

end Rows

variable {κ : Type} [Ranked κ]

/-- The tally of a source that was put in. -/
theorem tally_insert_self (ls : Links κ) (k : κ) (t : Tally ClassName) :
    Links.tally (ls.insert k t) k = t := by
  rw [Links.tally, Table.get?_insert_self, Option.getD_some]

theorem tally_insert_of_ne {k k' : κ} (h : k' ≠ k) (ls : Links κ) (t : Tally ClassName) :
    Links.tally (ls.insert k t) k' = ls.tally k' := by
  rw [Links.tally, Table.get?_insert_of_ne h]
  rfl

variable [DecidableEq κ]

/-- **The links count the facts**: the tally of each source counts the row of that source, and no
source is kept without a link. -/
structure Counts (ls : Links κ) (facts : List (κ × ClassName)) : Prop where
  filled : ∀ k, ls.get? k ≠ some ∅
  tally : ∀ k, (ls.tally k).Counts (row k facts)

/-- An empty table of links counts no facts. -/
theorem counts_empty : Counts (∅ : Links κ) [] where
  filled k h := by simp only [Table.get?_empty, reduceCtorEq] at h
  tally k := by
    rw [Links.tally, Table.get?_empty]
    exact Tally.counts_empty

namespace Counts

variable {ls ms : Links κ} {facts facts' : List (κ × ClassName)}

/-- Links count facts in any order. -/
theorem perm (p : facts.Perm facts') (h : ls.Counts facts) : ls.Counts facts' where
  filled := h.filled
  tally k := (h.tally k).perm (p.filterMap _)

/-- A source is kept exactly while it has a link, and then with the tally of its row. -/
theorem get?_eq (h : ls.Counts facts) (k : κ) :
    ls.get? k = if row k facts = [] then none else some (ls.tally k) := by
  have ht := h.tally k
  cases hg : ls.get? k with
  | none =>
    rw [Links.tally, hg, Option.getD_none] at ht
    rw [if_pos (ht.isEmpty_iff.1 (Table.isEmpty_iff.2 rfl))]
  | some t =>
    have hrow : row k facts ≠ [] := by
      intro e
      rw [Links.tally, hg, Option.getD_some] at ht
      exact h.filled k (hg.trans (congrArg some (Table.isEmpty_iff.1 (ht.isEmpty_iff.2 e))))
    rw [if_neg hrow, Links.tally, hg, Option.getD_some]

/-- What the links count determines them. -/
theorem unique (h : ls.Counts facts) (h' : ms.Counts facts) : ls = ms := by
  refine Table.ext fun k => ?_
  rw [h.get?_eq, h'.get?_eq, (h.tally k).unique (h'.tally k)]

/-- The targets of a source are the classes that it is stated with. -/
theorem mem_targets (h : ls.Counts facts) {k : κ} {c : ClassName} :
    c ∈ ls.targets k ↔ (k, c) ∈ facts := by
  rw [targets, (h.tally k).mem_keys, mem_row]

/-- Linked are the pairs that are stated. -/
theorem linked_iff (h : ls.Counts facts) {k : κ} {c : ClassName} :
    ls.linked k c = true ↔ (k, c) ∈ facts := by
  rw [linked, Table.contains_iff, (h.tally k).mem_keys, mem_row]

/-- A pair that is stated once more has a support more. -/
theorem support (p : κ × ClassName) (h : ls.Counts facts) :
    Counts (ls.support p.1 p.2) (p :: facts) := by
  obtain ⟨k, c⟩ := p
  have own := (h.tally k).increment c
  constructor
  · intro k' hk
    by_cases e : k' = k
    · rw [e, Links.support, Table.get?_insert_self] at hk
      have nonempty := own.isEmpty_iff.1 (Table.isEmpty_iff.2 (Option.some.inj hk))
      cases nonempty
    · rw [Links.support, Table.get?_insert_of_ne e] at hk
      exact h.filled k' hk
  · intro k'
    by_cases e : k' = k
    · rw [e, Links.support, tally_insert_self, row_cons_self]
      exact own
    · rw [Links.support, tally_insert_of_ne e, row_cons_of_ne e]
      exact h.tally k'

/-- A pair that is stated once less has a support less. -/
theorem retract (p : κ × ClassName) (h : ls.Counts (p :: facts)) :
    Counts (ls.retract p.1 p.2) facts := by
  obtain ⟨k, c⟩ := p
  have hrow : row k ((k, c) :: facts) ≠ [] := by
    rw [row_cons_self]
    exact List.cons_ne_nil _ _
  have held : ls.get? k = some (ls.tally k) := by rw [h.get?_eq, if_neg hrow]
  have own : ((ls.tally k).decrement c).Counts (row k facts) :=
    Tally.Counts.decrement c (row_cons_self k c facts ▸ h.tally k)
  have rest : ∀ {k'}, k' ≠ k → (ls.tally k').Counts (row k' facts) := fun {k'} e =>
    row_cons_of_ne e c facts ▸ h.tally k'
  unfold Links.retract
  simp only [held]
  -- the source goes with its last link
  by_cases he : ((ls.tally k).decrement c).isEmpty = true
  · rw [if_pos he]
    constructor
    · intro k' hk
      by_cases e : k' = k
      · rw [e, Table.get?_erase_self] at hk
        cases hk
      · rw [Table.get?_erase_of_ne e] at hk
        exact h.filled k' hk
    · intro k'
      by_cases e : k' = k
      · rw [e, Links.tally, Table.get?_erase_self, own.isEmpty_iff.1 he]
        exact Tally.counts_empty
      · rw [Links.tally, Table.get?_erase_of_ne e]
        exact rest e
  · rw [if_neg he]
    constructor
    · intro k' hk
      by_cases e : k' = k
      · rw [e, Table.get?_insert_self] at hk
        exact he (Table.isEmpty_iff.2 (Option.some.inj hk))
      · rw [Table.get?_insert_of_ne e] at hk
        exact h.filled k' hk
    · intro k'
      by_cases e : k' = k
      · rw [e, tally_insert_self]
        exact own
      · rw [tally_insert_of_ne e]
        exact rest e

/-- Several pairs more are as many supports more. -/
theorem supportAll (ps : List (κ × ClassName)) (h : ls.Counts facts) :
    Counts (ps.foldl (fun ms p => ms.support p.1 p.2) ls) (ps ++ facts) :=
  foldl_adds Counts _ (fun _ _ _ => perm) (fun _ _ p => support p) ps h

/-- Several pairs less are as many supports less. -/
theorem retractAll (ps : List (κ × ClassName)) (h : ls.Counts (ps ++ facts)) :
    Counts (ps.foldl (fun ms p => ms.retract p.1 p.2) ls) facts :=
  foldl_takes Counts _ (fun _ _ p => retract p) ps h

end Counts

end Links

/-! ## Taxonomies -/

namespace Taxonomy

/-- **The taxonomy tells the axioms**: each index counts what the axioms state of its kind. -/
structure Tells (t : Taxonomy) (axioms : AxiomSet) : Prop where
  supers : t.supers.Counts (axioms.toList.flatMap Axiom.edges)
  disjoint : t.disjoint.Counts (axioms.toList.flatMap Axiom.conflicts)
  asserted : t.asserted.Counts (axioms.toList.flatMap Axiom.memberships)
  inUse : t.inUse.Counts (axioms.toList.flatMap Axiom.classes)

/-- A taxonomy of nothing tells no axioms. -/
theorem tells_empty : Tells {} ∅ where
  supers := Links.counts_empty
  disjoint := Links.counts_empty
  asserted := Links.counts_empty
  inUse := Tally.counts_empty

/-- Adding an edge is a support for it, whatever becomes of the closures. -/
theorem addEdge_eq (t : Taxonomy) (e : ClassName × ClassName) : ∃ memo,
    t.addEdge e = { t with supers := t.supers.support e.1 e.2, closures := memo } := by
  unfold addEdge
  extract_lets t'
  split
  · exact ⟨_, rfl⟩
  · exact ⟨_, rfl⟩

theorem removeEdge_eq (t : Taxonomy) (e : ClassName × ClassName) : ∃ memo,
    t.removeEdge e = { t with supers := t.supers.retract e.1 e.2, closures := memo } := by
  unfold removeEdge
  extract_lets t'
  split
  · exact ⟨_, rfl⟩
  · exact ⟨_, rfl⟩

/-- Adding edges changes the links, and otherwise the memo alone. -/
theorem foldl_addEdge_eq : ∀ (es : List (ClassName × ClassName)) (t : Taxonomy), ∃ memo,
    es.foldl addEdge t = { t with
      supers := es.foldl (fun ls e => ls.support e.1 e.2) t.supers, closures := memo }
  | [], t => ⟨t.closures, rfl⟩
  | e :: es, t => by
    obtain ⟨memo, h⟩ := addEdge_eq t e
    obtain ⟨memo', h'⟩ := foldl_addEdge_eq es (t.addEdge e)
    refine ⟨memo', ?_⟩
    rw [List.foldl_cons, h', h, List.foldl_cons]

/-- Removing edges changes the links, and otherwise the memo alone. -/
theorem foldl_removeEdge_eq : ∀ (es : List (ClassName × ClassName)) (t : Taxonomy), ∃ memo,
    es.foldl removeEdge t = { t with
      supers := es.foldl (fun ls e => ls.retract e.1 e.2) t.supers, closures := memo }
  | [], t => ⟨t.closures, rfl⟩
  | e :: es, t => by
    obtain ⟨memo, h⟩ := removeEdge_eq t e
    obtain ⟨memo', h'⟩ := foldl_removeEdge_eq es (t.removeEdge e)
    refine ⟨memo', ?_⟩
    rw [List.foldl_cons, h', h, List.foldl_cons]

section Changes

variable {t : Taxonomy} {axioms : AxiomSet} {a : Axiom}

/-- What a set of axioms states, a new axiom's share first. -/
theorem stated_insert {φ : Type} (f : Axiom → List φ) (h : a ∉ axioms) :
    (f a ++ axioms.toList.flatMap f).Perm ((axioms.insert a).toList.flatMap f) := by
  have p := (SortedSet.toList_insert_perm h).flatMap_right f
  rw [List.flatMap_cons] at p
  exact p.symm

/-- What the axioms state is what one of them states and what the others do. -/
theorem stated_erase {φ : Type} (f : Axiom → List φ) (h : a ∈ axioms) :
    (axioms.toList.flatMap f).Perm (f a ++ (axioms.erase a).toList.flatMap f) := by
  have p := (SortedSet.toList_perm_erase h).flatMap_right f
  rw [List.flatMap_cons] at p
  exact p

/-- **Taking in an axiom that is not held** makes the indices count it too. -/
theorem Tells.insert (h : t.Tells axioms) (new : a ∉ axioms) :
    (t.insert a).Tells (axioms.insert a) := by
  obtain ⟨memo, eq⟩ := foldl_addEdge_eq a.edges t
  unfold Taxonomy.insert
  rw [eq]
  exact {
    supers := (h.supers.supportAll a.edges).perm (stated_insert Axiom.edges new)
    disjoint := (h.disjoint.supportAll a.conflicts).perm (stated_insert Axiom.conflicts new)
    asserted := (h.asserted.supportAll a.memberships).perm (stated_insert Axiom.memberships new)
    inUse := (h.inUse.incrementAll a.classes).perm (stated_insert Axiom.classes new) }

/-- **Taking back an axiom that is held** makes the indices count the others. -/
theorem Tells.remove (h : t.Tells axioms) (held : a ∈ axioms) :
    (t.remove a).Tells (axioms.erase a) := by
  obtain ⟨memo, eq⟩ := foldl_removeEdge_eq a.edges t
  unfold Taxonomy.remove
  rw [eq]
  exact {
    supers := (h.supers.perm (stated_erase Axiom.edges held)).retractAll a.edges
    disjoint := (h.disjoint.perm (stated_erase Axiom.conflicts held)).retractAll a.conflicts
    asserted := (h.asserted.perm (stated_erase Axiom.memberships held)).retractAll a.memberships
    inUse := (h.inUse.perm (stated_erase Axiom.classes held)).decrementAll a.classes }

end Changes

end Taxonomy

end OntologyService
