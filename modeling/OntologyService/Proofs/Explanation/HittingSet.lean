import OntologyService.Proofs.Explanation.Contraction
import OntologyService.Proofs.Order.Places

/-!
# All justifications

The search walks the hitting-set tree. Its state is right when everything found is minimal, every
closed path leaves the goal possible, and every path met is **settled**: it contains a closed one,
or it waits with a label, or all its children are met (`Invariant`). Meeting a path, labelling it,
closing it and expanding it keep this, one lemma each, with the paths under work left open.

Completeness is read off a state in which nothing waits. Take a minimal set that was not found, and
a path that leaves it whole. The path cannot contain a closed one, since the set is left and refutes
the goal. So it was expanded, by the label of some other minimal set. That set is no part of ours,
so it has an axiom that ours has not, and the path extended by this axiom was met and still leaves
our set whole (`exists_further`). Such paths would go on for ever, and there are only `2 ^ n` of
them (`found_of_minimal`).

The number of expansions is bounded by a potential: the paths that wait, and the paths not yet met.
An expansion takes one off the first and moves others from the second to the first, so the bound
`2 ^ n` of the search is never felt.

**The law** (`mem_run_iff`): a search without limit gives the minimal sets, all of them and nothing
else. Under any limit it gives something exactly if there is anything to give (`run_eq_empty_iff`).
-/

namespace OntologyService

namespace Search

variable {task : Task} {s s' : Search} {path label : Positions}

/-- The label is that of a justification found which the path leaves whole. -/
def Labels (s : Search) (path label : Positions) : Prop :=
  (∃ J, s.found.get? J = some label) ∧ label.disjoint path = true

/-- The path was met; the root is met from the start. -/
def Met (s : Search) (path : Positions) : Prop := path = ∅ ∨ path.bits ∈ s.visited

/-- **The path is settled**: it contains a closed one, or waits, or all its children are met. -/
def Settled (s : Search) (path : Positions) : Prop :=
  s.hopeless path = true ∨ (∃ label, (path, label) ∈ s.pending) ∨
    ∃ label, s.Labels path label ∧ ∀ i, label.contains i = true → s.Met (path.insert i)

/-- **What a search rests on**, with some paths left open. -/
structure Invariant (task : Task) (s : Search) (still : Positions → Prop) : Prop where
  found : ∀ J label, s.found.get? J = some label →
    Justification.Minimal task.goal task.axioms J ∧ label = task.axioms.positions J
  closed : ∀ c ∈ s.closed, Possible (task.axioms.dropAt c) task.goal
  pending : ∀ path label, (path, label) ∈ s.pending →
    s.Labels path label ∧ path.Below task.axioms.size
  bounded : ∀ b ∈ s.visited, 0 < b ∧ b < 2 ^ task.axioms.size
  settled : ∀ path, s.Met path → still path ∨ s.Settled path

/-- How many expansions a search can still have ahead. -/
def potential (task : Task) (s : Search) : Nat :=
  s.pending.length + (2 ^ task.axioms.size - 1 - s.visited.size)

/-! ## Growing -/

/-- Everything that was known is still known. -/
structure Grows (s s' : Search) : Prop where
  found : ∀ J label, s.found.get? J = some label → s'.found.get? J = some label
  closed : ∀ c ∈ s.closed, c ∈ s'.closed
  pending : ∀ e ∈ s.pending, e ∈ s'.pending
  visited : ∀ b ∈ s.visited, b ∈ s'.visited

namespace Grows

theorem refl (s : Search) : s.Grows s :=
  ⟨fun _ _ h => h, fun _ h => h, fun _ h => h, fun _ h => h⟩

theorem trans {s'' : Search} (h : s.Grows s') (h' : s'.Grows s'') : s.Grows s'' where
  found J label hJ := h'.found J label (h.found J label hJ)
  closed c hc := h'.closed c (h.closed c hc)
  pending e he := h'.pending e (h.pending e he)
  visited b hb := h'.visited b (h.visited b hb)

/-- Visiting a path is growth. -/
theorem meet (s : Search) (path : Positions) :
    s.Grows { s with visited := s.visited.insert path.bits } :=
  ⟨fun _ _ h => h, fun _ h => h, fun _ h => h, fun _ h => Std.TreeSet.mem_insert.2 (.inr h)⟩

/-- Putting a path on the agenda is growth. -/
theorem wait (s : Search) (path label : Positions) :
    s.Grows { s with pending := (path, label) :: s.pending } :=
  ⟨fun _ _ h => h, fun _ h => h, fun _ h => List.mem_cons_of_mem _ h, fun _ h => h⟩

/-- Closing a path is growth. -/
theorem close (s : Search) (path : Positions) :
    s.Grows { s with closed := path :: s.closed } :=
  ⟨fun _ _ h => h, fun _ h => List.mem_cons_of_mem _ h, fun _ h => h, fun _ h => h⟩

/-- A label of a path stays one as the search grows. -/
theorem labels (h : s.Grows s') (labels : s.Labels path label) : s'.Labels path label := by
  obtain ⟨⟨J, hJ⟩, apart⟩ := labels
  exact ⟨⟨J, h.found J label hJ⟩, apart⟩

/-- A path met stays met as the search grows. -/
theorem met (h : s.Grows s') (met : s.Met path) : s'.Met path := by
  rcases met with root | met
  · exact .inl root
  · exact .inr (h.visited _ met)

/-- A path without hope stays so as the search grows. -/
theorem hopeless (h : s.Grows s') (hope : s.hopeless path = true) :
    s'.hopeless path = true := by
  obtain ⟨c, hc, within⟩ := List.any_eq_true.1 hope
  exact List.any_eq_true.2 ⟨c, h.closed c hc, within⟩

/-- A settled path stays settled as the search grows. -/
theorem settled (h : s.Grows s') (settled : s.Settled path) : s'.Settled path := by
  rcases settled with hope | ⟨label, waits⟩ | ⟨label, labels, met⟩
  · exact .inl (h.hopeless hope)
  · exact .inr (.inl ⟨label, h.pending _ waits⟩)
  · exact .inr (.inr ⟨label, h.labels labels, fun i hi => h.met (met i hi)⟩)

end Grows

/-! ## One path -/

namespace Invariant

variable {still : Positions → Prop}

/-- Paths that are settled need not be left open. -/
theorem settle (h : Invariant task s still) {still' : Positions → Prop}
    (done : ∀ path, still path → still' path ∨ s.Settled path) : Invariant task s still' where
  found := h.found
  closed := h.closed
  pending := h.pending
  bounded := h.bounded
  settled path met := (h.settled path met).elim (done path) .inr

/-- Meeting a path leaves it open. -/
theorem meet (h : Invariant task s still) (below : path.Below task.axioms.size)
    (pos : 0 < path.bits) :
    Invariant task { s with visited := s.visited.insert path.bits }
      (fun q => q = path ∨ still q) := by
  refine ⟨h.found, h.closed, h.pending, fun b hb => ?_, fun q met => ?_⟩
  · rcases Std.TreeSet.mem_insert.1 hb with same | hb
    · rw [← Std.compare_eq_iff_eq.1 same]
      exact ⟨pos, below.bits_lt⟩
    · exact h.bounded b hb
  · have met' : q = path ∨ s.Met q := by
      rcases met with root | met
      · exact .inr (.inl root)
      · rcases Std.TreeSet.mem_insert.1 met with same | met
        · refine .inl (Positions.ext fun i => ?_)
          rw [Positions.contains, Positions.contains, Std.compare_eq_iff_eq.1 same]
        · exact .inr (.inr met)
    rcases met' with rfl | met'
    · exact .inl (.inl rfl)
    · rcases h.settled q met' with hq | settled
      · exact .inl (.inr hq)
      · exact .inr ((Grows.meet s path).settled settled)

/-- A path with a label waits. -/
theorem wait (h : Invariant task s fun q => q = path ∨ still q)
    (below : path.Below task.axioms.size) (labels : s.Labels path label) :
    Invariant task { s with pending := (path, label) :: s.pending } still := by
  refine ⟨h.found, h.closed, fun q l hq => ?_, h.bounded, fun q met => ?_⟩
  · rcases List.mem_cons.1 hq with same | hq
    · cases same
      exact ⟨labels, below⟩
    · exact h.pending q l hq
  · rcases h.settled q met with (rfl | hq) | settled
    · exact .inr (.inr (.inl ⟨label, List.mem_cons_self ..⟩))
    · exact .inl hq
    · exact .inr ((Grows.wait s path label).settled settled)

/-- A path without which the goal is possible is closed. -/
theorem close (h : Invariant task s fun q => q = path ∨ still q)
    (lost : Possible (task.axioms.dropAt path) task.goal) :
    Invariant task { s with closed := path :: s.closed } still := by
  refine ⟨h.found, fun c hc => ?_, h.pending, h.bounded, fun q met => ?_⟩
  · rcases List.mem_cons.1 hc with rfl | hc
    · exact lost
    · exact h.closed c hc
  · rcases h.settled q met with (rfl | hq) | settled
    · refine .inr (.inl (List.any_eq_true.2 ⟨q, List.mem_cons_self .., ?_⟩))
      exact Positions.subset_iff.2 fun _ hi => hi
    · exact .inl hq
    · exact .inr ((Grows.close s path).settled settled)

/-- A minimal set is found, once more or for the first time. -/
theorem find (h : Invariant task s still) {J : Justification}
    (minimal : Justification.Minimal task.goal task.axioms J) :
    Invariant task { s with found := s.found.insert J (task.axioms.positions J) } still ∧
      s.Grows { s with found := s.found.insert J (task.axioms.positions J) } := by
  have grows : s.Grows { s with found := s.found.insert J (task.axioms.positions J) } := by
    refine ⟨fun K label hK => ?_, fun _ h => h, fun _ h => h, fun _ h => h⟩
    by_cases e : K = J
    · rw [e, Table.get?_insert_self, ← e, (h.found K label hK).2]
    · rw [Table.get?_insert_of_ne e, hK]
  refine ⟨⟨fun K label hK => ?_, h.closed, fun q l hq => ?_, h.bounded, fun q met => ?_⟩, grows⟩
  · by_cases e : K = J
    · rw [e, Table.get?_insert_self] at hK
      rw [e, ← Option.some.inj hK]
      exact ⟨minimal, rfl⟩
    · rw [Table.get?_insert_of_ne e] at hK
      exact h.found K label hK
  · obtain ⟨labels, below⟩ := h.pending q l hq
    exact ⟨grows.labels labels, below⟩
  · exact (h.settled q met).imp_right grows.settled

/-- A node that leaves those that wait leaves its path open. -/
theorem take (h : Invariant task s fun _ => False) {rest : List (Positions × Positions)}
    (waits : s.pending = (path, label) :: rest) :
    Invariant task { s with pending := rest } (· = path) := by
  refine ⟨h.found, h.closed, fun q l hq => ?_, h.bounded, fun q met => ?_⟩
  · exact h.pending q l (waits ▸ List.mem_cons_of_mem _ hq)
  · rcases (h.settled q met).resolve_left id with hope | ⟨l, hq⟩ | expanded
    · exact .inr (.inl hope)
    · rcases List.mem_cons.1 (waits ▸ hq) with same | hq
      · exact .inl (Prod.mk.inj same).1
      · exact .inr (.inr (.inl ⟨l, hq⟩))
    · exact .inr (.inr (.inr expanded))

end Invariant

/-- A label that is reused labels the path it is reused for. -/
theorem labels_of_reusable? (h : s.reusable? path = some label) : s.Labels path label := by
  unfold reusable? at h
  obtain ⟨e, he, rfl⟩ := Option.map_eq_some_iff.1 h
  have apart := List.find?_some he
  exact ⟨⟨e.1, Table.mem_toList.1 (List.mem_of_find?_eq_some he)⟩, apart⟩

/-- **Labelling** settles the path, and lets at most one more path wait. -/
theorem label_spec {still : Positions → Prop} (h : s.label task path = .ok s')
    (inv : Invariant task s fun q => q = path ∨ still q) (below : path.Below task.axioms.size) :
    Invariant task s' still ∧ s.Grows s' ∧ s'.visited = s.visited ∧
      s'.pending.length ≤ s.pending.length + 1 := by
  unfold label at h
  cases hr : s.reusable? path with
  | some known =>
    rw [hr] at h
    cases h
    exact ⟨inv.wait below (labels_of_reusable? hr), .wait s path known, rfl, Nat.le_refl _⟩
  | none =>
    rw [hr] at h
    obtain ⟨found, searched, rest⟩ := bind_eq_ok_iff.1 h
    cases found with
    | some J =>
      cases rest
      have left := Justification.find?_some searched
      have minimal : Justification.Minimal task.goal task.axioms J :=
        left.of_within fun a ha => SortedSet.mem_of_mem_dropAt (left.within a ha)
      obtain ⟨inv', grows⟩ := inv.find minimal
      have whole := (SortedSet.positions_disjoint_iff minimal.within).2 left.within
      exact ⟨inv'.wait below ⟨⟨J, Table.get?_insert_self ..⟩, whole⟩,
        grows.trans (.wait _ path _), rfl, Nat.le_refl _⟩
    | none =>
      cases rest
      exact ⟨inv.close (Justification.find?_none searched), .close s path, rfl, Nat.le_succ _⟩

/-! ## One expansion -/

/-- A path met for the first time uses up one of the paths not yet met. -/
theorem potential_meet {still : Positions → Prop}
    (new : ¬ s.visited.contains path.bits = true)
    (inv : Invariant task { s with visited := s.visited.insert path.bits } still) :
    potential task { s with visited := s.visited.insert path.bits } + 1 ≤ potential task s := by
  have size : (s.visited.insert path.bits).size = s.visited.size + 1 := by
    rw [Std.TreeSet.size_insert, if_neg new]
  have room := size_lt_of_bounded (Nat.two_pow_pos _) inv.bounded
  unfold potential
  dsimp only at room ⊢
  omega

/-- One child is met, if it was not met before: it is hopeless, or it is labelled. -/
theorem extend_cons_spec {still : Positions → Prop} {i : Nat} {is : List Nat}
    (h : extend task path s (i :: is) = .ok s')
    (inv : Invariant task s still) (below : path.Below task.axioms.size)
    (bound : i < task.axioms.size) :
    (s.full task = true ∧ s' = s) ∨
      ∃ s₁, extend task path s₁ is = .ok s' ∧ Invariant task s₁ still ∧ s.Grows s₁ ∧
        potential task s₁ ≤ potential task s ∧ s₁.Met (path.insert i) := by
  rw [extend] at h
  split at h
  · rename_i full
    cases h
    exact .inl ⟨full, rfl⟩
  · refine .inr ?_
    dsimp only at h
    split at h
    · rename_i visited
      exact ⟨s, h, inv, .refl s, Nat.le_refl _, .inr (Std.TreeSet.contains_iff_mem.1 visited)⟩
    · rename_i new
      have below' := below.insert bound
      have met := inv.meet below' (Positions.bits_insert_pos i path)
      have paid := potential_meet new met
      have grows := Grows.meet s (path.insert i)
      have here : (path.insert i).bits ∈ s.visited.insert (path.insert i).bits :=
        Std.TreeSet.mem_insert_self
      split at h
      · rename_i hope
        -- nothing is found below a path without hope, so it counts as settled
        refine ⟨_, h, met.settle fun q hq => ?_, grows, by omega, .inr here⟩
        rcases hq with rfl | hq
        · exact .inr (.inl hope)
        · exact .inl hq
      · obtain ⟨s₁, labelled, rest⟩ := bind_eq_ok_iff.1 h
        obtain ⟨inv₁, grows₁, same, longer⟩ := label_spec labelled met below'
        refine ⟨s₁, rest, inv₁, grows.trans grows₁, ?_, .inr (same ▸ here)⟩
        unfold potential at paid ⊢
        rw [same]
        dsimp only at paid longer ⊢
        omega

/-- **Extending a path** meets its children, unless enough is found before. -/
theorem extend_spec {still : Positions → Prop} (is : List Nat) :
    ∀ {s : Search}, extend task path s is = .ok s' →
    Invariant task s still → path.Below task.axioms.size → (∀ i ∈ is, i < task.axioms.size) →
    Invariant task s' still ∧ s.Grows s' ∧ potential task s' ≤ potential task s ∧
      (s'.full task = true ∨ ∀ i ∈ is, s'.Met (path.insert i)) := by
  induction is with
  | nil =>
    intro s h inv _ _
    cases h
    exact ⟨inv, .refl _, Nat.le_refl _, .inr fun i hi => nomatch hi⟩
  | cons i is ih =>
    intro s h inv below bound
    rcases extend_cons_spec h inv below (bound i (List.mem_cons_self ..)) with
      ⟨full, rfl⟩ | ⟨s₁, rest, inv₁, grows₁, potential₁, met⟩
    · exact ⟨inv, .refl _, Nat.le_refl _, .inl full⟩
    · obtain ⟨inv', grows', potential', done⟩ :=
        ih rest inv₁ below fun j hj => bound j (List.mem_cons_of_mem _ hj)
      refine ⟨inv', grows₁.trans grows', Nat.le_trans potential' potential₁, done.imp_right ?_⟩
      intro all j hj
      rcases List.mem_cons.1 hj with rfl | hj
      · exact grows'.met met
      · exact all j hj

/-- A path whose children are all met is settled. -/
theorem settled_of_met (inv : ∃ still, Invariant task s still) (labels : s.Labels path label)
    (met : ∀ i ∈ label.below task.axioms.size, s.Met (path.insert i)) : s.Settled path := by
  obtain ⟨still, inv⟩ := inv
  obtain ⟨J, hJ⟩ := labels.1
  have within : label.Below task.axioms.size := by
    rw [(inv.found J label hJ).2]
    exact SortedSet.positions_below
  refine .inr (.inr ⟨label, labels, fun i hi => met i ?_⟩)
  exact Positions.mem_below.2 ⟨within i hi, hi⟩

/-! ## The whole search -/

/-- **A search that has ended** has found enough, or has settled every path it met. -/
structure Ended (task : Task) (s : Search) : Prop where
  sound : ∃ still, Invariant task s still
  done : s.full task = true ∨ s.pending = [] ∧ Invariant task s fun _ => False

/-- **A run of expansions**, by the paths that are expanded. Each takes the node that waits at the
front and extends its path by each axiom of its label. No number of steps is given to it. -/
inductive Run (task : Task) : Search → List Positions → Search → Prop
  | done (s : Search) : Run task s [] s
  | expand {s s₁ s' : Search} {path label : Positions} {rest : List (Positions × Positions)}
    {paths : List Positions} (waits : s.pending = (path, label) :: rest)
    (extended : extend task path { s with pending := rest } (label.below task.axioms.size) = .ok s₁)
    (later : Run task s₁ paths s') : Run task s (path :: paths) s'

/-- **The search ends** before its bound is felt: it is a run to a state in which it has ended. -/
theorem expandAll_spec : ∀ (n : Nat) {s : Search} {es : Explanations},
    expandAll task n s = .ok es → (Invariant task s fun _ => False) → potential task s ≤ n →
    ∃ paths s', Run task s paths s' ∧ s'.Ended task ∧ es = s'.found.keySet ∧
      ∀ J label, s.found.get? J = some label → s'.found.get? J = some label
  | 0, s, es, h, inv, enough => by
    cases h
    have empty : s.pending = [] := by
      refine List.length_eq_zero_iff.1 ?_
      unfold potential at enough
      omega
    exact ⟨[], s, .done s, ⟨⟨_, inv⟩, .inr ⟨empty, inv⟩⟩, rfl, fun _ _ hJ => hJ⟩
  | n + 1, s, es, h, inv, enough => by
    rw [expandAll] at h
    split at h
    · rename_i empty
      cases h
      exact ⟨[], s, .done s, ⟨⟨_, inv⟩, .inr ⟨empty, inv⟩⟩, rfl, fun _ _ hJ => hJ⟩
    · rename_i path label rest waits
      obtain ⟨s₁, extended, after⟩ := bind_eq_ok_iff.1 h
      obtain ⟨labels, below⟩ := inv.pending path label (waits ▸ List.mem_cons_self ..)
      have taken := inv.take waits
      -- one path less waits, and that pays for the step
      have shorter : potential task { s with pending := rest } + 1 ≤ potential task s := by
        unfold potential
        rw [waits, List.length_cons]
        dsimp only
        omega
      obtain ⟨inv₁, grows, fewer, done⟩ := extend_spec (label.below task.axioms.size) extended taken
        below fun i hi => (Positions.mem_below.1 hi).1
      split at after
      · rename_i full
        cases after
        exact ⟨[path], s₁, .expand waits extended (.done s₁), ⟨⟨_, inv₁⟩, .inl full⟩, rfl,
          grows.found⟩
      · rename_i wanting
        -- every longer path by one position was met, so nothing below the path is missed
        have settled := settled_of_met ⟨_, inv₁⟩ (grows.labels labels)
          (done.resolve_left wanting)
        have inv₂ : Invariant task s₁ fun _ => False :=
          inv₁.settle fun q hq => .inr (hq ▸ settled)
        obtain ⟨paths, s', run, ended, answer, kept⟩ := expandAll_spec n after inv₂ (by omega)
        exact ⟨path :: paths, s', .expand waits extended run, ended, answer,
          fun J label hJ => kept J label (grows.found J label hJ)⟩

/-- A path met that leaves a minimal set whole goes on to another, if nothing waits and the set
is not found. -/
theorem exists_further (inv : Invariant task s fun _ => False) (empty : s.pending = [])
    {J : Justification} (minimal : Justification.Minimal task.goal task.axioms J)
    (lost : ∀ label, s.found.get? J ≠ some label) (met : s.Met path)
    (whole : (task.axioms.positions J).disjoint path = true) :
    ∃ i, path.contains i = false ∧ s.Met (path.insert i) ∧
      (task.axioms.positions J).disjoint (path.insert i) = true := by
  have kept := (SortedSet.positions_disjoint_iff minimal.within).1 whole
  rcases (inv.settled path met).resolve_left id with hope | ⟨label, waits⟩ |
    ⟨label, ⟨⟨K, hK⟩, apart⟩, children⟩
  · obtain ⟨c, hc, within⟩ := List.any_eq_true.1 hope
    exact absurd ((inv.closed c hc).mono fun a ha => SortedSet.dropAt_mono within (kept a ha))
      minimal.refutes
  · rw [empty] at waits
    cases waits
  · obtain ⟨minimalK, rfl⟩ := inv.found K label hK
    -- the label is no part of the set, which would not be minimal
    have other : ∃ a ∈ K, a ∉ J := by
      by_contra part
      have sub : ∀ a ∈ K, a ∈ J := by
        intro a ha
        by_contra out
        exact part ⟨a, ha, out⟩
      exact lost _ (minimal.least K sub minimalK.refutes ▸ hK)
    obtain ⟨a, ha, out⟩ := other
    obtain ⟨i, at_i⟩ := List.mem_iff_getElem?.1 (SortedSet.mem_iff.1 (minimalK.within a ha))
    have labelled : (task.axioms.positions K).contains i = true :=
      SortedSet.contains_positions.2 ⟨a, at_i, ha⟩
    refine ⟨i, Positions.disjoint_iff.1 apart i labelled, children i labelled, ?_⟩
    refine Positions.disjoint_iff.2 fun j hj => ?_
    have elsewhere : j ≠ i := by
      rintro rfl
      obtain ⟨b, at_j, hb⟩ := SortedSet.contains_positions.1 hj
      rw [at_i] at at_j
      cases at_j
      exact out hb
    rw [Positions.contains_insert, Positions.disjoint_iff.1 whole j hj, decide_eq_false elsewhere,
      Bool.false_or]

/-- **Nothing is lost**: where nothing waits and every path met is settled, every minimal set is
found. -/
theorem found_of_minimal (inv : Invariant task s fun _ => False) (empty : s.pending = [])
    {J : Justification} (minimal : Justification.Minimal task.goal task.axioms J) :
    ∃ label, s.found.get? J = some label := by
  by_contra none
  have lost : ∀ label, s.found.get? J ≠ some label := fun label h => none ⟨label, h⟩
  -- no path met leaves the set whole, by induction on how far its number is from the bound
  have spoiled : ∀ (k : Nat) (path : Positions), 2 ^ task.axioms.size - path.bits ≤ k →
      s.Met path → (task.axioms.positions J).disjoint path = true → False := by
    intro k
    induction k with
    | zero =>
      intro path near met _
      have bound : path.bits < 2 ^ task.axioms.size := by
        rcases met with rfl | met
        · exact Nat.two_pow_pos _
        · exact (inv.bounded _ met).2
      omega
    | succ k ih =>
      intro path near met whole
      obtain ⟨i, new, met', whole'⟩ := exists_further inv empty minimal lost met whole
      have larger := Positions.bits_insert new
      exact ih (path.insert i) (by omega) met' whole'
  refine spoiled _ ∅ (Nat.le_refl _) (.inl rfl) (Positions.disjoint_iff.2 fun i _ => ?_)
  exact Positions.contains_empty i

/-- A search at its start: the label of the root is found, and the root waits with it. -/
def start (task : Task) (root : Justification) : Search where
  found := Table.insert root (task.axioms.positions root) ∅
  pending := [(∅, task.axioms.positions root)]

/-- The search starts within its invariant, from any minimal justification at the root. -/
theorem invariant_start {root : Justification}
    (minimal : Justification.Minimal task.goal task.axioms root) :
    Invariant task (start task root) fun _ => False := by
  refine ⟨fun J label hJ => ?_, fun c hc => (nomatch hc), fun path label waits => ?_,
    fun b hb => absurd hb Std.TreeSet.not_mem_emptyc, fun path met => ?_⟩
  · rw [start] at hJ
    by_cases e : J = root
    · rw [e, Table.get?_insert_self] at hJ
      rw [e, ← Option.some.inj hJ]
      exact ⟨minimal, rfl⟩
    · rw [Table.get?_insert_of_ne e, Table.get?_empty] at hJ
      cases hJ
  · cases List.mem_singleton.1 waits
    refine ⟨⟨⟨root, Table.get?_insert_self ..⟩, ?_⟩, Positions.below_empty _⟩
    exact Positions.disjoint_iff.2 fun i _ => Positions.contains_empty i
  · rcases met with rfl | met
    · exact .inr (.inr (.inl ⟨_, List.mem_singleton.2 rfl⟩))
    · exact absurd met Std.TreeSet.not_mem_emptyc

/-- The bound of a search is as much as it can have ahead at its start. -/
theorem potential_start (root : Justification) :
    potential task (start task root) ≤ 2 ^ task.axioms.size := by
  have room := Nat.two_pow_pos task.axioms.size
  unfold potential start
  rw [Std.TreeSet.size_emptyc, List.length_singleton]
  omega

/-- **A search that has a root** is a run from there to a state in which it has ended. -/
theorem run_of_find? {root : Justification} {es : Explanations} (h : run task = .ok es)
    (searched : Justification.find? task.ontology task.goal task.axioms = .ok (some root)) :
    ∃ paths s, Run task (start task root) paths s ∧ s.Ended task ∧ es = s.found.keySet ∧
      ∃ label, s.found.get? root = some label := by
  unfold run at h
  rw [searched] at h
  obtain ⟨paths, s, run, ended, answer, kept⟩ := expandAll_spec _ h
    (invariant_start (Justification.find?_some searched)) (potential_start root)
  exact ⟨paths, s, run, ended, answer, _, kept root _ (Table.get?_insert_self ..)⟩

/-- **A search** finds nothing where the goal is possible, and otherwise finds something and runs to
its end. -/
theorem run_spec {es : Explanations} (h : run task = .ok es) :
    (es = ∅ ∧ Possible task.axioms task.goal) ∨
      ∃ s : Search, s.Ended task ∧ es = s.found.keySet ∧ ∃ J label, s.found.get? J = some label := by
  obtain ⟨found, searched, rest⟩ := bind_eq_ok_iff.1 h
  cases found with
  | none =>
    cases rest
    exact .inl ⟨rfl, Justification.find?_none searched⟩
  | some root =>
    obtain ⟨-, s, -, ended, answer, label, found⟩ := run_of_find? h searched
    exact .inr ⟨s, ended, answer, root, label, found⟩

/-- **A search is in vain** exactly where the goal is possible, whatever its limit. -/
theorem run_eq_empty_iff {es : Explanations} (h : run task = .ok es) :
    es = ∅ ↔ Possible task.axioms task.goal := by
  rcases run_spec h with ⟨rfl, possible⟩ | ⟨s, ⟨⟨still, sound⟩, -⟩, rfl, J, label, hJ⟩
  · exact ⟨fun _ => possible, fun _ => rfl⟩
  · have listed : J ∈ s.found.keySet := Table.mem_keySet.2 (by rw [hJ]; rfl)
    have minimal := (sound.found J label hJ).1
    constructor
    · intro none
      rw [none] at listed
      exact absurd listed (SortedSet.not_mem_empty J)
    · exact fun possible => absurd (possible.mono minimal.within) minimal.refutes

/-- **A search without limit** gives the minimal sets of the task's axioms that refute its goal,
all of them and nothing else. -/
theorem mem_run_iff (unlimited : task.limit = 0) {es : Explanations} (h : run task = .ok es)
    {J : Justification} : J ∈ es ↔ Justification.Minimal task.goal task.axioms J := by
  rcases run_spec h with ⟨rfl, possible⟩ | ⟨s, ⟨⟨still, sound⟩, done⟩, rfl, -⟩
  · constructor
    · exact fun hJ => absurd hJ (SortedSet.not_mem_empty J)
    · exact fun minimal => absurd (possible.mono minimal.within) minimal.refutes
  · have wanting : ¬ s.full task = true := by
      rw [full, unlimited, decide_eq_false (Nat.lt_irrefl 0), Bool.false_and]
      exact Bool.false_ne_true
    obtain ⟨empty, settled⟩ := done.resolve_left wanting
    rw [Table.mem_keySet, Option.isSome_iff_exists]
    constructor
    · rintro ⟨label, hJ⟩
      exact (sound.found J label hJ).1
    · exact found_of_minimal settled empty

/-! ## That there is an answer -/

section

variable {cs : List Conjunct} (normal : task.goal.dnf = .ok cs)
  (valid : ∀ a ∈ task.axioms, a.Valid)
include normal valid

/-- Labelling a path of a goal with a normal form gets an answer. -/
theorem label_answers (s : Search) (path : Positions) : ∃ s', s.label task path = .ok s' := by
  unfold label
  split
  · exact ⟨_, rfl⟩
  · refine bind_answers (Justification.find?_answers normal fun a ha =>
      valid a (SortedSet.mem_of_mem_dropAt ha)) fun found => ?_
    cases found with
    | some J => exact ⟨_, rfl⟩
    | none => exact ⟨_, rfl⟩

/-- So does extending a path by any list of positions. -/
theorem extend_answers (path : Positions) (is : List Nat) :
    ∀ s : Search, ∃ s', extend task path s is = .ok s' := by
  induction is with
  | nil => exact fun s => ⟨s, rfl⟩
  | cons i is ih =>
    intro s
    rw [extend]
    split
    · exact ⟨s, rfl⟩
    · dsimp only
      split
      · exact ih _
      · split
        · exact ih _
        · exact bind_answers (label_answers normal valid _ _) ih

/-- So does the whole search, whatever its fuel. -/
theorem expandAll_answers : ∀ (n : Nat) (s : Search), ∃ es, expandAll task n s = .ok es
  | 0, _ => ⟨_, rfl⟩
  | n + 1, s => by
    rw [expandAll]
    split
    · exact ⟨_, rfl⟩
    · refine bind_answers (extend_answers normal valid _ _ _) fun s₁ => ?_
      split
      · exact ⟨_, rfl⟩
      · exact expandAll_answers n s₁

/-- **A goal with a normal form**, over valid axioms, gets an answer. -/
theorem run_answers : ∃ es, run task = .ok es := by
  unfold run
  refine bind_answers (Justification.find?_answers normal valid) fun found => ?_
  cases found with
  | none => exact ⟨∅, rfl⟩
  | some root => exact expandAll_answers normal valid _ _

end

/-- A goal without a normal form gives no answer. -/
theorem run_refused {err : ReasoningError} (refused : task.goal.dnf = .error err)
    (es : Explanations) : run task ≠ .ok es := by
  intro h
  obtain ⟨found, searched, -⟩ := bind_eq_ok_iff.1 h
  exact Justification.find?_refused refused found searched

/-- Over valid axioms it is refused for what its normal form was refused for. -/
theorem run_eq_error {err : ReasoningError} (refused : task.goal.dnf = .error err)
    (valid : ∀ a ∈ task.axioms, a.Valid) : run task = .error err := by
  unfold run
  rw [Justification.find?_eq_error refused valid]
  rfl

end Search

end OntologyService
