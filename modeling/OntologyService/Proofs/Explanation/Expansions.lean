import OntologyService.Proofs.Explanation.HittingSet

/-!
# The expansions of a search

The stack of a search both grows and shrinks, and labels are used again, so no counter of the stack
goes down. What goes up is the number of paths met. A path comes to wait only when it is met for the
first time (`Fresh`), so the paths that were expanded and those that wait are different sets of
positions, and there are no more than `2 ^ n` of them.

A path that waits has the label of a minimal set that it leaves whole. A closed path is one after
whose removal the goal is possible, so no path that waits contains one (`exists_spared`): pruning
while a path is being extended never comes too late for those that wait already.

**The law** (`ends_orderly`): over valid axioms a search is refused for its goal, finds nothing, or
is a run of expansions from its root to an end; and every run from the root is `Orderly`.
-/

namespace OntologyService

namespace Search

/-- The axioms that a path takes away. -/
def Task.removed (task : Task) (path : Positions) : AxiomSet :=
  task.axioms.sdiff (task.axioms.dropAt path)

variable {task : Task} {s s₁ s' : Search} {path label : Positions} {before paths : List Positions}

/-! ## Paths as sets of axioms -/

/-- The axioms removed are those at the positions of the path. -/
theorem Task.mem_removed {a : Axiom} :
    a ∈ task.removed path ↔ ∃ i, task.axioms.toList[i]? = some a ∧ path.contains i = true := by
  rw [removed, SortedSet.mem_sdiff]
  constructor
  · rintro ⟨ha, out⟩
    obtain ⟨i, at_i⟩ := List.mem_iff_getElem?.1 (SortedSet.mem_iff.1 ha)
    refine ⟨i, at_i, Bool.eq_true_of_not_eq_false fun kept => ?_⟩
    exact out (SortedSet.mem_dropAt.2 ⟨i, at_i, kept⟩)
  · rintro ⟨i, at_i, taken⟩
    refine ⟨SortedSet.mem_iff.2 (List.mem_of_getElem? at_i), fun left => ?_⟩
    obtain ⟨j, at_j, kept⟩ := SortedSet.mem_dropAt.1 left
    have bound := (List.getElem?_eq_some_iff.1 at_i).1
    obtain rfl := (List.getElem?_inj bound task.axioms.nodup).1 (at_i.trans at_j.symm)
    cases taken.symm.trans kept

/-- A path is the positions of the axioms that it takes away. -/
theorem Task.positions_removed (below : path.Below task.axioms.size) :
    task.axioms.positions (task.removed path) = path := by
  refine Positions.ext fun i => Bool.eq_iff_iff.2 ?_
  rw [SortedSet.contains_positions]
  constructor
  · rintro ⟨a, at_i, ha⟩
    obtain ⟨j, at_j, taken⟩ := Task.mem_removed.1 ha
    have bound := (List.getElem?_eq_some_iff.1 at_i).1
    rwa [(List.getElem?_inj bound task.axioms.nodup).1 (at_i.trans at_j.symm)]
  · intro taken
    have at_i := List.getElem?_eq_getElem (below i taken)
    exact ⟨_, at_i, Task.mem_removed.2 ⟨i, at_i, taken⟩⟩

/-! ## Paths are met once -/

/-- **No path was expanded twice or will be**: the paths expanded before and those that wait are
different, and each was met. -/
structure Fresh (task : Task) (before : List Positions) (s : Search) : Prop where
  distinct : (before ++ s.pending.map Prod.fst).Nodup
  met : ∀ p ∈ before ++ s.pending.map Prod.fst, s.Met p ∧ p.Below task.axioms.size

/-- At the start nothing has been expanded. -/
theorem fresh_start (root : Justification) : Fresh task [] (start task root) where
  distinct := List.nodup_singleton _
  met p hp := by
    rw [List.mem_singleton.1 hp]
    exact ⟨.inl rfl, Positions.below_empty _⟩

namespace Fresh

/-- More paths may be met while none comes to wait. -/
theorem meet (h : Fresh task before s) (visited : ∀ b ∈ s.visited, b ∈ s'.visited)
    (same : s'.pending = s.pending) : Fresh task before s' := by
  constructor
  · rw [same]
    exact h.distinct
  · intro p hp
    rw [same] at hp
    exact ⟨(h.met p hp).1.imp_right (visited _), (h.met p hp).2⟩

/-- A path that is met for the first time may come to wait. -/
theorem wait (h : Fresh task before s) (new : ¬ s.Met path) (below : path.Below task.axioms.size)
    (visited : ∀ b, b ∈ s'.visited ↔ b = path.bits ∨ b ∈ s.visited)
    (pending : s'.pending = (path, label) :: s.pending) : Fresh task before s' := by
  have listed (p : Positions) : p ∈ before ++ s'.pending.map Prod.fst ↔
      p = path ∨ p ∈ before ++ s.pending.map Prod.fst := by
    rw [pending, List.map_cons, List.mem_append, List.mem_cons, List.mem_append, or_left_comm]
  constructor
  · rw [pending, List.map_cons, List.nodup_middle, List.nodup_cons]
    exact ⟨fun hp => new (h.met path hp).1, h.distinct⟩
  · intro p hp
    rcases (listed p).1 hp with rfl | hp
    · exact ⟨.inr ((visited _).2 (.inl rfl)), below⟩
    · exact ⟨(h.met p hp).1.imp_right fun hb => (visited _).2 (.inr hb), (h.met p hp).2⟩

/-- A path that waits may be expanded. -/
theorem take (h : Fresh task before s) {rest : List (Positions × Positions)}
    (waits : s.pending = (path, label) :: rest) :
    Fresh task (before ++ [path]) { s with pending := rest } := by
  have same : before ++ [path] ++ rest.map Prod.fst = before ++ s.pending.map Prod.fst := by
    rw [waits, List.map_cons, List.append_assoc, List.singleton_append]
  constructor
  · show (before ++ [path] ++ rest.map Prod.fst).Nodup
    rw [same]
    exact h.distinct
  · show ∀ p ∈ before ++ [path] ++ rest.map Prod.fst, _
    rw [same]
    exact h.met

/-- There are no more paths than sets of positions. -/
theorem length_le (h : Fresh task before s) : before.length ≤ 2 ^ task.axioms.size := by
  have distinct : (before.map Positions.bits).Nodup := by
    refine (List.nodup_append.1 h.distinct).1.map fun p q same => ?_
    cases p
    cases q
    exact congrArg Positions.mk same
  have within : before.map Positions.bits ⊆ List.range (2 ^ task.axioms.size) := by
    intro b hb
    obtain ⟨p, hp, rfl⟩ := List.mem_map.1 hb
    exact List.mem_range.2 (h.met p (List.mem_append_left _ hp)).2.bits_lt
  have length := distinct.length_le_of_subset within
  rwa [List.length_map, List.length_range] at length

/-- Different paths take different axioms away. -/
theorem removed_nodup (h : Fresh task before s) : (before.map task.removed).Nodup := by
  refine (List.nodup_append.1 h.distinct).1.map_on fun p hp q hq same => ?_
  rw [← Task.positions_removed (h.met p (List.mem_append_left _ hp)).2, same,
    Task.positions_removed (h.met q (List.mem_append_left _ hq)).2]

end Fresh

/-- Labelling a path lets it wait, or closes it. -/
theorem pending_of_label (h : s.label task path = .ok s') :
    s'.visited = s.visited ∧
      (s'.pending = s.pending ∨ ∃ label, s'.pending = (path, label) :: s.pending) := by
  unfold label at h
  split at h
  · cases h
    exact ⟨rfl, .inr ⟨_, rfl⟩⟩
  · obtain ⟨found, -, rest⟩ := bind_eq_ok_iff.1 h
    cases found with
    | some J =>
      cases rest
      exact ⟨rfl, .inr ⟨_, rfl⟩⟩
    | none =>
      cases rest
      exact ⟨rfl, .inl rfl⟩

/-- **Extending a path** lets only paths wait that are met for the first time. -/
theorem Fresh.extend (is : List Nat) : ∀ {s : Search}, Fresh task before s →
    extend task path s is = .ok s' → path.Below task.axioms.size →
    (∀ i ∈ is, i < task.axioms.size) → Fresh task before s' := by
  induction is with
  | nil =>
    intro s h extended _ _
    cases extended
    exact h
  | cons i is ih =>
    intro s h extended below bound
    have bound' : ∀ j ∈ is, j < task.axioms.size := fun j hj => bound j (List.mem_cons_of_mem _ hj)
    have below' := below.insert (bound i List.mem_cons_self)
    rw [Search.extend] at extended
    split at extended
    · cases extended
      exact h
    dsimp only at extended
    split at extended
    · exact ih h extended below bound'
    · next unmet =>
      -- a path with one position more is not the root, and it was not visited
      have new : ¬ s.Met (path.insert i) := by
        rintro (root | met)
        · have pos := Positions.bits_insert_pos i path
          rw [root] at pos
          exact absurd pos (Nat.lt_irrefl 0)
        · exact unmet (Std.TreeSet.contains_iff_mem.2 met)
      have visited (b : Nat) : b ∈ s.visited.insert (path.insert i).bits ↔
          b = (path.insert i).bits ∨ b ∈ s.visited := by
        rw [Std.TreeSet.mem_insert, Std.compare_eq_iff_eq, eq_comm]
      split at extended
      · have met : Fresh task before { s with visited := s.visited.insert (path.insert i).bits } :=
          h.meet (fun b hb => (visited b).2 (.inr hb)) rfl
        exact ih met extended below bound'
      · obtain ⟨s₁, labelled, rest⟩ := bind_eq_ok_iff.1 extended
        refine ih ?_ rest below bound'
        obtain ⟨same, waits | ⟨known, waits⟩⟩ := pending_of_label labelled
        · exact h.meet (fun b hb => same ▸ (visited b).2 (.inr hb)) waits
        · exact h.wait new below' (fun b => same ▸ visited b) waits

/-! ## Runs -/

/-- What a run keeps, with the paths that were expanded before. -/
structure Kept (task : Task) (before : List Positions) (s : Search) : Prop where
  invariant : Invariant task s fun _ => True
  fresh : Fresh task before s

/-- The search starts within its invariant. -/
theorem kept_start {root : Justification}
    (minimal : Justification.Minimal task.goal task.axioms root) :
    Kept task [] (start task root) :=
  ⟨(invariant_start minimal).settle fun _ none => none.elim, fresh_start root⟩

/-- **One expansion** keeps what a run keeps, and every closed path. -/
theorem Kept.expand (h : Kept task before s) {rest : List (Positions × Positions)}
    (waits : s.pending = (path, label) :: rest)
    (extended : extend task path { s with pending := rest } (label.below task.axioms.size)
      = .ok s₁) :
    Kept task (before ++ [path]) s₁ ∧ ∀ c ∈ s.closed, c ∈ s₁.closed := by
  have inv := h.invariant
  have below := (inv.pending path label (waits ▸ List.mem_cons_self)).2
  have taken : Invariant task { s with pending := rest } fun _ => True :=
    ⟨inv.found, inv.closed, fun q l hq => inv.pending q l (waits ▸ List.mem_cons_of_mem _ hq),
      inv.bounded, fun _ _ => .inl trivial⟩
  have bound : ∀ i ∈ label.below task.axioms.size, i < task.axioms.size :=
    fun i hi => (Positions.mem_below.1 hi).1
  obtain ⟨inv₁, grows, -⟩ := extend_spec _ extended taken below bound
  exact ⟨⟨inv₁, (h.fresh.take waits).extend _ extended below bound⟩, grows.closed⟩

/-- **A run** keeps it. -/
theorem Run.keeps (run : Run task s paths s') (h : Kept task before s) :
    Kept task (before ++ paths) s' := by
  induction run generalizing before with
  | done s => rwa [List.append_nil]
  | expand waits extended _ ih =>
    rw [← List.singleton_append, ← List.append_assoc]
    exact ih (h.expand waits extended).1

/-- **What waits contains no closed path**, because its label is left by the one and refutes the
goal, which is possible without the other. -/
theorem exists_spared (h : Kept task before s) (waits : (path, label) ∈ s.pending) {c : Positions}
    (closed : c ∈ s.closed) : ∃ a ∈ task.removed c, a ∉ task.removed path := by
  obtain ⟨⟨⟨J, hJ⟩, apart⟩, -⟩ := h.invariant.pending path label waits
  obtain ⟨minimal, rfl⟩ := h.invariant.found J label hJ
  have whole := (SortedSet.positions_disjoint_iff minimal.within).1 apart
  by_contra contained
  refine minimal.refutes ((h.invariant.closed c closed).mono fun a ha => ?_)
  by_contra out
  have taken : a ∈ task.removed c := SortedSet.mem_sdiff.2 ⟨minimal.within a ha, out⟩
  have taken' : a ∈ task.removed path := by
    by_contra spared
    exact contained ⟨a, taken, spared⟩
  exact (SortedSet.mem_sdiff.1 taken').2 (whole a ha)

/-- A run expands no path that contains one that is closed when it begins. -/
theorem Run.exists_spared (run : Run task s paths s') (h : Kept task before s) :
    ∀ p ∈ paths, ∀ c ∈ s.closed, ∃ a ∈ task.removed c, a ∉ task.removed p := by
  induction run generalizing before with
  | done s => exact fun p hp => absurd hp List.not_mem_nil
  | expand waits extended _ ih =>
    obtain ⟨later, closed⟩ := h.expand waits extended
    intro p hp c hc
    rcases List.mem_cons.1 hp with rfl | hp
    · exact Search.exists_spared h (waits ▸ List.mem_cons_self) hc
    · exact ih later p hp c (closed c hc)

/-! ## The law -/

/-- **What holds of a run of expansions**, in the state that it comes to. -/
structure Orderly (task : Task) (paths : List Positions) (s : Search) : Prop where
  /-- No axioms were taken away together more than once. -/
  once : (paths.map task.removed).Nodup
  few : paths.length ≤ 2 ^ task.axioms.size
  /-- What waits is labelled with a justification found, none of which its path takes away. -/
  labelled : ∀ path label, (path, label) ∈ s.pending → ∃ J, s.found.get? J = some label ∧
    label = task.axioms.positions J ∧ Justification.Minimal task.goal task.axioms J ∧
      ∀ a ∈ J, a ∉ task.removed path
  /-- However the run goes on, it expands no path that contains one that is closed by now. -/
  spared : ∀ later s', Run task s later s' → ∀ path ∈ later, ∀ c ∈ s.closed,
    ∃ a ∈ task.removed c, a ∉ task.removed path

/-- A search within its invariant is in order. -/
theorem Kept.orderly (h : Kept task paths s) : Orderly task paths s where
  once := h.fresh.removed_nodup
  few := h.fresh.length_le
  labelled path label waits := by
    obtain ⟨⟨⟨J, hJ⟩, apart⟩, -⟩ := h.invariant.pending path label waits
    obtain ⟨minimal, same⟩ := h.invariant.found J label hJ
    have whole := (SortedSet.positions_disjoint_iff minimal.within).1 (same ▸ apart)
    exact ⟨J, hJ, same, minimal, fun a ha taken => (SortedSet.mem_sdiff.1 taken).2 (whole a ha)⟩
  spared later s' run := run.exists_spared h

/-- **The search ends, and keeps order on the way.** Over valid axioms, whatever the goal and the
limit: it is refused before it begins, or there is nothing to find, or it is a run of expansions
from its root to a state in which enough is found or nothing waits. And every run from the root
expands no set of axioms twice, so at most `2 ^ n` of them, and none that contains a closed one. -/
theorem ends_orderly (task : Task) (valid : ∀ a ∈ task.axioms, a.Valid) :
    (∃ err, Justification.find? task.ontology task.goal task.axioms = .error err ∧
      run task = .error err) ∨
    (Justification.find? task.ontology task.goal task.axioms = .ok none ∧ run task = .ok ∅) ∨
    ∃ root, Justification.find? task.ontology task.goal task.axioms = .ok (some root) ∧
      (∃ paths s, Run task (start task root) paths s ∧ (s.full task = true ∨ s.pending = []) ∧
        run task = .ok s.found.keySet) ∧
      ∀ paths s, Run task (start task root) paths s → Orderly task paths s := by
  cases searched : Justification.find? task.ontology task.goal task.axioms with
  | error err =>
    refine .inl ⟨err, rfl, ?_⟩
    rw [run, searched]
    rfl
  | ok found =>
    cases found with
    | none =>
      refine .inr (.inl ⟨rfl, ?_⟩)
      rw [run, searched]
      rfl
    | some root =>
      refine .inr (.inr ⟨root, rfl, ?_, fun paths s run => ?_⟩)
      · obtain ⟨es, answer⟩ : ∃ es, run task = .ok es := by
          cases normal : task.goal.dnf with
          | ok cs => exact run_answers normal valid
          | error err => exact absurd searched (Justification.find?_refused normal _)
        obtain ⟨paths, s, run, ended, rfl, -⟩ := run_of_find? answer searched
        exact ⟨paths, s, run, ended.done.imp_right And.left, answer⟩
      · exact (run.keeps (kept_start (Justification.find?_some searched))).orderly

/-- One class below another, outright and by way of a third. -/
def doubled : Task where
  ontology := "doubled"
  goal := .ofAxiom (.subClassOf ⟨"A"⟩ ⟨"C"⟩)
  axioms := .ofList [.subClassOf ⟨"A"⟩ ⟨"B"⟩, .subClassOf ⟨"B"⟩ ⟨"C"⟩, .subClassOf ⟨"A"⟩ ⟨"C"⟩]
  limit := 0

/-- The search has a root there, and whatever it does from it is orderly. -/
theorem ends_orderly_doubled : (∀ a ∈ doubled.axioms, a.Valid) ∧
    ∃ root, ∀ paths s, Run doubled (start doubled root) paths s → Orderly doubled paths s := by
  have valid : ∀ a ∈ doubled.axioms, a.Valid := by decide +kernel
  have some : (Justification.find? doubled.ontology doubled.goal
      doubled.axioms).toOption.join.isSome = true := by decide +kernel
  refine ⟨valid, ?_⟩
  rcases ends_orderly doubled valid with ⟨err, refused, -⟩ | ⟨none, -⟩ | ⟨root, -, -, all⟩
  · rw [refused] at some
    cases some
  · rw [none] at some
    cases some
  · exact ⟨root, all⟩

end Search

end OntologyService
