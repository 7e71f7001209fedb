import OntologyService.Proofs.State.Captured

/-!
# What a refresh counts

A refresh counts as it goes: a counter for each way of a document, one more for what could not be
read, and at the end the names that are gone. The counters are moved in different places, and a
document that is refused counts the same whether or not its name had something to fall back on.

Each document moves one counter by one, and which one depends on the document and on the previous
generation, not on what was put together so far (`document_counts`). So the counters are numbers of
documents. The entries are known name by name, by what became of each document (`Merge.Follows`),
and counting documents and counting entries is the same because no name is listed twice.

**The law** (`accounted_after`): after any history, what a refresh reports balances against the
catalog and against the two generations (`Accounts`).
-/

namespace OntologyService

variable {previous next : Generation} {before : Registry} {c : Catalog} {d : Document}
  {name : String}

/-- How many of the listed names a refresh dealt with. -/
def RefreshSummary.handled (s : RefreshSummary) : Nat := s.reused + s.updated + s.added + s.failed

namespace Generation

/-- The names whose knowledge base was not in the registry before. -/
def renewed (g : Generation) (before : Registry) : List String :=
  (g.ontologies.toList.filter fun e => (before.get? e.2.base).isNone).map Prod.fst

/-- The names renewed are those whose base was not there before. -/
theorem mem_renewed : name ∈ next.renewed before ↔
    ∃ h, next.ontologies.get? name = some h ∧ before.get? h.base = none := by
  simp only [renewed, List.mem_map, List.mem_filter, Option.isNone_iff_eq_none, Prod.exists,
    Table.mem_toList, and_assoc]
  constructor
  · rintro ⟨_, h, entry, free, rfl⟩
    exact ⟨h, entry, free⟩
  · rintro ⟨h, entry, free⟩
    exact ⟨name, h, entry, free, rfl⟩

theorem renewed_nodup (g : Generation) (before : Registry) : (g.renewed before).Nodup := by
  have keys := g.ontologies.keys_nodup
  rw [Table.keys_eq_map] at keys
  exact (List.filter_sublist.map Prod.fst).nodup keys

theorem names_nodup (g : Generation) : g.names.Nodup := g.ontologies.keys_nodup

/-- The names of a generation are those it holds something under. -/
theorem mem_names : name ∈ previous.names ↔ ∃ h, previous.ontologies.get? name = some h :=
  Table.mem_keys.trans Option.isSome_iff_exists

end Generation

/-- Every entry of the generation has its knowledge base in the registry. -/
def Generation.Registered (g : Generation) (r : Registry) : Prop :=
  ∀ name h, g.ontologies.get? name = some h → ∃ kb, r.get? h.base = some kb

/-! ## Counting documents -/

namespace Merge

variable {policy : LimitPolicy} {m : Merge}

/-- The document gets a new knowledge base: its version is not the one that its name had, and there
is an engine for its axioms. -/
def Builds (previous : Generation) (d : Document) : Prop := Changed previous d ∧ d.Valid

/-- A document has changed if and only if its version is not the one held. -/
theorem changed_iff : Changed previous d ↔ previous.version? d.name ≠ some d.version := by
  simp only [Changed, Generation.version?, ne_eq, Option.map_eq_some_iff, not_exists, not_and]

instance : Decidable (Changed previous d) := decidable_of_iff _ changed_iff.symm

instance : Decidable (Builds previous d) := inferInstanceAs (Decidable (_ ∧ _))

/-- The document gives a name that is there a new knowledge base. -/
def Updates (previous : Generation) (d : Document) : Bool :=
  decide (Builds previous d ∧ d.name ∈ previous.names)

/-- The document gives a name that is not there a knowledge base. -/
def Adds (previous : Generation) (d : Document) : Bool :=
  decide (Builds previous d ∧ d.name ∉ previous.names)

theorem keep_summary (m : Merge) (previous : Generation) (name : String) :
    (m.keep previous name).summary = m.summary := by
  unfold keep
  split <;> rfl

/-- **A document moves one counter** by one, and which one does not depend on what came before. -/
theorem document_counts (policy : LimitPolicy) (previous : Generation) (m : Merge) (d : Document) :
    let s := (document policy previous m d).summary
    s.handled = m.summary.handled + 1 ∧
      s.updated = m.summary.updated + (if Updates previous d then 1 else 0) ∧
      s.added = m.summary.added + if Adds previous d then 1 else 0 := by
  by_cases changed : Changed previous d
  · cases made : KnowledgeBase.new d.name d.axioms policy with
    | ok kb =>
      have builds : Builds previous d := ⟨changed, (KnowledgeBase.Kept.of_new made).1⟩
      rw [document_of_built changed made]
      by_cases had : d.name ∈ previous.names
      · have there := Table.mem_keys.1 had
        simp only [there, if_true, RefreshSummary.handled, Updates, Adds, builds, had, true_and,
          not_true, decide_true, decide_false, Bool.false_eq_true, if_false, Nat.add_zero, and_true]
        omega
      · have absent := mt Table.mem_keys.2 had
        simp only [absent, if_false, RefreshSummary.handled, Updates, Adds, builds, had, true_and,
          not_false_eq_true, decide_true, decide_false, Bool.false_eq_true, if_true,
          Nat.add_zero, and_true]
        omega
    | error err =>
      -- a document with a defect builds nothing
      have refused : ¬ Builds previous d := by
        rintro ⟨-, valid⟩
        obtain ⟨kb, made', -⟩ := KnowledgeBase.Kept.new d.name policy valid
        cases made.symm.trans made'
      rw [document_of_refused changed made, keep_summary]
      simp only [RefreshSummary.handled, Updates, Adds, refused, false_and, decide_false,
        Bool.false_eq_true, if_false, Nat.add_zero, and_self, and_true]
      omega
  · have same : ¬ Builds previous d := fun builds => changed builds.1
    obtain ⟨old, had, version⟩ : ∃ old, previous.ontologies.get? d.name = some old ∧
        old.version = d.version := by
      simpa only [Changed, not_forall, not_not, exists_prop] using changed
    rw [document_of_reused had version]
    simp only [RefreshSummary.handled, Updates, Adds, same, false_and, decide_false,
      Bool.false_eq_true, if_false, Nat.add_zero, and_self, and_true]
    omega

/-- **The counters are numbers of documents.** -/
theorem documents_count (policy : LimitPolicy) (previous : Generation) (ds : List Document) :
    ∀ m : Merge, let s := (ds.foldl (document policy previous) m).summary
      s.handled = m.summary.handled + ds.length ∧
        s.updated = m.summary.updated + ds.countP (Updates previous) ∧
        s.added = m.summary.added + ds.countP (Adds previous) := by
  induction ds with
  | nil => exact fun m => ⟨rfl, rfl, rfl⟩
  | cons d ds ih =>
    intro m
    obtain ⟨handled, updated, added⟩ := document_counts policy previous m d
    obtain ⟨handled', updated', added'⟩ := ih (document policy previous m d)
    simp only [List.foldl_cons, handled', handled, updated', updated, added', added,
      List.length_cons, List.countP_cons]
    omega

/-- What could not be read has failed, each once. -/
theorem rejections_count (previous : Generation) (rs : List Rejection) :
    ∀ m : Merge, let s := (rs.foldl (rejection previous) m).summary
      s.handled = m.summary.handled + rs.length ∧ s.updated = m.summary.updated ∧
        s.added = m.summary.added := by
  induction rs with
  | nil => exact fun m => ⟨rfl, rfl, rfl⟩
  | cons r rs ih =>
    intro m
    have counted : (rejection previous m r).summary =
        { m.summary with failed := m.summary.failed + 1 } := keep_summary _ previous r.name
    have one : (rejection previous m r).summary.handled = m.summary.handled + 1 := by
      rw [counted]
      rfl
    obtain ⟨handled, updated, added⟩ := ih (rejection previous m r)
    rw [counted] at updated added
    simp only [List.foldl_cons, handled, one, updated, added, List.length_cons, and_true]
    omega

/-! ## Counting entries -/

section

variable (h : Follows policy previous before c m)
include h

/-- An entry that a name did not have before is that of a document that builds. -/
theorem Follows.exists_builds {e : Holding} (entry : m.ontologies.get? name = some e)
    (other : m.ontologies.get? name ≠ previous.ontologies.get? name) :
    ∃ d ∈ c.documents, d.name = name ∧ Builds previous d := by
  by_cases listed : name ∈ c.listed
  · rcases List.mem_append.1 listed with documented | rejected
    · obtain ⟨d, hd, rfl⟩ := List.mem_map.1 documented
      refine ⟨d, hd, rfl, ?_⟩
      cases h.documents d hd with
      | reused had _ same => exact absurd (same.trans had.symm) other
      | built changed made _ _ _ => exact ⟨changed, (KnowledgeBase.Kept.of_new made).1⟩
      | kept _ _ same => exact absurd same other
    · obtain ⟨x, hx, rfl⟩ := List.mem_map.1 rejected
      exact absurd (h.rejected x hx) other
  · rw [h.unlisted name listed] at entry
    cases entry

/-- A document that builds gives its name a knowledge base that was not there before. -/
theorem Follows.fresh_of_builds (hd : d ∈ c.documents) (builds : Builds previous d) :
    ∃ e, m.ontologies.get? d.name = some e ∧ before.get? e.base = none := by
  cases h.documents d hd with
  | reused had version _ => exact absurd version (builds.1 _ had)
  | built _ _ fresh _ entry => exact ⟨_, entry, fresh⟩
  | kept _ invalid _ => exact absurd builds.2 invalid

/-- A name that was there stays as long as it is listed. -/
theorem Follows.entry_of_listed (listed : name ∈ c.listed) {old : Holding}
    (had : previous.ontologies.get? name = some old) :
    ∃ e, m.ontologies.get? name = some e := by
  rcases List.mem_append.1 listed with documented | rejected
  · obtain ⟨d, hd, rfl⟩ := List.mem_map.1 documented
    cases h.documents d hd with
    | reused _ _ entry => exact ⟨_, entry⟩
    | built _ _ _ _ entry => exact ⟨_, entry⟩
    | kept _ _ same => exact ⟨old, same.trans had⟩
  · obtain ⟨x, hx, rfl⟩ := List.mem_map.1 rejected
    exact ⟨old, (h.rejected x hx).trans had⟩

/-- **The knowledge bases that are new** are those of the documents that build. -/
theorem Follows.renewed_iff (registered : previous.Registered before) :
    (∃ e, m.ontologies.get? name = some e ∧ before.get? e.base = none) ↔
      ∃ d ∈ c.documents, d.name = name ∧ Builds previous d := by
  constructor
  · rintro ⟨e, entry, free⟩
    refine h.exists_builds entry fun same => ?_
    -- what the name had before has its knowledge base in the registry
    obtain ⟨kb, held⟩ := registered name e (same ▸ entry)
    rw [free] at held
    cases held
  · rintro ⟨d, hd, rfl, builds⟩
    exact h.fresh_of_builds hd builds

/-- **The names of the next generation** are the listed ones that were there, and those that a
document adds. -/
theorem Follows.entry_iff : (∃ e, m.ontologies.get? name = some e) ↔
    (name ∈ previous.names ∧ name ∈ c.listed) ∨
      ∃ d ∈ c.documents, d.name = name ∧ Adds previous d = true := by
  simp only [Adds, decide_eq_true_eq]
  constructor
  · rintro ⟨e, entry⟩
    by_cases had : name ∈ previous.names
    · refine .inl ⟨had, ?_⟩
      by_contra unlisted
      rw [h.unlisted name unlisted] at entry
      cases entry
    · have absent := mt Generation.mem_names.2 had
      obtain ⟨d, hd, rfl, builds⟩ := h.exists_builds entry fun same => absent ⟨e, same ▸ entry⟩
      exact .inr ⟨d, hd, rfl, builds, had⟩
  · rintro (⟨had, listed⟩ | ⟨d, hd, rfl, builds, -⟩)
    · obtain ⟨old, had⟩ := Generation.mem_names.1 had
      exact h.entry_of_listed listed had
    · obtain ⟨e, entry, -⟩ := h.fresh_of_builds hd builds
      exact ⟨e, entry⟩

end

/-- The counters of the whole. -/
theorem ofCatalog_counts (policy : LimitPolicy) (previous : Generation) (before : Registry)
    (c : Catalog) : let m := ofCatalog policy previous before c
    m.summary.handled = c.documents.length + c.rejected.length ∧
      m.summary.updated = c.documents.countP (Updates previous) ∧
      m.summary.added = c.documents.countP (Adds previous) ∧
      m.summary.dropped =
        (previous.names.filter fun name => !m.ontologies.contains name).length := by
  intro m
  obtain ⟨handled, updated, added⟩ :=
    documents_count policy previous c.documents { registry := before }
  obtain ⟨handled', updated', added'⟩ := rejections_count previous c.rejected
    (c.documents.foldl (document policy previous) { registry := before })
  refine ⟨handled'.trans ?_, updated'.trans ?_, added'.trans ?_, rfl⟩
  · rw [handled]
    exact congrArg (· + _) (Nat.zero_add _)
  · rw [updated]
    exact Nat.zero_add _
  · rw [added]
    exact Nat.zero_add _

/-- Names that are those of some documents, each listed once, are as many as the documents. -/
theorem length_eq_countP (once : c.listed.Nodup) {names : List String} {p : Document → Bool}
    (distinct : names.Nodup)
    (same : ∀ name, name ∈ names ↔ ∃ d ∈ c.documents, d.name = name ∧ p d = true) :
    names.length = c.documents.countP p := by
  have once' : ((c.documents.filter p).map Document.name).Nodup :=
    (List.filter_sublist.map Document.name).nodup (List.nodup_append.1 once).1
  have perm : names.Perm ((c.documents.filter p).map Document.name) := by
    refine (List.perm_ext_iff_of_nodup distinct once').2 fun name => (same name).trans ?_
    simp only [List.mem_map, List.mem_filter]
    grind
  rw [perm.length_eq, List.length_map, List.countP_eq_length_filter]

section

variable (follows : Follows policy previous before c m)
include follows

/-- What is not listed is dropped, and nothing else. -/
theorem Follows.dropped_eq :
    (previous.names.filter fun name => !m.ontologies.contains name) =
      previous.names.filter fun name => decide (name ∉ c.listed) := by
  refine List.filter_congr fun name had => ?_
  obtain ⟨old, had⟩ := Generation.mem_names.1 had
  by_cases listed : name ∈ c.listed
  · obtain ⟨e, entry⟩ := follows.entry_of_listed listed had
    simp [Table.contains, entry, listed]
  · simp [Table.contains, follows.unlisted name listed, listed]

/-- **The size** of the next generation: the names that stay, and those that documents add. -/
theorem Follows.size_eq (once : c.listed.Nodup) (put : next.ontologies = m.ontologies) :
    next.size = (previous.names.filter fun name => decide (name ∈ c.listed)).length +
      c.documents.countP (Adds previous) := by
  have distinct := next.names_nodup
  have mem : ∀ name, name ∈ next.names ↔ (name ∈ previous.names ∧ name ∈ c.listed) ∨
      ∃ d ∈ c.documents, d.name = name ∧ Adds previous d = true := fun name => by
    rw [Generation.mem_names, put, follows.entry_iff]
  have adds : ∀ d, Adds previous d = true → d.name ∉ previous.names := fun d adds =>
    (of_decide_eq_true adds).2
  have stay : (next.names.filter fun name => decide (name ∈ previous.names)).Perm
      (previous.names.filter fun name => decide (name ∈ c.listed)) := by
    refine (List.perm_ext_iff_of_nodup (distinct.filter _)
      (previous.names_nodup.filter _)).2 fun name => ?_
    simp only [List.mem_filter, mem, decide_eq_true_eq]
    grind
  have come : (next.names.filter fun name => !decide (name ∈ previous.names)).length =
      c.documents.countP (Adds previous) := by
    refine length_eq_countP once (distinct.filter _) fun name => ?_
    simp only [List.mem_filter, mem, Bool.not_eq_true', decide_eq_false_iff_not]
    grind
  calc next.size
    _ = next.names.length := (Table.length_keys next.ontologies).symm
    _ = _ := List.length_eq_length_filter_add fun name => decide (name ∈ previous.names)
    _ = _ := by rw [stay.length_eq, come]

end

end Merge

/-! ## The law -/

/-- **A summary accounts for a refresh** from the generation `g` to `g'` by a catalog, over the
registry that `g` was current with. Every listed name was dealt with once; a name is dropped if it
was there and is not listed; so many entries came and went as the sizes tell; and what is counted as
updated and added are the names with a new knowledge base, of those that were there and of
others. -/
structure Accounts (c : Catalog) (before : Registry) (g g' : Generation) (s : RefreshSummary) :
    Prop where
  listed : s.reused + s.updated + s.added + s.failed = c.documents.length + c.rejected.length
  dropped : s.dropped = (g.names.filter fun name => decide (name ∉ c.listed)).length
  size : g'.size + s.dropped = g.size + s.added
  updated : s.updated =
    ((g'.renewed before).filter fun name => decide (name ∈ g.names)).length
  added : s.added = ((g'.renewed before).filter fun name => decide (name ∉ g.names)).length

/-- **What is put together from a catalog is accounted for**, whatever number the summary gives to
the generation. -/
theorem Merge.accounts_ofCatalog {policy : LimitPolicy} (registered : previous.Registered before)
    (once : c.listed.Nodup)
    (put : next.ontologies = (Merge.ofCatalog policy previous before c).ontologies)
    (number : Nat) :
    Accounts c before previous next
      { (Merge.ofCatalog policy previous before c).summary with generation := number } := by
  have follows :
      Merge.Follows policy previous before c (Merge.ofCatalog policy previous before c) :=
    Merge.follows_ofCatalog once
  obtain ⟨handled, updated, added, dropped⟩ := Merge.ofCatalog_counts policy previous before c
  rw [follows.dropped_eq] at dropped
  have renewed : ∀ name, name ∈ next.renewed before ↔
      ∃ d ∈ c.documents, d.name = name ∧ Merge.Builds previous d := fun name => by
    rw [Generation.mem_renewed, put, follows.renewed_iff registered]
  have distinct := next.renewed_nodup before
  constructor
  · exact handled
  · exact dropped
  · have names := List.length_eq_length_filter_add (l := previous.names)
      fun name => decide (name ∈ c.listed)
    have size : previous.names.length = previous.size := Table.length_keys previous.ontologies
    have size' := follows.size_eq once put
    simp only [decide_not] at dropped
    dsimp only
    omega
  · refine updated.trans (Merge.length_eq_countP once (distinct.filter _) fun name => ?_).symm
    simp only [List.mem_filter, renewed, Merge.Updates, decide_eq_true_eq]
    grind
  · refine added.trans (Merge.length_eq_countP once (distinct.filter _) fun name => ?_).symm
    simp only [List.mem_filter, renewed, Merge.Adds, decide_eq_true_eq]
    grind

/-- **A refresh accounts for itself**, whatever it starts from: all it needs is that no entry of the
current generation refers to a knowledge base that is not there. -/
theorem Holder.refresh_accounts {holder holder' : Holder} {registry registry' : Registry}
    {now : Nat} {s : RefreshSummary} (current : holder.current = some previous)
    (registered : previous.Registered registry) (once : c.listed.Nodup)
    (ended : holder.refresh registry now (.ok c) = (.ok (.refreshed s), holder', registry')) :
    ∃ next, holder'.current = some next ∧ Accounts c registry previous next s := by
  unfold Holder.refresh Holder.install at ended
  rw [current] at ended
  dsimp only at ended
  split at ended
  · cases ended
  · cases ended
    exact ⟨_, rfl, Merge.accounts_ofCatalog registered once rfl _⟩

namespace Service

variable {start : Registry} {catalog : Catalog} {first : Service}

/-- **Refreshes account for themselves.** After any history since the load there is a current
generation, and a refresh by a catalog that lists no name twice, be it among the documents or among
those that could not be read, reports that it refreshed. Its summary accounts for the step from that
generation to the one that is current then. -/
theorem accounted_after (loads : Loads start catalog first) (events : List Event) (now : Nat)
    (once : c.listed.Nodup) :
    let s := first.after events
    ∃ previous next summary, s.holder.current = some previous ∧
      (s.holder.refresh s.registry now (.ok c)).1 = .ok (.refreshed summary) ∧
      (s.step (.refresh now (.ok c))).holder.current = some next ∧
      Accounts c s.registry previous next summary := by
  intro s
  obtain ⟨live, g, current, stock⟩ := Stocked.after events (stocked_load loads)
  have registered : g.Registered s.registry := fun name h entry => by
    obtain ⟨kb, held, -⟩ := stock name h entry
    exact ⟨kb, held⟩
  have ended := refresh_merged current live now c
  obtain ⟨next, current', accounts⟩ := Holder.refresh_accounts current registered once ended
  refine ⟨g, next, _, current, congrArg Prod.fst ended, ?_, accounts⟩
  rw [step_merged current live]
  exact current'

/-- The zoo renewed and an aquarium beside it; a ruin that no engine can hold, and a cave that could
not be read. The farm is gone. -/
def renewal : Catalog where
  documents :=
    [ { zoo with version := "v2" },
      { name := "aquarium", version := "v1", axioms := .ofList [.subClassOf ⟨"Cod"⟩ ⟨"Fish"⟩] },
      { name := "ruin", version := "v1", axioms := .ofList [.subClassOf ⟨""⟩ ⟨"Animal"⟩] } ]
  rejected := [{ name := "cave", error := .parse "cave.json" "" }]

/-- Of the menagerie the zoo is updated and the farm dropped, the aquarium is added, and the ruin
and the cave have failed. -/
theorem menagerie_accounted :
    ∃ first previous next summary, Loads {} menagerie first ∧ renewal.listed.Nodup ∧
      (first.holder.refresh first.registry 1 (.ok renewal)).1 = .ok (.refreshed summary) ∧
      Accounts renewal first.registry previous next summary ∧
      summary = { generation := 2, updated := 1, added := 1, dropped := 1, failed := 2 } ∧
      previous.size = 2 ∧ next.size = 2 := by
  have computed : (Holder.load {} .forward 0 (.ok menagerie)).toOption.any (fun l =>
      decide (l.1.current.map Generation.size = some 2) &&
        decide ((l.1.refresh l.2 1 (.ok renewal)).1.toOption = some (.refreshed
          { generation := 2, updated := 1, added := 1, dropped := 1, failed := 2 }))) = true := by
    decide +kernel
  cases loaded : Holder.load {} .forward 0 (.ok menagerie) with
  | error err =>
    rw [loaded] at computed
    cases computed
  | ok l =>
    have loads : Loads {} menagerie ⟨l.1, l.2⟩ := ⟨.forward, 0, loaded⟩
    have once : renewal.listed.Nodup := by decide +kernel
    obtain ⟨previous, next, summary, current, ended, -, accounts⟩ :=
      accounted_after loads [] 1 once
    have current' : l.1.current = some previous := current
    have ended' : (l.1.refresh l.2 1 (.ok renewal)).1 = .ok (.refreshed summary) := ended
    rw [loaded] at computed
    simp only [Except.toOption, Option.any_some, current', ended', Option.map_some,
      Bool.and_eq_true, decide_eq_true_eq, Option.some.injEq, RefreshOutcome.refreshed.injEq]
      at computed
    obtain ⟨size, rfl⟩ := computed
    have balance := accounts.size
    simp only [size] at balance
    exact ⟨_, previous, next, _, loads, once, ended, accounts, rfl, size, by omega⟩

end Service

end OntologyService
