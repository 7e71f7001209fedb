import OntologyService.Proofs.KnowledgeBase.History
import OntologyService.Proofs.Order.Listing
import OntologyService.State.Holder

/-!
# Putting a generation together

What becomes of each name when a catalog is carried into the next generation. Documents are taken
one by one, each into the table and the registry that the ones before it left, so the law is one of
a single document (`document_carries`), and lasts because what comes later names something else
(`Carries.mono`) and adds to the registry only (`Registry.Within`).

**The law** (`follows_ofCatalog`): of a catalog that lists no name twice, every document is carried
in one of three ways (`Carries`), a name that could not be read has what it had, and a name that is
not listed has nothing.
-/

namespace OntologyService

namespace Registry

variable {r r' r'' : Registry} {id : BaseId} {kb : KnowledgeBase}

/-- What the one registry holds, the other holds too, in the same state. -/
def Within (r r' : Registry) : Prop := ∀ id kb, r.get? id = some kb → r'.get? id = some kb

theorem Within.refl (r : Registry) : r.Within r := fun _ _ h => h

theorem Within.trans (h : r.Within r') (h' : r'.Within r'') : r.Within r'' :=
  fun id kb held => h' id kb (h id kb held)

/-- A number that is free was always free. -/
theorem Within.get?_eq_none (h : r.Within r') (free : r'.get? id = none) : r.get? id = none := by
  cases held : r.get? id with
  | none => rfl
  | some kb =>
    rw [h id kb held] at free
    cases free

theorem get?_add_self (r : Registry) (kb : KnowledgeBase) :
    (r.add kb).2.get? (r.add kb).1 = some kb := by
  simp only [add, get?, Array.getElem?_push_size]

theorem get?_add_fresh (r : Registry) (kb : KnowledgeBase) : r.get? (r.add kb).1 = none :=
  Array.getElem?_eq_none (Nat.le_refl _)

/-- Adding takes nothing away. -/
theorem within_add (r : Registry) (kb : KnowledgeBase) : r.Within (r.add kb).2 := by
  intro id kb' held
  obtain ⟨bound, -⟩ := Array.getElem?_eq_some_iff.1 held
  rw [← held]
  simp only [add, get?, Array.getElem?_push, Nat.ne_of_lt bound, if_false]

end Registry

/-- The engine can hold the axioms of the document. -/
def Document.Valid (d : Document) : Prop := ∀ a ∈ d.axioms, a.Valid

instance (d : Document) : Decidable d.Valid :=
  inferInstanceAs (Decidable (∀ a ∈ d.axioms.toList, _))

/-- Every name that a catalog lists, readable or not. -/
def Catalog.listed (c : Catalog) : List String :=
  c.documents.map Document.name ++ c.rejected.map Rejection.name

namespace Merge

variable {policy : LimitPolicy} {previous : Generation} {before : Registry} {m m' : Merge}
  {d : Document} {name : String}

/-! ## One document -/

/-- The version of the document is not the one that its name had. -/
def Changed (previous : Generation) (d : Document) : Prop :=
  ∀ old, previous.ontologies.get? d.name = some old → old.version ≠ d.version

/-- **The ways of a document** into the next generation. Its name has the entry that it had, if
that is of the same version; or else an entry of this version, with a new knowledge base over its
axioms; or else, if there can be no such knowledge base, whatever it had. -/
inductive Carries (policy : LimitPolicy) (previous : Generation) (before : Registry) (m : Merge)
    (d : Document) : Prop
  | reused {old : Holding} : previous.ontologies.get? d.name = some old →
    old.version = d.version → m.ontologies.get? d.name = some old →
      Carries policy previous before m d
  | built {kb : KnowledgeBase} {base : BaseId} : Changed previous d →
    KnowledgeBase.new d.name d.axioms policy = .ok kb → before.get? base = none →
      m.registry.get? base = some kb →
        m.ontologies.get? d.name = some { version := d.version, base } →
          Carries policy previous before m d
  | kept : Changed previous d → ¬ d.Valid →
    m.ontologies.get? d.name = previous.ontologies.get? d.name → Carries policy previous before m d

/-- What has become of a document stays so, as the registry grows and other names are dealt with. -/
theorem Carries.mono (h : Carries policy previous m.registry m' d) {m'' : Merge}
    (earlier : before.Within m.registry) (within : m'.registry.Within m''.registry)
    (same : m''.ontologies.get? d.name = m'.ontologies.get? d.name) :
    Carries policy previous before m'' d := by
  cases h with
  | reused had version entry => exact .reused had version (same.trans entry)
  | built other made fresh held entry =>
    exact .built other made (earlier.get?_eq_none fresh) (within _ _ held) (same.trans entry)
  | kept other invalid entry => exact .kept other invalid (same.trans entry)

/-- Giving a name what it had adds no knowledge base. -/
theorem keep_registry (m : Merge) (previous : Generation) (name : String) :
    (m.keep previous name).registry = m.registry := by
  unfold keep
  split <;> rfl

/-- A name that has nothing yet gets what it had before. -/
theorem get?_keep_self (absent : m.ontologies.get? name = none) :
    (m.keep previous name).ontologies.get? name = previous.ontologies.get? name := by
  unfold keep
  split
  · rename_i old had
    rw [had]
    exact Table.get?_insert_self ..
  · rename_i had
    rw [had, absent]

/-- The other names keep what the merge gave them. -/
theorem get?_keep_of_ne {other : String} (ne : other ≠ name) :
    (m.keep previous name).ontologies.get? other = m.ontologies.get? other := by
  unfold keep
  split
  · exact Table.get?_insert_of_ne ne ..
  · rfl

/-- A document at the version held keeps what its name had. -/
theorem document_of_reused {old : Holding} (had : previous.ontologies.get? d.name = some old)
    (version : old.version = d.version) :
    document policy previous m d =
      { m with
        ontologies := m.ontologies.insert d.name old
        summary := { m.summary with reused := m.summary.reused + 1 } } := by
  unfold document
  rw [had]
  dsimp only
  rw [if_pos version]

/-- A changed document whose axioms are valid has a new knowledge base. -/
theorem document_of_built {kb : KnowledgeBase} (changed : Changed previous d)
    (made : KnowledgeBase.new d.name d.axioms policy = .ok kb) :
    document policy previous m d =
      { ontologies := m.ontologies.insert d.name
          { version := d.version, base := (m.registry.add kb).1 }
        summary := if (previous.ontologies.get? d.name).isSome
          then { m.summary with updated := m.summary.updated + 1 }
          else { m.summary with added := m.summary.added + 1 }
        registry := (m.registry.add kb).2 } := by
  unfold document
  rw [made]
  cases had : previous.ontologies.get? d.name with
  | none => rfl
  | some old =>
    dsimp only
    rw [if_neg (changed old had)]
    rfl

/-- A changed document that is refused is counted as failed, and its name keeps what it had. -/
theorem document_of_refused {err : ReasoningError} (changed : Changed previous d)
    (refused : KnowledgeBase.new d.name d.axioms policy = .error err) :
    document policy previous m d =
      { m with summary := { m.summary with failed := m.summary.failed + 1 } }.keep previous
        d.name := by
  unfold document
  rw [refused]
  cases had : previous.ontologies.get? d.name with
  | none => rfl
  | some old =>
    dsimp only
    rw [if_neg (changed old had)]

/-- **A document is carried** in one of the three ways, and nothing else is touched. -/
theorem document_carries (policy : LimitPolicy) (previous : Generation)
    (absent : m.ontologies.get? d.name = none) :
    m.registry.Within (document policy previous m d).registry ∧
      (∀ other, other ≠ d.name →
        (document policy previous m d).ontologies.get? other = m.ontologies.get? other) ∧
      Carries policy previous m.registry (document policy previous m d) d := by
  by_cases reused : ∃ old, previous.ontologies.get? d.name = some old ∧ old.version = d.version
  · obtain ⟨old, had, version⟩ := reused
    rw [document_of_reused had version]
    exact ⟨.refl _, fun other ne => Table.get?_insert_of_ne ne ..,
      .reused had version (Table.get?_insert_self ..)⟩
  · have changed : Changed previous d := fun old had version => reused ⟨old, had, version⟩
    cases made : KnowledgeBase.new d.name d.axioms policy with
    | ok kb =>
      rw [document_of_built changed made]
      exact ⟨Registry.within_add _ kb, fun other ne => Table.get?_insert_of_ne ne ..,
        .built changed made (Registry.get?_add_fresh _ kb) (Registry.get?_add_self _ kb)
          (Table.get?_insert_self ..)⟩
    | error err =>
      rw [document_of_refused changed made]
      refine ⟨?_, fun other ne => get?_keep_of_ne ne, .kept changed ?_ (get?_keep_self absent)⟩
      · rw [keep_registry]
        exact .refl _
      · intro valid
        obtain ⟨kb, made', -⟩ := KnowledgeBase.Kept.new d.name policy valid
        cases made.symm.trans made'

/-! ## The whole catalog -/

/-- Documents of different names, into a table that has none of them. -/
theorem documents_carry (policy : LimitPolicy) (previous : Generation) (ds : List Document) :
    ∀ {m : Merge}, (ds.map Document.name).Nodup →
      (∀ d ∈ ds, m.ontologies.get? d.name = none) →
      m.registry.Within (ds.foldl (document policy previous) m).registry ∧
      (∀ name, name ∉ ds.map Document.name →
        (ds.foldl (document policy previous) m).ontologies.get? name = m.ontologies.get? name) ∧
      ∀ d ∈ ds, Carries policy previous m.registry (ds.foldl (document policy previous) m) d := by
  induction ds with
  | nil =>
    intro m _ _
    exact ⟨.refl _, fun _ _ => rfl, fun d hd => absurd hd List.not_mem_nil⟩
  | cons d ds ih =>
    intro m distinct absent
    rw [List.map_cons, List.nodup_cons] at distinct
    rw [List.forall_mem_cons] at absent
    obtain ⟨within, others, carries⟩ := document_carries policy previous absent.1
    -- the names that are left are other names, and so are still absent
    have absent' : ∀ d' ∈ ds, (document policy previous m d).ontologies.get? d'.name = none := by
      intro d' hd'
      have ne : d'.name ≠ d.name := fun e => distinct.1 (e ▸ List.mem_map_of_mem hd')
      exact (others _ ne).trans (absent.2 d' hd')
    obtain ⟨within', others', carries'⟩ := ih distinct.2 absent'
    refine ⟨within.trans within', fun name unlisted => ?_, List.forall_mem_cons.2 ⟨?_, ?_⟩⟩
    · rw [List.map_cons, List.mem_cons, not_or] at unlisted
      exact (others' name unlisted.2).trans (others name unlisted.1)
    · exact carries.mono (.refl _) within' (others' _ distinct.1)
    · intro d' hd'
      exact (carries' d' hd').mono within (.refl _) rfl

/-- Names that could not be read, into a table that has none of them. -/
theorem rejections_keep (previous : Generation) (rs : List Rejection) :
    ∀ {m : Merge}, (rs.map Rejection.name).Nodup →
      (∀ r ∈ rs, m.ontologies.get? r.name = none) →
      (rs.foldl (rejection previous) m).registry = m.registry ∧
      (∀ name, name ∉ rs.map Rejection.name →
        (rs.foldl (rejection previous) m).ontologies.get? name = m.ontologies.get? name) ∧
      ∀ r ∈ rs, (rs.foldl (rejection previous) m).ontologies.get? r.name =
        previous.ontologies.get? r.name := by
  induction rs with
  | nil =>
    intro m _ _
    exact ⟨rfl, fun _ _ => rfl, fun r hr => absurd hr List.not_mem_nil⟩
  | cons r rs ih =>
    intro m distinct absent
    rw [List.map_cons, List.nodup_cons] at distinct
    rw [List.forall_mem_cons] at absent
    have absent' : ∀ r' ∈ rs, (rejection previous m r).ontologies.get? r'.name = none := by
      intro r' hr'
      have ne : r'.name ≠ r.name := fun e => distinct.1 (e ▸ List.mem_map_of_mem hr')
      exact (get?_keep_of_ne ne).trans (absent.2 r' hr')
    obtain ⟨registry, others, kept⟩ := ih distinct.2 absent'
    refine ⟨registry.trans (keep_registry ..), fun name unlisted => ?_,
      List.forall_mem_cons.2 ⟨?_, kept⟩⟩
    · rw [List.map_cons, List.mem_cons, not_or] at unlisted
      exact (others name unlisted.2).trans (get?_keep_of_ne unlisted.1)
    · exact (others _ distinct.1).trans (get?_keep_self absent.1)

/-- **A merge follows its catalog**: knowledge bases are added and none is changed, documents are
carried, unreadable names have what they had, and unlisted ones have nothing. -/
structure Follows (policy : LimitPolicy) (previous : Generation) (before : Registry) (c : Catalog)
    (m : Merge) : Prop where
  within : before.Within m.registry
  documents : ∀ d ∈ c.documents, Carries policy previous before m d
  rejected : ∀ r ∈ c.rejected, m.ontologies.get? r.name = previous.ontologies.get? r.name
  unlisted : ∀ name, name ∉ c.listed → m.ontologies.get? name = none

/-- **What is put together follows the catalog**, if the catalog lists no name twice. -/
theorem follows_ofCatalog {c : Catalog} (once : c.listed.Nodup) :
    Follows policy previous before c (ofCatalog policy previous before c) := by
  obtain ⟨distinct, distinct', apart⟩ := List.nodup_append.1 once
  obtain ⟨within, others, carries⟩ := documents_carry policy previous c.documents
    (m := { registry := before }) distinct fun d _ => Table.get?_empty d.name
  have absent : ∀ r ∈ c.rejected, (c.documents.foldl (document policy previous)
      { registry := before }).ontologies.get? r.name = none := by
    intro r hr
    rw [others _ fun listed => apart _ listed _ (List.mem_map_of_mem hr) rfl]
    exact Table.get?_empty r.name
  obtain ⟨registry, others', kept⟩ := rejections_keep previous c.rejected distinct' absent
  constructor
  · show before.Within (c.rejected.foldl (rejection previous) _).registry
    rw [registry]
    exact within
  · intro d hd
    refine (carries d hd).mono (.refl _) ?_ ?_
    · show Registry.Within _ (c.rejected.foldl (rejection previous) _).registry
      rw [registry]
      exact .refl _
    · exact others' _ fun listed => apart _ (List.mem_map_of_mem hd) _ listed rfl
  · exact kept
  · intro name unlisted
    obtain ⟨undocumented, unrejected⟩ := not_or.1 fun h => unlisted (List.mem_append.2 h)
    exact (others' name unrejected).trans ((others name undocumented).trans (Table.get?_empty name))

end Merge

/-! ## The first generation -/

namespace Holder

/-- Each entry that was built is one of a document, with a knowledge base that was not there
before. -/
theorem buildAll_spec {policy : LimitPolicy} {result : Table String Holding} {after : Registry}
    (ds : List Document) : ∀ {entries : Table String Holding} {before : Registry},
      buildAll policy entries before ds = .ok (result, after) →
      before.Within after ∧ ∀ name h, result.get? name = some h →
        entries.get? name = some h ∨ ∃ d ∈ ds, d.name = name ∧ d.version = h.version ∧
          before.get? h.base = none ∧ ∃ kb, KnowledgeBase.new d.name d.axioms policy = .ok kb ∧
            after.get? h.base = some kb := by
  induction ds with
  | nil =>
    intro entries before built
    cases built
    exact ⟨.refl _, fun name h entry => .inl entry⟩
  | cons d ds ih =>
    intro entries before built
    unfold buildAll at built
    cases made : KnowledgeBase.new d.name d.axioms policy with
    | error err =>
      rw [made] at built
      cases built
    | ok kb =>
      rw [made] at built
      obtain ⟨within, later⟩ := ih built
      have grown := Registry.within_add before kb
      refine ⟨grown.trans within, fun name h entry => ?_⟩
      rcases later name h entry with earlier | ⟨d', hd', same, version, free, held⟩
      · -- what was there before the later documents is this one's entry or an older one
        by_cases e : name = d.name
        · subst e
          rw [Table.get?_insert_self] at earlier
          cases earlier
          exact .inr ⟨d, List.mem_cons_self .., rfl, rfl, Registry.get?_add_fresh before kb, kb,
            made, within _ _ (Registry.get?_add_self before kb)⟩
        · rw [Table.get?_insert_of_ne e] at earlier
          exact .inl earlier
      · exact .inr ⟨d', List.mem_cons_of_mem _ hd', same, version, grown.get?_eq_none free, held⟩

/-- Valid documents all get a knowledge base. -/
theorem buildAll_of_valid (policy : LimitPolicy) (ds : List Document) (valid : ∀ d ∈ ds, d.Valid) :
    ∀ entries before, ∃ result, buildAll policy entries before ds = .ok result := by
  induction ds with
  | nil =>
    intro entries before
    exact ⟨_, rfl⟩
  | cons d ds ih =>
    intro entries before
    rw [List.forall_mem_cons] at valid
    obtain ⟨kb, made, -⟩ := KnowledgeBase.Kept.new d.name policy valid.1
    unfold buildAll
    rw [made]
    exact ih valid.2 _ _

end Holder

end OntologyService
