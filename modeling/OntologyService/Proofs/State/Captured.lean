import OntologyService.Proofs.KnowledgeBase.Reads
import OntologyService.Proofs.State.History

/-!
# Captured generations

Somebody who captured a generation goes on looking at its knowledge bases while later ones take its
place. Knowledge bases are shared between generations, so what keeps the captured one as it was is
that a refresh only ever adds knowledge bases to the registry, whatever its catalog is like and
however it ends (`Holder.within_refresh`). Reads change what is remembered, and show in no answer
(`KnowledgeBase.Kept.after_reads_alike`).

Which knowledge bases two successive generations share is read off what became of each document
(`Merge.Carries`) and of the names that could not be read, which may be names of documents too
(`get?_rejections`). A knowledge base that was built has a number that was free, and one of the
earlier generation has none of those, because every entry of a current generation has its knowledge
base in the registry (`Stocked`).

**The law** (`captured_after`) is about the generation that is current after any history since the
load. It lasts (`Lasts`) through every later history in which nobody updates or closes one of its
knowledge bases; and the generation that follows it by a catalog whose documents have different
names shares with it the knowledge bases it should, and has new ones otherwise (`SharesBy`).
-/

namespace OntologyService

namespace Generation

variable {g : Generation} {name : String} {base : BaseId}

/-- A name is found if and only if the generation holds it. -/
theorem find_eq_ok_iff :
    g.find name = .ok base ↔ ∃ h, g.ontologies.get? name = some h ∧ h.base = base := by
  unfold find
  cases g.ontologies.get? name with
  | none => simp
  | some h => simp

/-- Every entry has its knowledge base in the registry. -/
def Stocked (t : Table String Holding) (r : Registry) : Prop :=
  ∀ name h, t.get? name = some h → ∃ kb, r.get? h.base = some kb ∧ kb.Kept

namespace Stocked

variable {t : Table String Holding} {r r' : Registry}

/-- The empty table is in stock. -/
theorem empty (r : Registry) : Stocked ∅ r := by
  intro name h entry
  rw [Table.get?_empty] at entry
  cases entry

/-- A table in stock stays so as the registry grows. -/
theorem mono (s : Stocked t r) (within : r.Within r') : Stocked t r' := by
  intro name h entry
  obtain ⟨kb, held, kept⟩ := s name h entry
  exact ⟨kb, within _ kb held, kept⟩

/-- An entry with a knowledge base may be added to a table in stock. -/
theorem insert (s : Stocked t r) {name : String} {h : Holding}
    (new : ∃ kb, r.get? h.base = some kb ∧ kb.Kept) : Stocked (t.insert name h) r := by
  intro other h' entry
  by_cases e : other = name
  · rw [e, Table.get?_insert_self] at entry
    cases entry
    exact new
  · rw [Table.get?_insert_of_ne e] at entry
    exact s other h' entry

end Stocked

end Generation

open Generation (Stocked)

/-! ## A refresh only adds -/

namespace Merge

variable {policy : LimitPolicy} {previous : Generation} {m : Merge} {d : Document}

/-- A table in the making that has only entries with knowledge bases, in a registry that has all
that was there `before`. -/
structure Growing (before : Registry) (m : Merge) : Prop where
  within : before.Within m.registry
  stocked : Stocked m.ontologies m.registry

variable {before : Registry}

/-- What is counted is no matter. -/
theorem Growing.counting (h : Growing before m) (counted : RefreshSummary) :
    Growing before { m with summary := counted } := ⟨h.within, h.stocked⟩

/-- Giving a name what it had leaves the table growing. -/
theorem Growing.keep (h : Growing before m) (stock : Stocked previous.ontologies before)
    (name : String) : Growing before (m.keep previous name) := by
  refine ⟨keep_registry m previous name ▸ h.within, ?_⟩
  rw [keep_registry]
  unfold Merge.keep
  split
  · rename_i old had
    exact h.stocked.insert (stock.mono h.within name old had)
  · exact h.stocked

/-- A document only adds, whatever was listed before it. -/
theorem Growing.document (h : Growing before m) (stock : Stocked previous.ontologies before)
    (d : Document) : Growing before (document policy previous m d) := by
  by_cases reused : ∃ old, previous.ontologies.get? d.name = some old ∧ old.version = d.version
  · obtain ⟨old, had, version⟩ := reused
    rw [document_of_reused had version]
    exact ⟨h.within, h.stocked.insert (stock.mono h.within d.name old had)⟩
  · have changed : Changed previous d := fun old had version => reused ⟨old, had, version⟩
    cases made : KnowledgeBase.new d.name d.axioms policy with
    | ok kb =>
      rw [document_of_built changed made]
      have added := Registry.within_add m.registry kb
      refine ⟨h.within.trans added, (h.stocked.mono added).insert ?_⟩
      exact ⟨kb, Registry.get?_add_self _ kb, (KnowledgeBase.Kept.of_new made).2.1⟩
    | error err =>
      rw [document_of_refused changed made]
      exact (h.counting _).keep stock d.name

/-- **What is put together from any catalog** only adds to the registry, and has only entries with
knowledge bases. -/
theorem growing_ofCatalog (policy : LimitPolicy) (stock : Stocked previous.ontologies before)
    (c : Catalog) : Growing before (ofCatalog policy previous before c) := by
  have documents : ∀ (ds : List Document) {m : Merge}, Growing before m →
      Growing before (ds.foldl (document policy previous) m) := by
    intro ds
    induction ds with
    | nil => exact id
    | cons d ds ih => exact fun h => ih (h.document stock d)
  have rejections : ∀ (rs : List Rejection) {m : Merge}, Growing before m →
      Growing before (rs.foldl (rejection previous) m) := by
    intro rs
    induction rs with
    | nil => exact id
    | cons r rs ih => exact fun h => ih ((h.counting _).keep stock r.name)
  have start : Growing before { registry := before } := ⟨.refl before, .empty before⟩
  exact (rejections c.rejected (documents c.documents start)).counting _

/-! ## Names that could not be read -/

/-- A name gets what it had before, if anything, and the others keep what they have. -/
theorem get?_keep (m : Merge) (previous : Generation) (name other : String) :
    (m.keep previous name).ontologies.get? other =
      if other = name then (previous.ontologies.get? other).or (m.ontologies.get? other)
      else m.ontologies.get? other := by
  split
  · rename_i same
    subst same
    unfold Merge.keep
    split
    · rename_i old had
      rw [had]
      exact Table.get?_insert_self ..
    · rename_i had
      rw [had, Option.none_or]
  · rename_i ne
    exact get?_keep_of_ne ne

/-- A name that could not be read has what it had, or else what a document gave it. -/
theorem get?_rejections (previous : Generation) (rs : List Rejection) (name : String) :
    ∀ m : Merge, (rs.foldl (rejection previous) m).ontologies.get? name =
      if name ∈ rs.map Rejection.name
      then (previous.ontologies.get? name).or (m.ontologies.get? name)
      else m.ontologies.get? name := by
  induction rs with
  | nil => exact fun m => rfl
  | cons r rs ih =>
    intro m
    have here : (rejection previous m r).ontologies.get? name =
        if name = r.name then (previous.ontologies.get? name).or (m.ontologies.get? name)
        else m.ontologies.get? name := get?_keep _ previous r.name name
    rw [List.foldl_cons, ih, here, List.map_cons]
    by_cases same : name = r.name
    · simp only [List.mem_cons, same, true_or, if_true]
      split
      · rw [← Option.or_assoc, Option.or_self]
      · rfl
    · simp only [List.mem_cons, same, false_or, if_false]

end Merge

namespace Service

variable {start : Registry} {catalog : Catalog} {first s : Service} {events : List Event}
  {g g' : Generation}

theorem after_append (s : Service) (events later : List Event) :
    s.after (events ++ later) = (s.after events).after later := List.foldl_append

/-- **A service is stocked**: it has a current generation, and every entry of it has its knowledge
base in the registry. -/
structure Stocked (s : Service) : Prop where
  live : s.holder.closed = false
  current : ∃ g, s.holder.current = some g ∧ Generation.Stocked g.ontologies s.registry

/-- A service that has just loaded is stocked. -/
theorem stocked_load (loads : Loads start catalog first) : first.Stocked := by
  obtain ⟨live, g, current, entries⟩ := serving_load loads
  refine ⟨live, g, current, fun name h entry => ?_⟩
  obtain ⟨d, lineage⟩ := entries name h entry
  obtain ⟨_, _, kb, -, held, kept, -⟩ := lineage.holds
  exact ⟨kb, held, kept⟩

/-- A call leaves every knowledge base kept. -/
theorem Stocked.call (h : s.Stocked) (id : BaseId) (c : KnowledgeBase.Call) :
    (s.step (.call id c)).Stocked := by
  obtain ⟨live, g, current, stock⟩ := h
  refine ⟨live, g, current, fun name h entry => ?_⟩
  obtain ⟨kb, held, kept⟩ := stock name h entry
  by_cases e : id = h.base
  · subst e
    exact ⟨_, Registry.get?_call_self held c, (kept.serve c).1⟩
  · exact ⟨kb, (Registry.get?_call_of_ne e c).trans held, kept⟩

/-- Every event leaves a service stocked. -/
theorem Stocked.step (h : s.Stocked) (e : Event) : (s.step e).Stocked := by
  cases e with
  | call id c => exact h.call id c
  | refresh now loaded =>
    obtain ⟨live, g, current, stock⟩ := h
    cases loaded with
    | error err =>
      rw [Service.step, refresh_failed current]
      exact ⟨live, g, current, stock⟩
    | ok c =>
      rw [step_merged current live]
      exact ⟨live, _, rfl, (Merge.growing_ofCatalog _ stock c).stocked⟩

/-- So does every history. -/
theorem Stocked.after (events : List Event) : ∀ {s : Service}, s.Stocked →
    (s.after events).Stocked := by
  induction events with
  | nil => exact id
  | cons e events ih => exact fun h => ih (h.step e)

/-- A refresh leaves every knowledge base as it is, however it ends. -/
theorem Stocked.within_refresh (h : s.Stocked) (now : Nat) (loaded : Except SourceError Catalog) :
    s.registry.Within (s.step (.refresh now loaded)).registry := by
  obtain ⟨live, g, current, stock⟩ := h
  cases loaded with
  | error err =>
    rw [Service.step, refresh_failed current]
    exact .refl _
  | ok c =>
    rw [step_merged current live]
    exact (Merge.growing_ofCatalog _ stock c).within

/-! ## What lasts -/

/-- The events change no knowledge base of the generation: they refresh, or call others, or read. -/
def Spares (later : List Event) (g : Generation) : Prop :=
  ∀ base c, .call base c ∈ later → c.Reads ∨ ∀ name, g.find name ≠ .ok base

/-- **The generation is over the one registry what it was over the other**: its listing is the same,
and each name's knowledge base holds the same axioms at the same revision and answers everything
that can be asked of it alike. -/
structure Lasts (g : Generation) (r r' : Registry) : Prop where
  listing : g.summaries r' = g.summaries r
  bases : ∀ name base, g.find name = .ok base →
    ∃ kb kb', r.get? base = some kb ∧ r'.get? base = some kb' ∧ kb'.axioms = kb.axioms ∧
      kb'.revision = kb.revision ∧
        ∀ c : KnowledgeBase.Call, c.Reads → (kb'.serve c).1 = (kb.serve c).1

/-- One event leaves alike a knowledge base that it does not change. -/
theorem Stocked.step_alike (h : s.Stocked) {base : BaseId} {kb : KnowledgeBase}
    (held : s.registry.get? base = some kb) (kept : kb.Kept) {e : Event}
    (spared : ∀ c, e = .call base c → c.Reads) :
    ∃ kb', (s.step e).registry.get? base = some kb' ∧ kb'.Alike kb ∧
      kb'.revision = kb.revision := by
  cases e with
  | refresh now loaded => exact ⟨kb, h.within_refresh now loaded base kb held, .refl kept, rfl⟩
  | call id c =>
    by_cases e : id = base
    · subst e
      obtain ⟨alike, revision⟩ := kept.serve_alike (spared c rfl)
      exact ⟨_, Registry.get?_call_self held c, alike, revision⟩
    · exact ⟨kb, (Registry.get?_call_of_ne e c).trans held, .refl kept, rfl⟩

/-- So does a history of them. -/
theorem Stocked.after_alike (later : List Event) : ∀ {s : Service} {base : BaseId}
    {kb : KnowledgeBase}, s.Stocked → s.registry.get? base = some kb → kb.Kept →
    (∀ c, .call base c ∈ later → c.Reads) →
      ∃ kb', (s.after later).registry.get? base = some kb' ∧ kb'.Alike kb ∧
        kb'.revision = kb.revision := by
  induction later with
  | nil => intro s base kb _ held kept _; exact ⟨kb, held, .refl kept, rfl⟩
  | cons e later ih =>
    intro s base kb stocked held kept spared
    obtain ⟨kb₁, held₁, alike₁, revision₁⟩ := stocked.step_alike held kept (e := e)
      fun c same => spared c (same ▸ List.mem_cons_self)
    obtain ⟨kb₂, held₂, alike₂, revision₂⟩ := ih (stocked.step e) held₁ alike₁.left
      fun c member => spared c (List.mem_cons_of_mem _ member)
    exact ⟨kb₂, held₂, alike₂.trans alike₁, revision₂.trans revision₁⟩

/-- **A captured generation lasts** through every history that spares it. -/
theorem Stocked.lasts (h : s.Stocked) (current : s.holder.current = some g) {later : List Event}
    (spared : Spares later g) : Lasts g s.registry (s.after later).registry := by
  obtain ⟨g₀, current₀, stock⟩ := h.current
  cases current.symm.trans current₀
  have same : ∀ name h, g.ontologies.get? name = some h → ∃ kb kb',
      s.registry.get? h.base = some kb ∧ (s.after later).registry.get? h.base = some kb' ∧
        kb'.Alike kb ∧ kb'.revision = kb.revision := by
    intro name h' entry
    obtain ⟨kb, held, kept⟩ := stock name h' entry
    have reads : ∀ c, .call h'.base c ∈ later → c.Reads := fun c member =>
      (spared h'.base c member).resolve_right fun other =>
        other name (Generation.find_eq_ok_iff.2 ⟨h', entry, rfl⟩)
    obtain ⟨kb', held', alike, revision⟩ := Stocked.after_alike later h held kept reads
    exact ⟨kb, kb', held, held', alike, revision⟩
  constructor
  · unfold Generation.summaries
    refine List.filterMap_congr fun e member => ?_
    obtain ⟨kb, kb', held, held', alike, revision⟩ := same e.1 e.2 (Table.mem_toList.1 member)
    have axioms : kb'.axioms = kb.axioms := alike.engines.axioms
    simp only [held, held', Option.map_some, axioms, revision]
  · intro name base found
    obtain ⟨h', entry, rfl⟩ := Generation.find_eq_ok_iff.1 found
    obtain ⟨kb, kb', held, held', alike, revision⟩ := same name h' entry
    exact ⟨kb, kb', held, held', alike.engines.axioms, revision, fun c => alike.serve_eq⟩

/-! ## What is shared -/

/-- The catalog lists the name with the version that it has in the generation, or malformed, or as
one that could not be read. -/
def Retains (c : Catalog) (g : Generation) (name : String) : Prop :=
  (∃ d ∈ c.documents, d.name = name ∧ (g.version? name = some d.version ∨ ¬ d.Valid)) ∨
    ∃ x ∈ c.rejected, x.name = name

/-- **Which knowledge bases the next generation shares** by a catalog, over the registry that the
earlier one was current with: those of the names that the catalog retains. Any other knowledge base
of the next generation has a number that nobody had before. -/
structure SharesBy (c : Catalog) (r : Registry) (g g' : Generation) : Prop where
  shared : ∀ name, (∃ base, g.find name = .ok base ∧ g'.find name = .ok base) ↔
    name ∈ g.names ∧ Retains c g name
  registered : ∀ name base, g.find name = .ok base → ∃ kb, r.get? base = some kb
  new : ∀ name base, g'.find name = .ok base → g.find name ≠ .ok base → r.get? base = none

section

variable {policy : LimitPolicy} {r : Registry} {c : Catalog} {name : String} {h : Holding}
  (once : (c.documents.map Document.name).Nodup)
include once

/-- What is known of a document once all of them were dealt with. -/
theorem carries_document (policy : LimitPolicy) (g : Generation) (r : Registry)
    {d : Document} (hd : d ∈ c.documents) : Merge.Carries policy g r
      (c.documents.foldl (Merge.document policy g) { registry := r }) d :=
  (Merge.documents_carry policy g c.documents (m := { registry := r }) once
    fun d _ => Table.get?_empty d.name).2.2 d hd

/-- An entry that the documents alone gave is what a retained name had, or its knowledge base has a
new number. -/
theorem retains_or_new_of_documents (entry : (c.documents.foldl (Merge.document policy g)
      { registry := r }).ontologies.get? name = some h) :
    g.ontologies.get? name = some h ∧ Retains c g name ∨ r.get? h.base = none := by
  obtain ⟨-, others, -⟩ := Merge.documents_carry policy g c.documents
    (m := { registry := r }) once fun d _ => Table.get?_empty d.name
  by_cases documented : name ∈ c.documents.map Document.name
  · obtain ⟨d, hd, rfl⟩ := List.mem_map.1 documented
    cases carries_document once policy g r hd with
    | reused had version entry' =>
      cases entry.symm.trans entry'
      refine .inl ⟨had, .inl ⟨d, hd, rfl, .inl ?_⟩⟩
      rw [Generation.version?, had, Option.map_some, version]
    | built _ _ fresh _ entry' =>
      cases entry.symm.trans entry'
      exact .inr fresh
    | kept _ invalid entry' =>
      exact .inl ⟨entry'.symm.trans entry, .inl ⟨d, hd, rfl, .inr invalid⟩⟩
  · rw [others name documented, Table.get?_empty] at entry
    cases entry

/-- So is an entry of the whole: a name that could not be read is retained, unless it is new. -/
theorem retains_or_new
    (entry : (Merge.ofCatalog policy g r c).ontologies.get? name = some h) :
    g.ontologies.get? name = some h ∧ Retains c g name ∨ r.get? h.base = none := by
  replace entry := (Merge.get?_rejections g c.rejected name _).symm.trans entry
  split at entry
  · rename_i unread
    obtain ⟨x, hx, same⟩ := List.mem_map.1 unread
    cases had : g.ontologies.get? name with
    | some old =>
      rw [had, Option.some_or] at entry
      exact .inl ⟨entry, .inr ⟨x, hx, same⟩⟩
    | none =>
      rw [had, Option.none_or] at entry
      rw [← had]
      exact retains_or_new_of_documents once entry
  · exact retains_or_new_of_documents once entry

/-- A name that is retained has what it had. -/
theorem get?_of_retains (policy : LimitPolicy) (r : Registry)
    (had : g.ontologies.get? name = some h) (retained : Retains c g name) :
    (Merge.ofCatalog policy g r c).ontologies.get? name = some h := by
  refine (Merge.get?_rejections g c.rejected name _).trans ?_
  rw [had, Option.some_or]
  split
  · rfl
  · rename_i readable
    obtain ⟨d, hd, rfl, either⟩ := retained.resolve_right fun ⟨x, hx, same⟩ =>
      readable (same ▸ List.mem_map_of_mem hx)
    cases carries_document once policy g r hd with
    | reused had' _ entry => exact entry.trans (had'.symm.trans had)
    | kept _ _ entry => exact entry.trans had
    | built changed made _ _ _ =>
      rcases either with version | invalid
      · rw [Generation.version?, had, Option.map_some] at version
        exact absurd (Option.some.inj version) (changed h had)
      · exact absurd (KnowledgeBase.Kept.of_new made).1 invalid

/-- What is put together from a catalog shares by it. -/
theorem sharesBy_ofCatalog (stock : Generation.Stocked g.ontologies r)
    (put : g'.ontologies = (Merge.ofCatalog policy g r c).ontologies) : SharesBy c r g g' := by
  have registered : ∀ name base, g.find name = .ok base → ∃ kb, r.get? base = some kb := by
    intro name base found
    obtain ⟨h, entry, rfl⟩ := Generation.find_eq_ok_iff.1 found
    obtain ⟨kb, held, -⟩ := stock name h entry
    exact ⟨kb, held⟩
  refine ⟨fun name => ⟨?_, ?_⟩, registered, fun name base found other => ?_⟩
  · rintro ⟨base, had, found⟩
    obtain ⟨kb, held⟩ := registered name base had
    obtain ⟨h, entry, rfl⟩ := Generation.find_eq_ok_iff.1 found
    rcases retains_or_new once (put ▸ entry) with ⟨entry, retained⟩ | free
    · refine ⟨Table.mem_keys.2 ?_, retained⟩
      rw [entry]
      rfl
    · rw [held] at free
      cases free
  · rintro ⟨named, retained⟩
    obtain ⟨h, entry⟩ := Option.isSome_iff_exists.1 (Table.mem_keys.1 named)
    have same := get?_of_retains once policy r entry retained
    exact ⟨h.base, Generation.find_eq_ok_iff.2 ⟨h, entry, rfl⟩,
      Generation.find_eq_ok_iff.2 ⟨h, put ▸ same, rfl⟩⟩
  · obtain ⟨h, entry, rfl⟩ := Generation.find_eq_ok_iff.1 found
    rcases retains_or_new once (put ▸ entry) with ⟨entry, -⟩ | free
    · exact absurd (Generation.find_eq_ok_iff.2 ⟨h, entry, rfl⟩) other
    · exact free

end

/-! ## The law -/

/-- **A captured generation stays as it is.** After any history since the load there is a current
generation. It lasts through every later history that spares it, with refreshes by any catalogs; and
if the next thing that happens is a refresh by a catalog whose documents have different names, then
the generation that is current after it shares by that catalog. -/
theorem captured_after (loads : Loads start catalog first) (events : List Event) :
    ∃ g, (first.after events).holder.current = some g ∧
      (∀ later, Spares later g →
        Lasts g (first.after events).registry (first.after (events ++ later)).registry) ∧
      ∀ now c, (c.documents.map Document.name).Nodup →
        ∃ g', (first.after (events ++ [.refresh now (.ok c)])).holder.current = some g' ∧
          SharesBy c (first.after events).registry g g' := by
  have stocked := Stocked.after events (stocked_load loads)
  obtain ⟨g, current, stock⟩ := stocked.current
  refine ⟨g, current, fun later spared => ?_, fun now c once => ?_⟩
  · rw [after_append]
    exact stocked.lasts current spared
  · refine ⟨(first.after events).next g now c, ?_,
      sharesBy_ofCatalog once stock rfl⟩
    rw [after_snoc, step_merged current stocked.live]

/-- The zoo as a plant house, and the farm out of reach. -/
def planted : Catalog where
  documents := [{ zoo with version := "v2", axioms := .ofList [.subClassOf ⟨"Cat"⟩ ⟨"Plant"⟩] }]
  rejected := [{ name := "farm", error := .parse "farm.json" "" }]

/-- Once the zoo was planted and the farm out of reach, whoever captured the generation before goes
on seeing the zoo with its dog, also when a catalog comes that lists the zoo twice. The two
generations share the farm, and they do not share the zoo. -/
theorem zoo_captured :
    let events : List Event :=
      [ .call 0 (.update (.ofList [.subClassOf ⟨"Dog"⟩ ⟨"Animal"⟩]) ∅) ]
    let later : List Event := [ .refresh 1 (.ok planted), .refresh 2 (.ok ⟨[zoo, zoo], []⟩) ]
    ∃ first g g', Loads {} menagerie first ∧ (planted.documents.map Document.name).Nodup ∧
      Spares later g ∧ (first.after events).holder.current = some g ∧
      Lasts g (first.after events).registry (first.after (events ++ later)).registry ∧
      (first.after (events ++ [.refresh 1 (.ok planted)])).holder.current = some g' ∧
      (∃ base, g.find "farm" = .ok base ∧ g'.find "farm" = .ok base) ∧
      ¬ ∃ base, g.find "zoo" = .ok base ∧ g'.find "zoo" = .ok base := by
  intro events later
  have seen : (Holder.load {} .forward 0 (.ok menagerie)).toOption.any (fun l =>
      l.1.current.any fun g => "farm" ∈ g.names ∧ g.version? "zoo" = some "v1") = true := by
    decide +kernel
  cases loaded : Holder.load {} .forward 0 (.ok menagerie) with
  | error err =>
    rw [loaded] at seen
    cases seen
  | ok l =>
    rw [loaded] at seen
    have loads : Loads {} menagerie ⟨l.1, l.2⟩ := ⟨.forward, 0, loaded⟩
    obtain ⟨g, current, law, next⟩ := captured_after loads events
    have once : (planted.documents.map Document.name).Nodup := by decide +kernel
    have spared : Spares later g := by simp [Spares, later]
    obtain ⟨g', current', shares⟩ := next 1 planted once
    -- the call leaves the holder alone, so this is the generation that was loaded
    have current₀ : l.1.current = some g := current
    simp only [Except.toOption, Option.any_some, current₀, Bool.decide_and, Bool.and_eq_true,
      decide_eq_true_eq] at seen
    obtain ⟨named, version⟩ := seen
    refine ⟨⟨l.1, l.2⟩, g, g', loads, once, spared, current, law later spared, current', ?_, ?_⟩
    · exact (shares.shared "farm").2 ⟨named, .inr ⟨_, List.mem_cons_self, rfl⟩⟩
    · intro both
      obtain ⟨-, ⟨d, hd, -, either⟩ | ⟨x, hx, same⟩⟩ := (shares.shared "zoo").1 both
      · cases List.mem_singleton.1 hd
        rw [version] at either
        revert either
        decide +kernel
      · cases List.mem_singleton.1 hx
        exact absurd same (by decide)

end Service

end OntologyService
