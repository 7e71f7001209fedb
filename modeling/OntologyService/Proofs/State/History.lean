import Mathlib.Data.List.Induction
import OntologyService.Proofs.Source.Versions
import OntologyService.Proofs.State.Merge

/-!
# Histories of the service's state

A `Service` is a holder with the knowledge bases that it gave out. What happens to it is a list of
events: refreshes, and calls that somebody makes on a knowledge base directly, whether it is current
or not. A knowledge base outlives the generation it was built for, so what it holds now depends on
all of the history: on the document it was built from, which may have been published many refreshes
ago (`Origin`), and on every batch it took in since then (`Service.accepted`).

`Lineage` says so of one entry of the current generation, and every event keeps it
(`serving_after`): a call because a knowledge base changes by the batches it accepts and in no other
way, and a refresh because each entry of the next generation is an old one or newly built
(`Merge.follows_ofCatalog`).

**The law** (`refresh_after`): over a history whose catalogs keep the rules of a source (`Fair`),
a refresh whose source fails changes nothing, and every other one ends refreshed, with exactly the
names that can be served, each with the axioms of its lineage.
-/

namespace OntologyService

/-! ## Services and what happens to them -/

/-- A holder, and every knowledge base that it gave out. -/
structure Service where
  holder : Holder
  registry : Registry

/-- A batch of an update. -/
structure Batch where
  additions : AxiomSet
  removals : AxiomSet
deriving DecidableEq

/-- The axioms that some batches leave, taken in one after another, additions first. -/
def takeBatches (axioms : AxiomSet) (batches : List Batch) : AxiomSet :=
  batches.foldl (fun axioms b => (axioms ∪ b.additions).sdiff b.removals) axioms

/-- Calls the knowledge base of a number. -/
def Registry.call (r : Registry) (id : BaseId) (c : KnowledgeBase.Call) : Registry :=
  match r.get? id with
  | some kb => r.set id (kb.serve c).2
  | none => r

/-- The batch that a call makes a knowledge base accept, if it does. -/
def KnowledgeBase.accepts (kb : KnowledgeBase) : Call → List Batch
  | .update additions removals =>
    if (kb.update additions removals).1.isOk then [⟨additions, removals⟩] else []
  | .query _ _ | .entailed _ | .explain _ _ | .close => []

theorem takeBatches_append (axioms : AxiomSet) (batches batches' : List Batch) :
    takeBatches axioms (batches ++ batches') = takeBatches (takeBatches axioms batches) batches' :=
  List.foldl_append

namespace Registry

variable {r : Registry} {id other : BaseId} {kb : KnowledgeBase}

/-- A call leaves the knowledge base it is for with what it did. -/
theorem get?_call_self (held : r.get? id = some kb) (c : KnowledgeBase.Call) :
    (r.call id c).get? id = some (kb.serve c).2 := by
  obtain ⟨bound, -⟩ := Array.getElem?_eq_some_iff.1 held
  rw [call, held]
  exact Array.getElem?_setIfInBounds_self_of_lt bound

/-- It leaves every other as it was. -/
theorem get?_call_of_ne (ne : id ≠ other) (c : KnowledgeBase.Call) :
    (r.call id c).get? other = r.get? other := by
  unfold call
  split
  · exact Array.getElem?_setIfInBounds_ne ne
  · rfl

end Registry

/-- **A call changes the axioms** by the batch that it makes the knowledge base accept. -/
theorem KnowledgeBase.Kept.axioms_serve {kb : KnowledgeBase} (h : kb.Kept)
    (live : kb.closed = false) {c : Call} (stays : c ≠ .close) :
    (kb.serve c).2.axioms = takeBatches kb.axioms (kb.accepts c) := by
  have read : c.Reads → (kb.serve c).2.axioms = kb.axioms := fun reads =>
    ((h.openLaw live).reads c reads).1
  cases c with
  | query kind e => exact read trivial
  | entailed a => exact read trivial
  | explain a limit => exact read trivial
  | close => exact absurd rfl stays
  | update additions removals =>
    by_cases valid : ValidBatch additions removals
    · obtain ⟨kb', updated, -, -, -, axioms, -⟩ := h.update_of_valid live valid
      rw [accepts, KnowledgeBase.serve, updated]
      exact axioms
    · obtain ⟨_, a, _, d, -, -, -, refused⟩ := update_eq_error live valid
      rw [accepts, KnowledgeBase.serve, refused]
      rfl

namespace Service

/-- What happens to a service. -/
inductive Event where
  /-- A refresh at some time, with what the source gave. -/
  | refresh (now : Nat) (loaded : Except SourceError Catalog)
  /-- A direct call of a knowledge base. -/
  | call (base : BaseId) (c : KnowledgeBase.Call)

/-- The service that an event leaves. -/
def step (s : Service) : Event → Service
  | .refresh now loaded =>
    let (_, holder, registry) := s.holder.refresh s.registry now loaded
    { holder, registry }
  | .call base c => { s with registry := s.registry.call base c }

/-- The service that a history leaves. -/
def after (s : Service) (events : List Event) : Service := events.foldl step s

/-- The batch that an event makes a knowledge base accept, if it does. -/
def acceptedBy (s : Service) (base : BaseId) : Event → List Batch
  | .call id c =>
    match s.registry.get? id with
    | some kb => if id = base then kb.accepts c else []
    | none => []
  | .refresh _ _ => []

/-- The batches that a knowledge base accepts over a history, in order. -/
def accepted (s : Service) (base : BaseId) : List Event → List Batch
  | [] => []
  | e :: events => s.acceptedBy base e ++ (s.step e).accepted base events

/-- The documents of every catalog that a refresh got. -/
def published (events : List Event) : List Document :=
  events.flatMap fun
    | .refresh _ (.ok c) => c.documents
    | .refresh _ (.error _) | .call _ _ => []

/-- A document of a catalog that was refreshed from is published. -/
theorem mem_published {events : List Event} {now : Nat} {c : Catalog} {d : Document}
    (refreshed : .refresh now (.ok c) ∈ events) (listed : d ∈ c.documents) :
    d ∈ published events :=
  List.mem_flatMap.2 ⟨.refresh now (.ok c), refreshed, listed⟩

/-- The last event of a history acts on what the events before it left. -/
theorem after_snoc (s : Service) (events : List Event) (e : Event) :
    s.after (events ++ [e]) = (s.after events).step e := by
  rw [after, List.foldl_append]
  rfl

/-- What a base accepts over a history is followed by what it accepts at the last event. -/
theorem accepted_snoc (base : BaseId) (events : List Event) (e : Event) : ∀ s : Service,
    s.accepted base (events ++ [e]) =
      s.accepted base events ++ (s.after events).acceptedBy base e := by
  induction events with
  | nil =>
    intro s
    exact List.append_nil _
  | cons e' events ih =>
    intro s
    rw [List.cons_append, accepted, accepted, ih, List.append_assoc]
    rfl

/-! ## Where a knowledge base comes from -/

/-- **The load or refresh that left the service built the knowledge base from the document**: its
number was free before, it is what a knowledge base over the document starts as, and the document's
name has it, under the document's version. -/
structure Built (before : Registry) (s : Service) (d : Document) (base : BaseId) : Prop where
  free : before.get? base = none
  made : ∃ kb, KnowledgeBase.new d.name d.axioms s.holder.policy = .ok kb ∧
    s.registry.get? base = some kb
  entered : ∃ g, s.holder.current = some g ∧
    g.ontologies.get? d.name = some { version := d.version, base }

/-- Only what the engine can hold is built. -/
theorem Built.valid {before : Registry} {s : Service} {d : Document} {base : BaseId}
    (built : Built before s d base) : d.Valid := by
  obtain ⟨kb, made, -⟩ := built.made
  exact (KnowledgeBase.Kept.of_new made).1

section

/- A service that was loaded from a catalog, over a registry that may have held others before. -/
variable (start : Registry) (catalog : Catalog) (first : Service)

/-- The service is what the first load of the catalog gave. -/
def Loads : Prop :=
  ∃ policy now, Holder.load start policy now (.ok catalog) = .ok (first.holder, first.registry)

/-- **The origin of a knowledge base** in a history: the document it was built from, the service
that was left when it had been built, and what happened since then. -/
inductive Origin (events : List Event) (d : Document) (base : BaseId) :
    Service → List Event → Prop
  | load : d ∈ catalog.documents → Built start first d base → Origin events d base first events
  | refresh {before since : List Event} {now : Nat} {c : Catalog} :
    events = before ++ .refresh now (.ok c) :: since → d ∈ c.documents →
      Built (first.after before).registry (first.after (before ++ [.refresh now (.ok c)])) d base →
        Origin events d base (first.after (before ++ [.refresh now (.ok c)])) since

/-- **The lineage of an entry** after a history: the document that its knowledge base was built
from gave it its version, and the knowledge base is open and holds the axioms of the document with
the batches that it accepted since then. -/
structure Lineage (events : List Event) (name : String) (h : Holding) (d : Document) : Prop where
  name : d.name = name
  version : d.version = h.version
  holds : ∃ built since kb, Origin start catalog first events d h.base built since ∧
    (first.after events).registry.get? h.base = some kb ∧ kb.Kept ∧ kb.closed = false ∧
      kb.axioms = takeBatches d.axioms (built.accepted h.base since)

/-- **The rules of a source**, and of its users: equal versions of a name carry equal axioms, from
the load on; no catalog lists a name twice; and nobody but the holder closes a knowledge base. -/
structure Fair (events : List Event) : Prop where
  versions : VersionsTell (catalog.documents ++ published events)
  once : ∀ now c, .refresh now (.ok c) ∈ events → c.listed.Nodup
  leftOpen : ∀ base, .call base .close ∉ events

variable {catalog} in
/-- What was published stays published. -/
theorem mem_documents_snoc {events : List Event} {e : Event} {d : Document}
    (listed : d ∈ catalog.documents ++ published events) :
    d ∈ catalog.documents ++ published (events ++ [e]) := by
  rw [published, List.flatMap_append, ← List.append_assoc]
  exact List.mem_append_left _ listed

variable {catalog} in
/-- A part of a history that is fair from its start is fair. -/
theorem Fair.of_snoc {events : List Event} {e : Event} (fair : Fair catalog (events ++ [e])) :
    Fair catalog events where
  versions d hd d' hd' := fair.versions d (mem_documents_snoc hd) d' (mem_documents_snoc hd')
  once now c refreshed := fair.once now c (List.mem_append_left _ refreshed)
  leftOpen base closed := fair.leftOpen base (List.mem_append_left _ closed)

/-- What holds after every event: there is a generation, and each of its entries has a lineage. -/
structure Serving (events : List Event) : Prop where
  live : (first.after events).holder.closed = false
  entries : ∃ g, (first.after events).holder.current = some g ∧
    ∀ name h, g.ontologies.get? name = some h → ∃ d, Lineage start catalog first events name h d

end

variable {start : Registry} {catalog : Catalog} {first : Service} {events : List Event}
  {name : String} {h : Holding} {d : Document}

namespace Origin

variable {base : BaseId} {built : Service} {since : List Event}

/-- What happens next happens to a knowledge base after it was built. -/
theorem snoc (o : Origin start catalog first events d base built since) (e : Event) :
    Origin start catalog first (events ++ [e]) d base built (since ++ [e]) := by
  cases o with
  | load published made => exact .load published made
  | refresh split published made =>
    refine .refresh ?_ published made
    rw [split, List.append_assoc, List.cons_append]

/-- The knowledge base built and what it took since are a history of the service. -/
theorem after_since (o : Origin start catalog first events d base built since) :
    built.after since = first.after events := by
  cases o with
  | load _ _ => rfl
  | refresh split _ _ =>
    rw [split, after_snoc]
    show _ = List.foldl step first (_ ++ _ :: since)
    rw [List.foldl_append]
    rfl

/-- The document was in one of the catalogs. -/
theorem published (o : Origin start catalog first events d base built since) :
    d ∈ catalog.documents ++ published events := by
  cases o with
  | load listed _ => exact List.mem_append_left _ listed
  | @refresh before _ now c split listed _ =>
    have refreshed : Event.refresh now (.ok c) ∈ events := by
      rw [split]
      exact List.mem_append_right _ (List.mem_cons_self ..)
    exact List.mem_append_right _ (mem_published refreshed listed)

/-- A document that a knowledge base was built from is valid. -/
theorem valid (o : Origin start catalog first events d base built since) : d.Valid := by
  cases o with
  | load _ built => exact built.valid
  | refresh _ _ built => exact built.valid

end Origin

/-! ## The load -/

/-- A catalog that could be read, of valid documents, is loaded. -/
theorem exists_loads (start : Registry) {catalog : Catalog} (readable : catalog.rejected = [])
    (valid : ∀ d ∈ catalog.documents, d.Valid) : ∃ first, Loads start catalog first := by
  obtain ⟨⟨entries, r⟩, all⟩ := Holder.buildAll_of_valid .forward _ valid ∅ start
  refine ⟨⟨{ current := some ⟨1, 0, entries⟩, policy := .forward }, r⟩, .forward, 0, ?_⟩
  unfold Holder.load
  dsimp only
  rw [readable]
  dsimp only
  rw [all]

/-- What was built is what it was built from, as long as nothing happened. -/
theorem lineage_of_built {before : Registry} {built : Service} {since : List Event}
    (same : d.name = name) (version : d.version = h.version) (made : Built before built d h.base)
    (origin : Origin start catalog first events d h.base built since)
    (new : built = first.after events) (none_since : built.accepted h.base since = []) :
    Lineage start catalog first events name h d := by
  obtain ⟨kb, made, held⟩ := made.made
  obtain ⟨-, kept, live, -, axioms⟩ := KnowledgeBase.Kept.of_new made
  refine ⟨same, version, built, since, kb, origin, new ▸ held, kept, live, ?_⟩
  rw [axioms, none_since]
  rfl

/-- A service that has just loaded is serving. -/
theorem serving_load (loads : Loads start catalog first) : Serving start catalog first [] := by
  obtain ⟨policy, now, loaded⟩ := loads
  unfold Holder.load at loaded
  dsimp only at loaded
  split at loaded
  · cases loaded
  · split at loaded
    · cases loaded
    · rename_i entries registry built
      rw [Except.ok.injEq, Prod.mk.injEq] at loaded
      obtain ⟨holder, registry'⟩ := loaded
      obtain ⟨-, made⟩ := Holder.buildAll_spec _ built
      have current : first.holder.current =
          some { number := 1, loadedAt := now, ontologies := entries } := by rw [← holder]
      refine ⟨?_, _, current, fun name h entry => ?_⟩
      · show first.holder.closed = false
        rw [← holder]
      · rcases made name h entry with absent | ⟨d, listed, same, version, free, kb, new, held⟩
        · rw [Table.get?_empty] at absent
          cases absent
        · have built : Built start first d h.base := by
            refine ⟨free, ⟨kb, ?_, registry' ▸ held⟩, _, current, ?_⟩
            · rw [← holder]
              exact new
            · rw [same, version]
              exact entry
          exact ⟨d, lineage_of_built same version built (.load listed built) rfl rfl⟩

/-! ## One more event -/

/-- An entry keeps its lineage through an event that leaves its knowledge base alone. -/
theorem Lineage.untouched (l : Lineage start catalog first events name h d) {e : Event}
    (same : ∀ kb, (first.after events).registry.get? h.base = some kb →
      ((first.after events).step e).registry.get? h.base = some kb)
    (idle : (first.after events).acceptedBy h.base e = []) :
    Lineage start catalog first (events ++ [e]) name h d := by
  obtain ⟨built, since, kb, origin, held, kept, live, axioms⟩ := l.holds
  refine ⟨l.name, l.version, built, since ++ [e], kb, origin.snoc e, ?_, kept, live, ?_⟩
  · rw [after_snoc]
    exact same kb held
  · rw [axioms, accepted_snoc, origin.after_since, idle, List.append_nil]

/-- An entry keeps its lineage through a call that does not close its knowledge base. -/
theorem Lineage.call (l : Lineage start catalog first events name h d) {id : BaseId}
    {c : KnowledgeBase.Call} (stays : c ≠ .close) :
    Lineage start catalog first (events ++ [.call id c]) name h d := by
  obtain ⟨built, since, kb, origin, held, kept, live, axioms⟩ := l.holds
  -- the entry's knowledge base is called itself, or some other one is
  by_cases e : id = h.base
  · subst e
    obtain ⟨kept', -, closes⟩ := kept.serve c
    refine ⟨l.name, l.version, built, since ++ [.call h.base c], (kb.serve c).2, origin.snoc _, ?_,
      kept', ?_, ?_⟩
    · rw [after_snoc]
      exact Registry.get?_call_self held c
    · rw [← Bool.not_eq_true, closes, live]
      exact fun h => h.elim Bool.false_ne_true stays
    · rw [kept.axioms_serve live stays, axioms, accepted_snoc, origin.after_since, acceptedBy, held]
      dsimp only
      rw [if_pos rfl, takeBatches_append]
  · refine l.untouched (fun kb held => ?_) ?_
    · exact (Registry.get?_call_of_ne e c).trans held
    · unfold acceptedBy
      dsimp only
      split
      · rw [if_neg e]
      · rfl

/-! ## Refreshes -/

/-- The source failed: nothing changes. -/
theorem refresh_failed {s : Service} {g : Generation} (current : s.holder.current = some g)
    (now : Nat) (err : SourceError) :
    s.holder.refresh s.registry now (.error err) =
      (.error (.source err), s.holder, s.registry) := by
  unfold Holder.refresh
  rw [current]

/-- What a refresh puts together from the generation `g`. -/
def merged (s : Service) (g : Generation) (c : Catalog) : Merge :=
  Merge.ofCatalog s.holder.policy g s.registry c

/-- The generation that follows `g`. -/
def next (s : Service) (g : Generation) (now : Nat) (c : Catalog) : Generation where
  number := g.number + 1
  loadedAt := now
  ontologies := (s.merged g c).ontologies

/-- The source gave a catalog: what is put together is installed. -/
theorem refresh_merged {s : Service} {g : Generation} (current : s.holder.current = some g)
    (live : s.holder.closed = false) (now : Nat) (c : Catalog) :
    s.holder.refresh s.registry now (.ok c) =
      (.ok (.refreshed { (s.merged g c).summary with generation := g.number + 1 }),
        { s.holder with current := some (s.next g now c) }, (s.merged g c).registry) := by
  unfold Holder.refresh Holder.install
  rw [current]
  dsimp only
  rw [live, if_neg Bool.false_ne_true]
  rfl

/-- A refresh of a live service merges the catalog with its current generation. -/
theorem step_merged {s : Service} {g : Generation} (current : s.holder.current = some g)
    (live : s.holder.closed = false) (now : Nat) (c : Catalog) :
    s.step (.refresh now (.ok c)) =
      { holder := { s.holder with current := some (s.next g now c) }
        registry := (s.merged g c).registry } := by
  rw [step, refresh_merged current live]

/-- **A refresh keeps the service serving**: an entry of the next generation is an old one, whose
knowledge base the refresh left alone, or one that the refresh built. -/
theorem Serving.refresh (serving : Serving start catalog first events) (now : Nat) {c : Catalog}
    (once : c.listed.Nodup) : Serving start catalog first (events ++ [.refresh now (.ok c)]) := by
  obtain ⟨live, g, current, entries⟩ := serving
  have left : first.after (events ++ [.refresh now (.ok c)]) = _ :=
    (after_snoc first events _).trans (step_merged current live now c)
  have follows : Merge.Follows _ g _ c ((first.after events).merged g c) :=
    Merge.follows_ofCatalog once
  -- whatever way a name was carried, its entry is one that `g` had, or one that was built now
  have old : ∀ name h, g.ontologies.get? name = some h →
      ∃ d, Lineage start catalog first (events ++ [.refresh now (.ok c)]) name h d := by
    intro name h entry
    obtain ⟨d, lineage⟩ := entries name h entry
    refine ⟨d, lineage.untouched (fun kb held => ?_) rfl⟩
    rw [step_merged current live]
    exact follows.within _ kb held
  refine ⟨?_, (first.after events).next g now c, ?_, fun name h entry => ?_⟩
  · rw [left]
    exact live
  · rw [left]
  · have listed : name ∈ c.listed := by
      by_contra unlisted
      have entry : ((first.after events).merged g c).ontologies.get? name = some h := entry
      rw [follows.unlisted name unlisted] at entry
      cases entry
    rcases List.mem_append.1 listed with document | rejected
    · obtain ⟨d, hd, rfl⟩ := List.mem_map.1 document
      cases follows.documents d hd with
      | reused had _ same => exact old _ _ (had.trans (same.symm.trans entry))
      | kept _ _ same => exact old _ _ (same.symm.trans entry)
      | @built kb base _ made free held entered =>
        cases entered.symm.trans entry
        have built : Built (first.after events).registry
            (first.after (events ++ [.refresh now (.ok c)])) d base := by
          rw [left]
          exact ⟨free, ⟨kb, made, held⟩, _, rfl, entered⟩
        exact ⟨d, lineage_of_built rfl rfl built (.refresh rfl hd built) rfl rfl⟩
    · obtain ⟨r, hr, rfl⟩ := List.mem_map.1 rejected
      exact old _ _ ((follows.rejected r hr).symm.trans entry)

/-- An event that leaves the holder alone keeps the service serving, if it keeps lineages. -/
theorem Serving.of_holder (serving : Serving start catalog first events) {e : Event}
    (same : ((first.after events).step e).holder = (first.after events).holder)
    (keeps : ∀ name h d, Lineage start catalog first events name h d →
      Lineage start catalog first (events ++ [e]) name h d) :
    Serving start catalog first (events ++ [e]) := by
  obtain ⟨live, g, current, entries⟩ := serving
  refine ⟨?_, g, ?_, fun name h entry => ?_⟩
  · rw [after_snoc, same]
    exact live
  · rw [after_snoc, same]
    exact current
  · obtain ⟨d, lineage⟩ := entries name h entry
    exact ⟨d, keeps name h d lineage⟩

/-- **Every fair history** keeps the service serving. -/
theorem serving_after (loads : Loads start catalog first) (fair : Fair catalog events) :
    Serving start catalog first events := by
  -- an origin is told from the last event backwards, so the induction adds events at the end
  induction events using List.reverseRecOn with
  | nil => exact serving_load loads
  | append_singleton events e ih =>
    have serving := ih fair.of_snoc
    cases e with
    | call id c =>
      have stays : c ≠ .close := fun e =>
        fair.leftOpen id (e ▸ List.mem_append_right _ List.mem_cons_self)
      exact serving.of_holder rfl fun name h d lineage => lineage.call stays
    | refresh now loaded =>
      cases loaded with
      | ok c =>
        exact serving.refresh now (fair.once now c (List.mem_append_right _ List.mem_cons_self))
      | error err =>
        obtain ⟨g, current, -⟩ := serving.entries
        have same : (first.after events).step (.refresh now (.error err)) = first.after events := by
          rw [step, refresh_failed current]
        refine serving.of_holder (by rw [same]) fun name h d lineage => ?_
        exact lineage.untouched (fun kb held => by rw [same]; exact held) rfl

/-! ## The law -/

/-- **How a generation follows another** by a catalog. Its names are those of the documents that
can be served, and those that the earlier one had and that are listed, but with nothing that can be
served; the former have the version that is published, and the latter have the entry that they
had. -/
structure Succeeds (c : Catalog) (g g' : Generation) : Prop where
  names : ∀ name, name ∈ g'.names ↔
    (∃ d ∈ c.documents, d.name = name ∧ d.Valid) ∨
      name ∈ g.names ∧ ((∃ d ∈ c.documents, d.name = name ∧ ¬ d.Valid) ∨
        ∃ r ∈ c.rejected, r.name = name)
  published : ∀ d ∈ c.documents, d.Valid → g'.version? d.name = some d.version
  malformed : ∀ d ∈ c.documents, ¬ d.Valid →
    g'.ontologies.get? d.name = g.ontologies.get? d.name
  rejected : ∀ r ∈ c.rejected, g'.ontologies.get? r.name = g.ontologies.get? r.name

/-- A document of the version that an entry has is the document of the entry's lineage, as far as
its axioms go, and so is valid. -/
theorem Lineage.same_axioms (l : Lineage start catalog first events name h d)
    {ds : List Document} (tell : VersionsTell ds)
    (within : ∀ d ∈ catalog.documents ++ published events, d ∈ ds)
    {d' : Document} (listed : d' ∈ ds) (same : d'.name = name) (version : h.version = d'.version) :
    d.axioms = d'.axioms ∧ d'.Valid := by
  obtain ⟨built, since, kb, origin, -⟩ := l.holds
  have axioms : d.axioms = d'.axioms := tell d (within d origin.published) d' listed
    (l.name.trans same.symm) (l.version.trans version)
  refine ⟨axioms, ?_⟩
  unfold Document.Valid
  rw [← axioms]
  exact origin.valid

/-- A generation follows the one before by the catalog of the refresh between them. -/
theorem Serving.succeeds (serving : Serving start catalog first events) {now : Nat} {c : Catalog}
    (fair : Fair catalog (events ++ [.refresh now (.ok c)])) {g : Generation}
    (current : (first.after events).holder.current = some g) :
    Succeeds c g ((first.after events).next g now c) := by
  have last : Event.refresh now (.ok c) ∈ events ++ [.refresh now (.ok c)] :=
    List.mem_append_right _ List.mem_cons_self
  have once := fair.once now c last
  have follows : Merge.Follows _ g _ c ((first.after events).merged g c) :=
    Merge.follows_ofCatalog once
  -- a document is reused only if it is valid, because the one that its entry stands for was
  have valid_of_reused : ∀ d ∈ c.documents, ∀ old, g.ontologies.get? d.name = some old →
      old.version = d.version → d.Valid := by
    intro d hd old had version
    obtain ⟨g₀, current₀, entries⟩ := serving.entries
    cases current.symm.trans current₀
    obtain ⟨d₀, lineage⟩ := entries d.name old had
    exact (lineage.same_axioms fair.versions (fun _ => mem_documents_snoc)
      (List.mem_append_right _ (mem_published last hd)) rfl version).2
  have published : ∀ d ∈ c.documents, d.Valid →
      ((first.after events).next g now c).version? d.name = some d.version := by
    intro d hd valid
    cases follows.documents d hd with
    | reused _ version same => exact (congrArg _ same).trans (congrArg some version)
    | built _ _ _ _ same => exact congrArg _ same
    | kept _ invalid _ => exact absurd valid invalid
  have malformed : ∀ d ∈ c.documents, ¬ d.Valid →
      ((first.after events).next g now c).ontologies.get? d.name =
        g.ontologies.get? d.name := by
    intro d hd invalid
    cases follows.documents d hd with
    | reused had _ same => exact same.trans had.symm
    | built _ made _ _ _ => exact absurd (KnowledgeBase.Kept.of_new made).1 invalid
    | kept _ _ same => exact same
  have rejected : ∀ r ∈ c.rejected, ((first.after events).next g now c).ontologies.get? r.name =
      g.ontologies.get? r.name := follows.rejected
  have unlisted : ∀ name, name ∉ c.listed →
      ((first.after events).next g now c).ontologies.get? name = none := follows.unlisted
  refine ⟨fun name => ⟨fun named => ?_, ?_⟩, published, malformed, rejected⟩
  · rw [Generation.names, Table.mem_keys] at named
    have listed : name ∈ c.listed := by
      by_contra absent
      rw [unlisted name absent] at named
      cases named
    rcases List.mem_append.1 listed with document | unreadable
    · obtain ⟨d, hd, rfl⟩ := List.mem_map.1 document
      by_cases valid : d.Valid
      · exact .inl ⟨d, hd, rfl, valid⟩
      · rw [malformed d hd valid] at named
        exact .inr ⟨Table.mem_keys.2 named, .inl ⟨d, hd, rfl, valid⟩⟩
    · obtain ⟨r, hr, rfl⟩ := List.mem_map.1 unreadable
      rw [rejected r hr] at named
      exact .inr ⟨Table.mem_keys.2 named, .inr ⟨r, hr, rfl⟩⟩
  · rw [Generation.names, Generation.names, Table.mem_keys, Table.mem_keys]
    rintro (⟨d, hd, rfl, valid⟩ | ⟨named, ⟨d, hd, rfl, invalid⟩ | ⟨r, hr, rfl⟩⟩)
    · have version := published d hd valid
      rw [Generation.version?, Option.map_eq_some_iff] at version
      obtain ⟨h, entry, -⟩ := version
      rw [entry]
      rfl
    · rw [malformed d hd invalid]
      exact named
    · rw [rejected r hr]
      exact named

/-- **What a refresh does**, after any fair history of refreshes and direct calls since the load. If
the source fails, so does the refresh, and nothing changes. Otherwise it ends refreshed: the next
generation follows the current one by the catalog, no knowledge base is touched, and every entry
has the lineage of one document, whose axioms are those that are published, where the name's
document can be served. -/
theorem refresh_after (loads : Loads start catalog first) :
    (Fair catalog events → ∀ now err,
      (first.after events).holder.refresh (first.after events).registry now (.error err) =
        (.error (.source err), (first.after events).holder, (first.after events).registry)) ∧
    ∀ now c, Fair catalog (events ++ [.refresh now (.ok c)]) →
      let s := first.after events
      let s' := first.after (events ++ [.refresh now (.ok c)])
      ∃ g g' summary, s.holder.current = some g ∧ s'.holder.current = some g' ∧
        s.holder.refresh s.registry now (.ok c) =
          (.ok (.refreshed summary), s'.holder, s'.registry) ∧
        Succeeds c g g' ∧ s.registry.Within s'.registry ∧
        ∀ name h, g'.ontologies.get? name = some h →
          ∃ d, Lineage start catalog first (events ++ [.refresh now (.ok c)]) name h d ∧
            ∀ d' ∈ c.documents, d'.name = name → d'.Valid → d.axioms = d'.axioms := by
  constructor
  · intro fair now err
    obtain ⟨g, current, -⟩ := (serving_after loads fair).entries
    exact refresh_failed current now err
  · intro now c fair s s'
    have last : Event.refresh now (.ok c) ∈ events ++ [.refresh now (.ok c)] :=
      List.mem_append_right _ List.mem_cons_self
    have serving := serving_after loads fair.of_snoc
    obtain ⟨g, current, -⟩ := serving.entries
    have left : s' = _ := (after_snoc first events _).trans (step_merged current serving.live now c)
    have succeeds := serving.succeeds fair current
    obtain ⟨g', current', entries⟩ := (serving_after loads fair).entries
    have next : g' = s.next g now c := by
      have same : s'.holder.current = some (s.next g now c) := by rw [left]
      exact Option.some.inj (current'.symm.trans same)
    have ended : s.holder.refresh s.registry now (.ok c) =
        (.ok (.refreshed { (s.merged g c).summary with generation := g.number + 1 }),
          s'.holder, s'.registry) := by
      rw [left]
      exact refresh_merged current serving.live now c
    rw [← next] at succeeds
    refine ⟨g, g', _, current, current', ended, succeeds, ?_, fun name h entry => ?_⟩
    · rw [left]
      exact (Merge.follows_ofCatalog (fair.once now c last)).within
    · obtain ⟨d, lineage⟩ := entries name h entry
      refine ⟨d, lineage, fun d' hd' same valid => ?_⟩
      -- a listed document is held at its version, and what has one version has the same axioms
      have version : g'.version? name = some d'.version := same ▸ succeeds.published d' hd' valid
      rw [Generation.version?, entry] at version
      exact (lineage.same_axioms fair.versions (fun _ hd => hd)
        (List.mem_append_right _ (mem_published last hd')) same (Option.some.inj version)).1

/-- A zoo with a cat. -/
def zoo : Document where
  name := "zoo"
  version := "v1"
  axioms := .ofList [.subClassOf ⟨"Cat"⟩ ⟨"Animal"⟩]

/-- An empty farm. -/
def farm : Document where
  name := "farm"
  version := "v1"
  axioms := ∅

/-- The two of them. -/
def menagerie : Catalog where
  documents := [zoo, farm]

/-- The same two once they went bad: the zoo malformed, and the farm unreadable. -/
def ruins : Catalog where
  documents := [{ zoo with version := "v2", axioms := .ofList [.subClassOf ⟨""⟩ ⟨"Animal"⟩] }]
  rejected := [{ name := "farm", error := .parse "farm.json" "" }]

/-- The zoo and the farm outlive the refresh that finds them in ruins: both keep their entries, and
the knowledge base of the zoo is the one that was built from its first version. -/
theorem menagerie_outlives_ruins :
    let events : List Event :=
      [ .refresh 1 (.ok menagerie), .call 0 (.update (.ofList [.subClassOf ⟨"Dog"⟩ ⟨"Animal"⟩]) ∅) ]
    ∃ first, Loads {} menagerie first ∧ Fair menagerie (events ++ [.refresh 2 (.ok ruins)]) ∧
      ∃ g h d, (first.after (events ++ [.refresh 2 (.ok ruins)])).holder.current = some g ∧
        "farm" ∈ g.names ∧ g.ontologies.get? "zoo" = some h ∧ h.version = "v1" ∧
        Lineage {} menagerie first (events ++ [.refresh 2 (.ok ruins)]) "zoo" h d ∧
        d.axioms = zoo.axioms := by
  intro events
  obtain ⟨first, loads⟩ := exists_loads {} (rfl : menagerie.rejected = []) (by decide +kernel)
  have fair : Fair menagerie (events ++ [.refresh 2 (.ok ruins)]) := by
    refine ⟨by decide +kernel, fun now c refreshed => ?_, by simp [events]⟩
    simp only [events, List.cons_append, List.nil_append, List.mem_cons, Event.refresh.injEq,
      Except.ok.injEq, reduceCtorEq, List.not_mem_nil, or_false, false_or] at refreshed
    rcases refreshed with ⟨-, rfl⟩ | ⟨-, rfl⟩
    · decide +kernel
    · decide +kernel
  have fair₁ : Fair menagerie ([] ++ [.refresh 1 (.ok menagerie)]) := fair.of_snoc.of_snoc
  obtain ⟨_, g₁, _, -, current₁, -, served, -⟩ := (refresh_after loads).2 1 menagerie fair₁
  obtain ⟨g, g', _, current, current', -, succeeds, -, lineages⟩ :=
    (refresh_after loads).2 2 ruins fair
  -- the call between the two refreshes leaves the generation alone
  have same : g = g₁ := Option.some.inj (current.symm.trans current₁)
  have first_zoo := served.published zoo List.mem_cons_self (by decide +kernel)
  have last_zoo := succeeds.malformed _ List.mem_cons_self (by decide +kernel)
  rw [Generation.version?, Option.map_eq_some_iff] at first_zoo
  obtain ⟨h, entry, version⟩ := first_zoo
  have entry' : g'.ontologies.get? "zoo" = some h := last_zoo.trans (same ▸ entry)
  obtain ⟨d, lineage, -⟩ := lineages "zoo" h entry'
  have axioms := (lineage.same_axioms fair.versions (fun _ hd => hd)
    (List.mem_append_left _ List.mem_cons_self) (rfl : zoo.name = "zoo") version).1
  have first_farm : "farm" ∈ g₁.names :=
    (served.names "farm").2 (.inl ⟨farm, by decide +kernel, rfl, by decide +kernel⟩)
  have last_farm : "farm" ∈ g'.names :=
    (succeeds.names "farm").2 (.inr ⟨same ▸ first_farm, .inr ⟨_, List.mem_cons_self, rfl⟩⟩)
  exact ⟨first, loads, fair, g', h, d, current', last_farm, entry', version, lineage, axioms⟩

end Service

end OntologyService
