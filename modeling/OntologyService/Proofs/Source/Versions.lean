import Std.Data.String.ToNat
import OntologyService.Proofs.Order.Listing
import OntologyService.Source.Memory

/-!
# Versions

Whoever reloads a source compares versions, and takes the axioms of a name to be the same as long
as its version is (`VersionsTell`). This holds the source in memory to it, over a whole history of
publishing, withdrawing and loading.

A version counts how often a name was published, and the count is kept with the name. While the
name stays, the count only grows, and grows whenever the axioms change (`version_of_published`). A
name that was withdrawn takes its count along, so the next one that is published under it starts
from one again: `not_versionsTell_of_republished` is such a history. Short of that, versions tell
(`versionsTell_loaded`).
-/

namespace OntologyService

/-- **Versions tell** the documents apart: those with one name and one version have the same
axioms. -/
def VersionsTell (ds : List Document) : Prop :=
  ∀ d ∈ ds, ∀ d' ∈ ds, d.name = d'.name → d.version = d'.version → d.axioms = d'.axioms

instance (ds : List Document) : Decidable (VersionsTell ds) :=
  inferInstanceAs (Decidable (∀ d ∈ ds, ∀ d' ∈ ds, _ → _ → _))

namespace MemorySource

variable {s : MemorySource} {name : String} {axioms : AxiomSet}

/-- What is done with a source. -/
inductive Step where
  | publish (name : String) (axioms : AxiomSet)
  | remove (name : String)
  | load
deriving DecidableEq

/-- The documents that the loads of a history return, one load after another. -/
def loaded (s : MemorySource) : List Step → List Document
  | [] => []
  | .load :: rest => s.load.documents ++ loaded s rest
  | .publish name axioms :: rest => loaded (s.publish name axioms) rest
  | .remove name :: rest => loaded (s.remove name) rest

/-- No name is published again once the history withdrew it. -/
def Settled (s : MemorySource) : List Step → Prop
  | [] => True
  | .load :: rest => Settled s rest
  | .publish name axioms :: rest => Settled (s.publish name axioms) rest
  | .remove name :: rest =>
    (s.publishes name = true → ∀ axioms, Step.publish name axioms ∉ rest) ∧
      Settled (s.remove name) rest

/-! ## Counting -/

/-- The version of a count. -/
def versionOf (count : Nat) : String := "v" ++ toString count

/-- Versions are equal only for equal counts. -/
theorem versionOf_injective {m n : Nat} (h : versionOf m = versionOf n) : m = n :=
  Nat.repr_injective ((String.append_right_inj "v").1 h)

/-- The documents loaded are those published, at the version of their count. -/
theorem mem_load {d : Document} : d ∈ s.load.documents ↔
    ∃ count, s.docs.get? d.name = some (count, d.axioms) ∧ d.version = versionOf count := by
  simp only [load, List.mem_map, Prod.exists]
  constructor
  · rintro ⟨name, count, axioms, listed, rfl⟩
    exact ⟨count, Table.mem_toList.1 listed, rfl⟩
  · rintro ⟨count, held, version⟩
    refine ⟨d.name, count, d.axioms, Table.mem_toList.2 held, ?_⟩
    rw [← versionOf, ← version]

theorem get?_publish_of_ne {other : String} (ne : other ≠ name) :
    (s.publish name axioms).docs.get? other = s.docs.get? other :=
  Table.get?_insert_of_ne ne _ _

/-- Publishing a name again counts once more. -/
theorem get?_publish_self {count : Nat} {old : AxiomSet}
    (held : s.docs.get? name = some (count, old)) :
    (s.publish name axioms).docs.get? name = some (count + 1, axioms) := by
  rw [publish, Table.get?_insert_self, held]

/-- A name that is not published, and is not going to be, is in no document. -/
theorem name_ne_of_absent {rest : List Step} : ∀ {s : MemorySource}, s.docs.get? name = none →
    (∀ axioms, Step.publish name axioms ∉ rest) → ∀ d ∈ s.loaded rest, d.name ≠ name := by
  induction rest with
  | nil => intro s _ _ d hd; cases hd
  | cons step rest ih =>
    intro s absent never d hd
    have never' : ∀ axioms, Step.publish name axioms ∉ rest := fun axioms later =>
      never axioms (List.mem_cons_of_mem _ later)
    cases step with
    | load =>
      rcases List.mem_append.1 hd with now | later
      · rintro rfl
        obtain ⟨count, held, -⟩ := mem_load.1 now
        rw [absent] at held
        cases held
      · exact ih absent never' d later
    | publish other axioms =>
      have ne : name ≠ other := fun e => never axioms (e ▸ List.mem_cons_self ..)
      exact ih ((get?_publish_of_ne ne).trans absent) never' d hd
    | remove other =>
      refine ih ?_ never' d hd
      by_cases e : name = other
      · exact e ▸ Table.get?_erase_self ..
      · exact (Table.get?_erase_of_ne e _).trans absent

/-- **The count of a published name** does not fall, and as long as it stays, so do the axioms. -/
theorem version_of_published {rest : List Step} : ∀ {s : MemorySource} {count : Nat}
    {axioms : AxiomSet}, s.docs.get? name = some (count, axioms) → s.Settled rest →
    ∀ d ∈ s.loaded rest, d.name = name →
      ∃ later, count ≤ later ∧ d.version = versionOf later ∧
        (later = count → d.axioms = axioms) := by
  induction rest with
  | nil => intro s count axioms _ _ d hd; cases hd
  | cons step rest ih =>
    intro s count axioms held settled d hd hname
    cases step with
    | load =>
      rcases List.mem_append.1 hd with now | later
      · obtain ⟨count', held', version⟩ := mem_load.1 now
        rw [hname, held] at held'
        cases held'
        exact ⟨count, Nat.le_refl _, version, fun _ => rfl⟩
      · exact ih held settled d later hname
    | publish other axioms' =>
      -- the count grows past `count`, so nothing is claimed of the axioms from here on
      by_cases e : name = other
      · subst e
        obtain ⟨later, grown, version, -⟩ := ih (get?_publish_self held) settled d hd hname
        exact ⟨later, Nat.le_of_succ_le grown, version, fun e => by omega⟩
      · exact ih ((get?_publish_of_ne e).trans held) settled d hd hname
    | remove other =>
      by_cases e : name = other
      · subst e
        -- the name is gone for good, so no document with it can come
        have published : s.publishes name = true := by rw [publishes, Table.contains, held]; rfl
        exact absurd hname (name_ne_of_absent (Table.get?_erase_self ..) (settled.1 published) d hd)
      · exact ih ((Table.get?_erase_of_ne e _).trans held) settled.2 d hd hname

/-- **Versions tell** over any history in which no name is published again after it was
withdrawn. -/
theorem versionsTell_loaded {steps : List Step} : ∀ {s : MemorySource}, s.Settled steps →
    VersionsTell (s.loaded steps) := by
  induction steps with
  | nil => intro s _ d hd; cases hd
  | cons step rest ih =>
    intro s settled
    cases step with
    | publish name axioms => exact ih settled
    | remove name => exact ih settled.2
    | load =>
      -- a document of this load, and one with its name and version of a later load
      have ahead : ∀ d ∈ s.load.documents, ∀ d' ∈ s.loaded rest, d'.name = d.name →
          d'.version = d.version → d'.axioms = d.axioms := by
        intro d hd d' hd' name version
        obtain ⟨count, held, first⟩ := mem_load.1 hd
        obtain ⟨later, -, second, same⟩ :=
          version_of_published held (show s.Settled rest from settled) d' hd' name
        exact same (versionOf_injective (second.symm.trans (version.trans first)))
      intro d hd d' hd' name version
      rcases List.mem_append.1 hd with now | later
      · rcases List.mem_append.1 hd' with now' | later'
        · obtain ⟨count, held, -⟩ := mem_load.1 now
          obtain ⟨count', held', -⟩ := mem_load.1 now'
          rw [name, held', Option.some.injEq, Prod.mk.injEq] at held
          exact held.2.symm
        · exact (ahead d now d' later' name.symm version.symm).symm
      · rcases List.mem_append.1 hd' with now' | later'
        · exact ahead d' now' d later name version
        · exact ih settled d later d' later' name version

/-- A name that comes and stays, under one set of axioms and then another, beside one that goes. -/
theorem versionsTell_of_kept :
    let cat := Axiom.subClassOf ⟨"Cat"⟩ ⟨"Animal"⟩
    let steps : List Step :=
      [ .publish "zoo" (.ofList [cat]), .publish "farm" ∅, .load, .remove "farm",
        .publish "zoo" ∅, .load, .remove "zoo", .load ]
    Settled {} steps ∧
      ((({} : MemorySource).loaded steps).map Document.version = ["v1", "v1", "v2"]) ∧
      VersionsTell (({} : MemorySource).loaded steps) := by
  intro cat steps
  have settled : Settled {} steps := by simp [steps, Settled]
  exact ⟨settled, by decide +kernel, versionsTell_loaded settled⟩

/-- **A version can come back** with other axioms: where a name is withdrawn and published again
between two loads, both loads return it as the first version. -/
theorem not_versionsTell_of_republished :
    ¬ VersionsTell (({} : MemorySource).loaded
      [ .publish "zoo" (.ofList [.subClassOf ⟨"A"⟩ ⟨"B"⟩]), .load, .remove "zoo",
        .publish "zoo" (.ofList [.subClassOf ⟨"A"⟩ ⟨"C"⟩]), .load ]) := by
  decide +kernel

end MemorySource

end OntologyService
