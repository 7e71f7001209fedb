import OntologyService.KnowledgeBase.Basic

/-!
# Knowledge bases that are shared

Successive generations of the service's state share the knowledge bases that did not change, and a
generation that somebody still looks at keeps its own. A `Registry` holds every knowledge base
once, and generations refer to them by `BaseId`. Numbers are given out in order and never again,
so two generations have the same knowledge base exactly if they have the same number.
-/

namespace OntologyService

/-- The number of a knowledge base in a registry. -/
abbrev BaseId := Nat

/-- Every knowledge base in use, by number. -/
structure Registry where
  bases : Array KnowledgeBase := #[]

namespace Registry

/-- The knowledge base of a number. -/
def get? (r : Registry) (id : BaseId) : Option KnowledgeBase := r.bases[id]?

/-- Takes in a knowledge base under the next number. -/
def add (r : Registry) (kb : KnowledgeBase) : BaseId × Registry :=
  (r.bases.size, { r with bases := r.bases.push kb })

/-- Puts a knowledge base in the place of its earlier self. -/
def set (r : Registry) (id : BaseId) (kb : KnowledgeBase) : Registry :=
  { r with bases := r.bases.setIfInBounds id kb }

/-- Closes a knowledge base. -/
def close (r : Registry) (id : BaseId) : Registry :=
  match r.get? id with
  | some kb => r.set id kb.close
  | none => r

end Registry

end OntologyService
