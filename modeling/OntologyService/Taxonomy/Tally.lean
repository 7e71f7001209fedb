import OntologyService.Order.Table
import OntologyService.Ontology.Entity

/-!
# Counted supports

Several axioms may state one and the same fact: that a class lies below another, that two classes
are disjoint, that an individual is in a class. A `Tally` counts for each key how many axioms
support it, and a `Links` table keeps one tally of classes per source. A key that loses its last
support is gone, and so is a source that loses its last link: no count is ever zero and no tally
is kept empty.
-/

namespace OntologyService

/-- How many supports each key has. -/
abbrev Tally (κ : Type) [Ranked κ] := Table κ Nat

/-- For each source the classes it is linked to, with the number of supports of each link. -/
abbrev Links (κ : Type) [Ranked κ] := Table κ (Tally ClassName)

namespace Tally

variable {κ : Type} [Ranked κ]

/-- One support more. -/
def increment (t : Tally κ) (k : κ) : Tally κ := t.insert k ((t.get? k).getD 0 + 1)

/-- One support less; the last one takes the key with it. -/
def decrement (t : Tally κ) (k : κ) : Tally κ :=
  match t.get? k with
  | none => t
  | some 0 | some 1 => t.erase k
  | some (n + 2) => t.insert k (n + 1)

end Tally

namespace Links

variable {κ : Type} [Ranked κ]

/-- The classes that a source is linked to, with their supports. -/
def tally (ls : Links κ) (k : κ) : Tally ClassName := (ls.get? k).getD ∅

/-- The classes that a source is linked to. -/
def targets (ls : Links κ) (k : κ) : List ClassName := (ls.tally k).keys

/-- Whether the source is linked to the class. -/
def linked (ls : Links κ) (k : κ) (c : ClassName) : Bool := (ls.tally k).contains c

/-- One support more for a link. -/
def support (ls : Links κ) (k : κ) (c : ClassName) : Links κ :=
  ls.insert k ((ls.tally k).increment c)

/-- One support less for a link; a source without links is dropped. -/
def retract (ls : Links κ) (k : κ) (c : ClassName) : Links κ :=
  match ls.get? k with
  | none => ls
  | some t => if (t.decrement c).isEmpty then ls.erase k else ls.insert k (t.decrement c)

/-- The number of links, each counted once. -/
def count (ls : Links κ) : Nat := ls.values.foldl (fun n inner => n + inner.size) 0

end Links

end OntologyService
