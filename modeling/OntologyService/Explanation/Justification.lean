import Std.Data.TreeSet
import OntologyService.Order.Positions
import OntologyService.Order.Table
import OntologyService.Reasoner.Basic

/-!
# Justifications

A justification is a set of axioms that entails a statement while no smaller subset does. One is
found by contraction: drop each axiom in turn, and put it back if the statement is lost without
it. All of them are found by the hitting-set tree: a node is a set of removed axioms, its path,
together with a justification that survives the removal, its label; each axiom of the label
extends the path to a child.

Three things keep the tree small. A path is never expanded twice. A path that contains a closed
path, one after whose removal nothing entails the statement any more, is not expanded. And a child
takes over a justification found earlier if one is disjoint from its path, instead of searching.

Paths and labels are sets of axioms of the task, and there may be many of them, so a search keeps
the positions of the axioms in the listing of the task's axioms. `Search` is the state between two
expansions and `expandAll` runs it. There is one expansion per set of removed axioms at most, which
is where the bound `2 ^ n` comes from.
-/

namespace OntologyService

/-- A minimal set of axioms that entails a statement. -/
abbrev Justification := AxiomSet

/-- Justifications of one statement. -/
abbrev Explanations := SortedSet Justification

namespace Justification

/-- Whether the axioms leave no instance to the expression, decided by an engine of their own. -/
def refutes (ontology : String) (goal : ClassExpression) (axioms : AxiomSet) :
    Except ReasoningError Bool :=
  match Reasoner.ofSet ontology axioms with
  | .error e => .error e
  | .ok r =>
    match (r.prepare goal).isSatisfiable goal with
    | .ok b => .ok (!b)
    | .error e => .error e

/-- Drops each listed axiom from `kept`, unless the goal would be lost. -/
def contract (ontology : String) (goal : ClassExpression) (kept : AxiomSet) :
    List Axiom → Except ReasoningError Justification
  | [] => .ok kept
  | a :: as => do
    if ← refutes ontology goal (kept.erase a) then contract ontology goal (kept.erase a) as
    else contract ontology goal kept as

/-- A justification within the axioms, or none if they do not refute the goal. -/
def find? (ontology : String) (goal : ClassExpression) (axioms : AxiomSet) :
    Except ReasoningError (Option Justification) := do
  if ← refutes ontology goal axioms then
    let j ← contract ontology goal axioms axioms.toList
    return some j
  else return none

end Justification

/-- What a search works on: the goal, the axioms it may use, and how many justifications are
wanted, where `0` asks for all. -/
structure Search.Task where
  ontology : String
  goal : ClassExpression
  axioms : AxiomSet
  limit : Nat

/-- A search between two expansions. -/
structure Search where
  /-- The justifications found, each with the positions of its axioms. -/
  found : Table Justification Positions
  /-- Paths after whose removal the goal is lost. -/
  closed : List Positions := []
  /-- Every path met so far, by its binary form. -/
  visited : Std.TreeSet Nat := ∅
  /-- Nodes still to be expanded, each a path with its label, the next one first. -/
  pending : List (Positions × Positions) := []

namespace Search

/-- Whether as many justifications as wanted are found. -/
def full (task : Task) (s : Search) : Bool :=
  decide (0 < task.limit) && decide (task.limit ≤ s.found.size)

/-- Whether the path contains a closed one. -/
def hopeless (s : Search) (path : Positions) : Bool := s.closed.any fun c => c.subset path

/-- The label of the first justification found that the path leaves whole. -/
def reusable? (s : Search) (path : Positions) : Option Positions :=
  (s.found.toList.find? fun e => e.2.disjoint path).map Prod.snd

/-- Meets a path for the first time: labels it, or closes it. -/
def label (task : Task) (s : Search) (path : Positions) : Except ReasoningError Search :=
  match s.reusable? path with
  | some known => .ok { s with pending := (path, known) :: s.pending }
  | none => do
    match ← Justification.find? task.ontology task.goal (task.axioms.dropAt path) with
    | some j =>
      let positions := task.axioms.positions j
      return { s with
        found := s.found.insert j positions, pending := (path, positions) :: s.pending }
    | none => return { s with closed := path :: s.closed }

/-- Extends a path by each listed axiom in turn. -/
def extend (task : Task) (path : Positions) (s : Search) : List Nat → Except ReasoningError Search
  | [] => .ok s
  | i :: is => do
    if s.full task then return s
    let next := path.insert i
    if s.visited.contains next.bits then extend task path s is
    else
      let s := { s with visited := s.visited.insert next.bits }
      if s.hopeless next then extend task path s is
      else
        let s ← s.label task next
        extend task path s is

/-- Expands pending nodes, the latest first, at most so many times. -/
def expandAll (task : Task) : Nat → Search → Except ReasoningError Explanations
  | 0, s => .ok s.found.keySet
  | n + 1, s =>
    match s.pending with
    | [] => .ok s.found.keySet
    | (path, label) :: rest => do
      let s ← extend task path { s with pending := rest } (label.below task.axioms.size)
      if s.full task then return s.found.keySet
      expandAll task n s

/-- The justifications of a task. -/
def run (task : Task) : Except ReasoningError Explanations := do
  match ← Justification.find? task.ontology task.goal task.axioms with
  | none => return ∅
  | some root =>
    let positions := task.axioms.positions root
    expandAll task (Nat.pow 2 task.axioms.size)
      { found := Table.insert root positions ∅, pending := [(∅, positions)] }

end Search

end OntologyService
