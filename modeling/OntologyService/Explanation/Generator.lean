import OntologyService.Explanation.Justification
import OntologyService.Explanation.Relevance

/-!
# Explaining entailed statements

A `Generator` answers which justifications a statement has, and remembers its answers. An answer
is filed under the statement and the limit that is in force, together with the revision of the
reasoner that it was worked out for; it is used again only at that revision. A disposed generator
refuses.
-/

namespace OntologyService

/-- What a caller's limit on the number of justifications means. -/
inductive LimitPolicy where
  /-- The caller's limit holds; `0` asks for all. -/
  | forward
  /-- Every caller gets all. -/
  | unbounded
deriving DecidableEq

namespace LimitPolicy

/-- The limit in force for a caller's limit. -/
def effective (p : LimitPolicy) (requested : Nat) : Nat :=
  match p with
  | forward => requested
  | unbounded => 0

/-- The name by which configurations refer to the policy. -/
def name : LimitPolicy → String
  | forward => "forward"
  | unbounded => "unbounded"

/-- The policy with the name. -/
def ofName? (s : String) : Option LimitPolicy :=
  [forward, unbounded].find? fun p => decide (p.name = s)

end LimitPolicy

/-- Works out justifications and remembers them. -/
structure Generator where
  policy : LimitPolicy
  /-- Answers by statement and limit in force, each with its revision. -/
  memo : Table (Axiom × Nat) (Nat × Explanations) := ∅
  disposed : Bool := false

namespace Generator

/-- An answer that still stands at the revision. -/
def remembered? (g : Generator) (revision : Nat) (key : Axiom × Nat) : Option Explanations :=
  match g.memo.get? key with
  | some (at', es) => if at' = revision then some es else none
  | none => none

/-- Works the justifications out. -/
def work (r : Reasoner) (a : Axiom) (limit : Nat) : Except ReasoningError Explanations :=
  let goal := ClassExpression.ofAxiom a
  Search.run { ontology := r.ontology, goal, axioms := r.relevant goal, limit }

/-- The justifications of a statement, at most so many; none if it is not entailed. -/
def explain (g : Generator) (r : Reasoner) (a : Axiom) (requested : Nat) :
    Except ReasoningError Explanations × Generator :=
  if g.disposed then (.error (.closed r.ontology), g)
  else
    match a.validate with
    | .error e => (.error e, g)
    | .ok () =>
      let limit := g.policy.effective requested
      match g.remembered? r.revision (a, limit) with
      | some es => (.ok es, g)
      | none =>
        match work r a limit with
        | .error e => (.error e, g)
        | .ok es => (.ok es, { g with memo := g.memo.insert (a, limit) (r.revision, es) })

/-- Forgets every answer. -/
def invalidate (g : Generator) : Generator := { g with memo := ∅ }

/-- Forgets every answer and refuses from now on. -/
def dispose (g : Generator) : Generator := { g with memo := ∅, disposed := true }

end Generator

end OntologyService
