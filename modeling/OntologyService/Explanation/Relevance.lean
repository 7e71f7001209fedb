import OntologyService.Reasoner.Basic

/-!
# The axioms that can matter to a statement

An axiom is connected to a signature if it mentions an entity of it, and a connected axiom brings
its own entities into the signature. Starting from the entities of a statement and the two
reserved classes, `relevant` collects the axioms connected to it, however long the chain. In a
consistent ontology no other axiom takes part in an entailment of the statement. Inconsistency can
stem from anywhere, so an inconsistent ontology is relevant as a whole.
-/

namespace OntologyService

namespace Relevance

/-- Whether the axiom mentions an entity of the signature. -/
def touches (signature : SortedSet Entity) (a : Axiom) : Bool :=
  a.mentioned.any fun e => decide (e ∈ signature)

/-- What one pass over some axioms leaves: the signature met so far, the axioms it connects, and
the axioms passed by. -/
structure Pass where
  signature : SortedSet Entity
  taken : AxiomSet
  skipped : List Axiom := []

/-- One pass: each axiom is tested against the signature as it has grown up to there. -/
def pass (p : Pass) : List Axiom → Pass
  | [] => p
  | a :: as =>
    if touches p.signature a then
      pass { p with
        signature := a.mentioned.foldl (fun s e => s.insert e) p.signature
        taken := p.taken.insert a } as
    else pass { p with skipped := p.skipped ++ [a] } as

/-- Passes over what the last pass left out, until a pass takes nothing. Each pass but the last
takes an axiom, so there are at most as many as axioms, and one more. -/
def passes : Nat → SortedSet Entity → AxiomSet → List Axiom → AxiomSet
  | 0, _, taken, _ => taken
  | n + 1, signature, taken, rest =>
    let p := pass { signature, taken } rest
    if p.skipped.length = rest.length then taken
    else passes n p.signature p.taken p.skipped

/-- The axioms of a list connected to a signature. -/
def connected (signature : SortedSet Entity) (axioms : List Axiom) : AxiomSet :=
  passes axioms.length signature ∅ axioms

/-- The signature that a statement starts from. -/
def seed (e : ClassExpression) : SortedSet Entity :=
  (e.signature.insert (.ofClass ClassName.thing)).insert (.ofClass ClassName.nothing)

end Relevance

/-- The axioms of a reasoner that can matter to a statement. -/
def Reasoner.relevant (r : Reasoner) (e : ClassExpression) : AxiomSet :=
  if r.isConsistent then Relevance.connected (Relevance.seed e) r.axioms.toList else r.axioms

end OntologyService
