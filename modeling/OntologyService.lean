import OntologyService.Admission.Front
import OntologyService.Admission.Gate
import OntologyService.Client.Address
import OntologyService.Client.Encoding
import OntologyService.Client.Remote
import OntologyService.CommandLine.Control
import OntologyService.CommandLine.Daemon
import OntologyService.CommandLine.Grammar
import OntologyService.CommandLine.Usage
import OntologyService.CommandLine.Words
import OntologyService.Configuration.Basic
import OntologyService.Configuration.Document
import OntologyService.Explanation.Generator
import OntologyService.Explanation.Justification
import OntologyService.Explanation.Relevance
import OntologyService.Failure.Reasoning
import OntologyService.Failure.Service
import OntologyService.Http.Message
import OntologyService.Http.Percent
import OntologyService.Json.Basic
import OntologyService.Json.Decode
import OntologyService.Json.Printer
import OntologyService.Json.Reader
import OntologyService.KnowledgeBase.Basic
import OntologyService.KnowledgeBase.Feed
import OntologyService.KnowledgeBase.Audience
import OntologyService.Main
import OntologyService.Ontology.Axiom
import OntologyService.Ontology.Entity
import OntologyService.Ontology.Expression
import OntologyService.Order.Positions
import OntologyService.Order.Ranked
import OntologyService.Order.SortedSet
import OntologyService.Order.Table
import OntologyService.Reasoner.Basic
import OntologyService.Reasoner.Query
import OntologyService.Routing.KnowledgeBaseRoutes
import OntologyService.Routing.Pattern
import OntologyService.Routing.Router
import OntologyService.Scheduling.Scheduler
import OntologyService.Scheduling.Workshop
import OntologyService.Server.Lifecycle
import OntologyService.Source.Catalog
import OntologyService.Source.Directory
import OntologyService.Source.FileTree
import OntologyService.Source.Memory
import OntologyService.State.Holder
import OntologyService.State.Registry
import OntologyService.Taxonomy.Basic
import OntologyService.Taxonomy.Hierarchy
import OntologyService.Taxonomy.Tally
import OntologyService.Text.Double
import OntologyService.Text.Numeral
import OntologyService.Text.Utf8
import OntologyService.Text.WhiteSpace
import OntologyService.Toml.Basic
import OntologyService.Toml.Quoted
import OntologyService.Toml.Reader
import OntologyService.Toml.Scalar
import OntologyService.Wire.Messages
import OntologyService.Wire.Ontology
import OntologyService.Proofs.Order.Listing
import OntologyService.Proofs.Taxonomy.Supports
import OntologyService.Proofs.Taxonomy.Memo
import OntologyService.Proofs.Reasoner.History
import OntologyService.Proofs.Semantics.Interpretation
import OntologyService.Proofs.Semantics.NormalForm
import OntologyService.Proofs.Semantics.Refutation
import OntologyService.Proofs.Semantics.Canonical
import OntologyService.Proofs.Reasoner.Decision
import OntologyService.Proofs.Taxonomy.Hierarchy
import OntologyService.Proofs.Semantics.Locality
import OntologyService.Proofs.Explanation.Relevance
import OntologyService.Proofs.Order.Places
import OntologyService.Proofs.Explanation.Contraction
import OntologyService.Proofs.Explanation.HittingSet
import OntologyService.Proofs.Explanation.Generator
import OntologyService.Proofs.Reasoner.Queries
import OntologyService.Proofs.KnowledgeBase.History
import OntologyService.Proofs.Source.Versions
import OntologyService.Proofs.State.Merge
import OntologyService.Proofs.State.History
import OntologyService.Proofs.KnowledgeBase.Answers
import OntologyService.Proofs.Server.Cycles
import OntologyService.KnowledgeBase.Sharing
import OntologyService.Proofs.KnowledgeBase.Steps
import OntologyService.Proofs.KnowledgeBase.Sharing
import OntologyService.Proofs.KnowledgeBase.Turns
import OntologyService.Proofs.Admission.Counting
import OntologyService.Proofs.Routing.Lookup
import OntologyService.Proofs.Admission.Coverage
import OntologyService.Proofs.Text.Utf8
import OntologyService.Proofs.Text.Numeral
import OntologyService.Proofs.Http.Percent
import OntologyService.Proofs.Json.Reading
import OntologyService.Proofs.Json.Decoding
import OntologyService.Proofs.Json.Rearrangement
import OntologyService.Proofs.Wire.Exact
import OntologyService.Proofs.Wire.Shapes
import OntologyService.Proofs.Wire.RoundTrip
import OntologyService.Proofs.Wire.Nesting
import OntologyService.Proofs.Routing.Operations
import OntologyService.Proofs.Server.Agreement
import OntologyService.Proofs.Taxonomy.Nodes
import OntologyService.Proofs.Reasoner.Hierarchy
import OntologyService.Proofs.KnowledgeBase.Reads
import OntologyService.Proofs.KnowledgeBase.Limits
import OntologyService.Proofs.State.Captured
import OntologyService.State.Overlap
import OntologyService.Proofs.State.Overlap
import OntologyService.Proofs.State.Closing
import OntologyService.Proofs.Explanation.Revisions
import OntologyService.Proofs.Semantics.Expansion
import OntologyService.Proofs.KnowledgeBase.Afresh
import OntologyService.Proofs.Reasoner.Refusals
import OntologyService.Proofs.KnowledgeBase.Undoing
import OntologyService.Proofs.State.Accounting
import OntologyService.Proofs.KnowledgeBase.Notices
import OntologyService.Proofs.Server.Effects
import OntologyService.Proofs.Scheduling.Life
import OntologyService.Proofs.Scheduling.Registry
import OntologyService.Proofs.Scheduling.Workshop
import OntologyService.Proofs.Toml.Quotation
import OntologyService.Proofs.Toml.Document
import OntologyService.Proofs.Source.FileTree
import OntologyService.Proofs.Configuration.RoundTrip
import OntologyService.Proofs.Client.Encoding
import OntologyService.Proofs.Client.Addressing
import OntologyService.Proofs.Source.Directory
import OntologyService.Proofs.Taxonomy.Representation
import OntologyService.Proofs.Explanation.Saturation
import OntologyService.Proofs.Explanation.Expansions
