import QueryGraph.Json.Reader
import QueryGraph.Json.Writer
import QueryGraph.Parser
import QueryGraph.Proofs.Statements
import QueryGraph.Query.Binary
import QueryGraph.Query.Equality
import QueryGraph.Query.Export
import QueryGraph.Query.Lowering
import QueryGraph.Session
import QueryGraph.Proofs.References
import QueryGraph.Proofs.Meaning
import QueryGraph.Proofs.Grammar
import QueryGraph.Proofs.Parsing
import QueryGraph.Proofs.Lexing
import QueryGraph.Proofs.Rounding
import QueryGraph.Proofs.Numerals
import QueryGraph.Proofs.Fragments
import QueryGraph.Proofs.ReadBack
import QueryGraph.Proofs.Codec
import QueryGraph.Proofs.Placeholders
import QueryGraph.Proofs.Failures
import QueryGraph.Proofs.Derivations
import QueryGraph.Proofs.Unambiguity
import QueryGraph.Proofs.Acceptance
import QueryGraph.Proofs.Builders
import QueryGraph.Proofs.FanOut
import QueryGraph.Proofs.Interleaving
import QueryGraph.Proofs.Lowering
import QueryGraph.Proofs.Effects
import QueryGraph.Proofs.Isolation
import QueryGraph.Proofs.Memory
import QueryGraph.Proofs.Unreferenced
import QueryGraph.Proofs.Size
import QueryGraph.Proofs.Trimming
import QueryGraph.Proofs.Placement
import QueryGraph.Proofs.Comparison
import QueryGraph.Proofs.Wording
import QueryGraph.Proofs.Legibility
import QueryGraph.Proofs.Determinacy
import QueryGraph.Proofs.TopLevel
import QueryGraph.Proofs.Truncation
import QueryGraph.Proofs.Canonical
import QueryGraph.Proofs.EarliestError
import QueryGraph.Proofs.Literals
import QueryGraph.Proofs.OpenScope
import QueryGraph.Proofs.Spans
import QueryGraph.Proofs.Persistence
import QueryGraph.Proofs.IntegerLiterals
import QueryGraph.Proofs.JsonReading
import QueryGraph.Proofs.Export
import QueryGraph.Proofs.Calls
