import Dashboards.History.Registry
import Dashboards.History.Table
import Dashboards.Pool
import Dashboards.Service.State
import Dashboards.Proofs.History.Registry
import Dashboards.Proofs.History.Traffic
import Dashboards.Proofs.Patch.Chain
import Dashboards.Proofs.History.Ledger
import Dashboards.Proofs.Json.Equality
import Dashboards.Proofs.Policy.Documents
import Dashboards.Proofs.History.Guardrails
import Dashboards.Proofs.Json.Redaction
import Dashboards.Proofs.Patch.Redaction
import Dashboards.Proofs.Policy.Redaction
import Dashboards.Proofs.Patch.Confinement
import Dashboards.Proofs.Json.Reader
import Dashboards.Proofs.Patch.Places
import Dashboards.Proofs.Policy.Items
import Dashboards.Proofs.Policy.Guards
import Dashboards.Proofs.Patch.Steps
import Dashboards.Proofs.Patch.Tabs
import Dashboards.Proofs.Json.Strictness
import Dashboards.Proofs.Patch.Sections
import Dashboards.Proofs.History.Contract
import Dashboards.Proofs.Policy.Objections
import Dashboards.Proofs.History.Preview
import Dashboards.Proofs.History.Writers
import Dashboards.Proofs.Decimal.Shortest
import Dashboards.Proofs.Json.Line
import Dashboards.Proofs.History.Interchange
import Dashboards.Proofs.Policy.Looser
import Dashboards.Proofs.Patch.Composition
import Dashboards.Proofs.Document.Structure
import Dashboards.Proofs.History.Validity
import Dashboards.Proofs.Json.Grammar
import Dashboards.Proofs.Json.Lexemes
import Dashboards.Proofs.Json.ObjectText
import Dashboards.Proofs.Proposal.Embedded
import Dashboards.Proofs.Metrics.Aggregate
import Dashboards.Proofs.Insights.Bottleneck
import Dashboards.Proofs.Dialogue
import Dashboards.Proofs.Service.Errands
import Dashboards.Proofs.Service.Edits
import Dashboards.Proofs.Service.Failures
import Dashboards.Proofs.RateLimit
import Dashboards.Proofs.Patch.Additions
import Dashboards.Proofs.Service.Envelopes
import Dashboards.Proofs.Metrics.Range
import Dashboards.Proofs.Integrity.Range
import Dashboards.Proofs.Json.Limits
import Dashboards.Proofs.Service.Verdicts
import Dashboards.Proofs.Json.Reordered
import Dashboards.Proofs.Patch.Frames
import Dashboards.Proofs.Patch.Inverses
import Dashboards.Proofs.Patch.Independence
import Dashboards.Proofs.Pointer.Text
import Dashboards.Proofs.Policy.BlockedPaths
import Dashboards.Proofs.Patch.Leftovers
import Dashboards.Proofs.Patch.Endings
import Dashboards.Proofs.Pointer.Locations
import Dashboards.Proofs.Json.Equivalence
import Dashboards.Proofs.Policy.Renaming
import Dashboards.Proofs.Patch.Wire
import Dashboards.Proofs.Proposal.Exchange
import Dashboards.Proofs.Metrics.Finite
import Dashboards.Proofs.Integrity.Totals
import Dashboards.Proofs.Metrics.Ratios
import Dashboards.Proofs.Integrity.Gate
import Dashboards.Proofs.RateLimit.Retry
import Dashboards.Proofs.Insights.Composition
import Dashboards.Proofs.Insights.Comparisons
import Dashboards.Proofs.Document.NonFinite
import Dashboards.Proofs.Document.Sizes
