import BackendRouting.Config.File
import BackendRouting.Config.Json
import BackendRouting.Proofs.Built
import BackendRouting.Proofs.History
import BackendRouting.Proofs.Loading
import BackendRouting.Proofs.Viable
import BackendRouting.Rule.Definition
import BackendRouting.Rule.Report
import BackendRouting.Proofs.Tiling
import BackendRouting.Proofs.Independence
import BackendRouting.Proofs.Refusal
import BackendRouting.Proofs.Targets
import BackendRouting.Proofs.Relevance
import BackendRouting.Proofs.Rejection
import BackendRouting.Proofs.Listing
import BackendRouting.Proofs.Spacing
import BackendRouting.Proofs.Reporting
import BackendRouting.Proofs.Ordering
import BackendRouting.Proofs.Additions
import BackendRouting.Proofs.Position
import BackendRouting.Proofs.Concatenation
import BackendRouting.Proofs.Precedence
import BackendRouting.Proofs.Marker
import BackendRouting.Proofs.Acceptance
import BackendRouting.Proofs.RoundTrip
