import ToolCatalog.Main
import ToolCatalog.Proofs.Outcome
import ToolCatalog.Proofs.Schema.Position
import ToolCatalog.Proofs.Value.Induction
import ToolCatalog.Proofs.Schema.Merging
import ToolCatalog.Proofs.Schema.NormalForm
import ToolCatalog.Proofs.Schema.References
import ToolCatalog.Proofs.Schema.Failure
import ToolCatalog.Proofs.Schema.Approximation
import ToolCatalog.Proofs.Schema.CycleGuard
import ToolCatalog.Proofs.Schema.Hereditary
import ToolCatalog.Proofs.Operation.Assembly
import ToolCatalog.Proofs.Catalog.Exclusion
import ToolCatalog.Proofs.Schema.Prune
import ToolCatalog.Proofs.Schema.Required
import ToolCatalog.Proofs.Schema.Pruning
import ToolCatalog.Proofs.Schema.ExcludingEarly
import ToolCatalog.Proofs.Schema.Pruned
import ToolCatalog.Proofs.Catalog.Accounting
import ToolCatalog.Proofs.Operation.Alignment
import ToolCatalog.Proofs.Schema.Folding
import ToolCatalog.Proofs.Schema.Gathering
import ToolCatalog.Proofs.Schema.Regrouping
import ToolCatalog.Proofs.Schema.LeftOut
import ToolCatalog.Proofs.Schema.Contributing
import ToolCatalog.Proofs.Operation.Declarations
import ToolCatalog.Proofs.Operation.Skipping
import ToolCatalog.Proofs.Catalog.BestEffort
import ToolCatalog.Proofs.Operation.Requiredness
import ToolCatalog.Proofs.Operation.Survival
import ToolCatalog.Proofs.Json.Reader
import ToolCatalog.Proofs.Document.Loading
import ToolCatalog.Proofs.Operation.Provenance
import ToolCatalog.Proofs.Operation.Uniqueness
import ToolCatalog.Proofs.Schema.Visible
import ToolCatalog.Proofs.Operation.BodyProperties
import ToolCatalog.Proofs.Value.Rearranged
import ToolCatalog.Proofs.Operation.Rearranging
import ToolCatalog.Proofs.Operation.Overriding
import ToolCatalog.Proofs.Value.Pointwise
import ToolCatalog.Proofs.Schema.Spelling
import ToolCatalog.Proofs.Schema.Propertywise
import ToolCatalog.Proofs.Operation.Nullability
import ToolCatalog.Proofs.Value.Reordered
import ToolCatalog.Proofs.Schema.Uniting
import ToolCatalog.Proofs.Schema.KeyOrder
import ToolCatalog.Proofs.Schema.Reordering
import ToolCatalog.Proofs.Schema.Wrapping
import ToolCatalog.Proofs.Schema.Concrete
import ToolCatalog.Proofs.Schema.Locality
import ToolCatalog.Proofs.Operation.Isolation
import ToolCatalog.Proofs.Number.Numeral
import ToolCatalog.Proofs.Pointer
import ToolCatalog.Proofs.Schema.Termination
import ToolCatalog.Proofs.Schema.WellShaped
import ToolCatalog.Proofs.Value.Field
import ToolCatalog.Proofs.Tool.Wire
import ToolCatalog.Proofs.Schema.Tracing
import ToolCatalog.Proofs.Value.Stacked
import ToolCatalog.Proofs.Schema.Beside
import ToolCatalog.Proofs.Schema.Composing
import ToolCatalog.Proofs.Schema.Commuting
import ToolCatalog.Proofs.Schema.Overlaying
import ToolCatalog.Proofs.Document.Substitution
import ToolCatalog.Proofs.Operation.Description
import ToolCatalog.Proofs.Schema.Placing
import ToolCatalog.Proofs.Schema.Naming
import ToolCatalog.Proofs.Schema.Searching
