import StripsReach.Files.Tree
import StripsReach.Main
import StripsReach.Proofs.Graph.Agreement
import StripsReach.Proofs.Graph.Expansion
import StripsReach.Proofs.Graph.Independence
import StripsReach.Proofs.Graph.RelaxedExpansion
import StripsReach.Proofs.Graph.OrderIndependence
import StripsReach.Proofs.Graph.Monotonicity
import StripsReach.Proofs.Graph.UnitCosts
import StripsReach.Proofs.Types.Reached
import StripsReach.Proofs.Types.Supertypes
import StripsReach.Proofs.Types.Placement
import StripsReach.Proofs.Catalog.Closing
import StripsReach.Proofs.Catalog.Cycles
import StripsReach.Proofs.Catalog.Membership
import StripsReach.Proofs.Catalog.Flattening
import StripsReach.Proofs.Grounding.Actions
import StripsReach.Proofs.SExpr.Writing
import StripsReach.Proofs.Separation
import StripsReach.Proofs.Domain.Sections
import StripsReach.Proofs.Problem.Sections
import StripsReach.Proofs.Text.Boundaries
import StripsReach.Proofs.SExpr.Spelling
import StripsReach.Proofs.Conjunction.Writing
import StripsReach.Proofs.State.Writing
import StripsReach.Proofs.Task.Arguments
import StripsReach.Proofs.Graph.Endings
import StripsReach.Proofs.Types.Declarations
import StripsReach.Proofs.Schema.Writing
import StripsReach.Proofs.Domain.Definitions
import StripsReach.Proofs.Grounding.Pruning
import StripsReach.Proofs.Catalog.Removal
import StripsReach.Proofs.Grounding.Atoms
import StripsReach.Proofs.Grounding.Counting
import StripsReach.Proofs.Report.Mutexes
import StripsReach.Proofs.Grounding.Renaming
import StripsReach.Proofs.TypedList.Hyphens
import StripsReach.Proofs.State.Operations
import StripsReach.Proofs.SExpr.Front
import StripsReach.Proofs.Types.Ancestors
