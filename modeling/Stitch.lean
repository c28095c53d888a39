import Stitch.Files.Tree
import Stitch.Main
import Stitch.Proofs.Dependency.Mediation
import Stitch.Proofs.Merge.Assembly
import Stitch.Proofs.Search
import Stitch.Store.Memory
import Stitch.Proofs.Dependency.Levels
import Stitch.Proofs.Dependency.Justification
import Stitch.Proofs.Dependency.NearestWins
import Stitch.Proofs.Dependency.Dependents
import Stitch.Proofs.Dependency.LaterPublications
import Stitch.Proofs.Merge.InputOrder
import Stitch.Proofs.Merge.Survival
import Stitch.Proofs.Merge.Blocks
import Stitch.Proofs.Version.Transitivity
import Stitch.Proofs.Dependency.Snapshot
import Stitch.Proofs.Store.Directory
import Stitch.Proofs.Dependency.Termination
import Stitch.Proofs.Store.Memory
import Stitch.Proofs.Store.Repository
import Stitch.Proofs.Store.Integrity
import Stitch.Proofs.CallGraph.Canonical
import Stitch.Proofs.MethodUri.Grammar
import Stitch.Proofs.Dependency.Ingestion
import Stitch.Proofs.Dependency.Linked
import Stitch.Proofs.CallGraph.History
import Stitch.Proofs.Merge.Depth
import Stitch.Proofs.Merge.Fallback
import Stitch.Proofs.Dependency.RevisionGraph
import Stitch.Proofs.Store.Health
import Stitch.Proofs.Analysis.Run
import Stitch.Proofs.Command.Agreement
import Stitch.Proofs.Merge.NearestTarget
import Stitch.Proofs.Dependency.HighestVersion
import Stitch.Proofs.CallGraph.Ends
import Stitch.Proofs.Dependency.WaysBack
import Stitch.Proofs.Dependency.MissingRevisions
import Stitch.Proofs.Dependency.FirstLevel
import Stitch.Proofs.Version.RangeGrammar
import Stitch.Proofs.Version.RangeBrackets
import Stitch.Proofs.Version.Equality
import Stitch.Proofs.Version.Numbers
import Stitch.Proofs.Dependency.SeedStat
import Stitch.Proofs.Store.Truncation
import Stitch.Proofs.Merge.Numbering
import Stitch.Proofs.Merge.Validation
import Stitch.Proofs.CallGraph.Descriptors
