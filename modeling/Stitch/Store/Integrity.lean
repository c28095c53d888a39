/-
The check of a graph store in a folder.

Every stored graph is read and compared with its document.  Problems are
collected, so that a graph that is damaged does not hide the state of the
others; only a store that cannot be listed has no report.
-/
import Stitch.Distinct
import Stitch.Store.Directory

namespace Stitch

structure IntegrityProblem where
  path : Path
  detail : String
  deriving DecidableEq, Repr, Inhabited

structure IntegrityReport where
  checked : Nat := 0
  healthy : Nat := 0
  problems : List IntegrityProblem := []
  deriving DecidableEq, Repr, Inhabited

namespace IntegrityReport

def isHealthy (r : IntegrityReport) : Bool := r.problems.isEmpty

/-- Counts a stored graph and what is wrong with it. -/
def add (r : IntegrityReport) (path : Path) (details : List String) : IntegrityReport where
  checked := r.checked + 1
  healthy := if details.isEmpty then r.healthy + 1 else r.healthy
  problems := r.problems ++ details.map (IntegrityProblem.mk path)

def toJson (r : IntegrityReport) : Json :=
  .object [("checked", .nat r.checked), ("healthy", .nat r.healthy),
    ("problems", .array (r.problems.map fun p =>
      .object [("path", .string p.path.text), ("detail", .string p.detail)]))]

end IntegrityReport

namespace MergedGraph

/-- The URIs that more than one internal node has, in order. -/
def repeatedInternalUris (g : MergedGraph) : List String :=
  let uris := (g.nodes.filter (·.isInternal)).map (·.uri)
  (distinct (uris.filter fun uri => 1 < uris.count uri)).mergeSort (· ≤ ·)

end MergedGraph

namespace StoredGraph

/-- What is wrong with a graph that is stored under a document. -/
def problems (entry : StoredGraph) (graph : MergedGraph) : List String :=
  let counts :=
    if graph.nodeCount = entry.nodeCount ∧ graph.edgeCount = entry.edgeCount then []
    else
      [s!"metadata records {entry.nodeCount} nodes and {entry.edgeCount} edges, " ++
        s!"graph has {graph.nodeCount} and {graph.edgeCount}"]
  counts ++ graph.repeatedInternalUris.map fun uri => s!"internal URI {uri} appears more than once"

end StoredGraph

namespace DirectoryStore

variable {m : Type → Type} [Monad m] [FileSystem m]

/-- What is wrong with a graph that has a document. -/
def describedProblems (s : DirectoryStore) (entry : StoredGraph) : m (List String) := do
  match ← (s.get entry.coordinate).run with
  | .ok graph => return entry.problems graph
  | .error e => return [e.message]

/-- What is wrong with a graph that has no document. -/
def undescribedProblems (path : Path) : m (List String) := do
  match ← (readGraph path).run with
  | .ok _ => return ["graph without metadata"]
  | .error e => return [s!"graph without metadata: {e.message}"]

/-- Checks all graphs of the store. -/
def check (s : DirectoryStore) : ExceptT StoreError m IntegrityReport := do
  let entries ← s.list
  let report ← entries.foldlM (fun report entry => do
    return report.add (s.graphPath entry.coordinate) (← (s.describedProblems entry : m _)))
    ({} : IntegrityReport)
  let described := entries.map fun entry => s.graphPath entry.coordinate
  let files := (← s.graphFiles).filter fun path => !described.contains path
  files.foldlM
    (fun report path => do return report.add path (← (undescribedProblems path : m _))) report

end DirectoryStore

end Stitch
