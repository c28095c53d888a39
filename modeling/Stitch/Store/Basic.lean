/-
Stores of merged graphs.

A store keeps one merged graph for a revision.  A graph that is stored stays as
it is: a second one for the same revision is refused.  `GraphStore` is what
every store can do; where the graphs are kept is up to the store.
-/
import Stitch.CallGraph.Document
import Stitch.Coordinate
import Stitch.Failure
import Stitch.Files.FileSystem
import Stitch.Problem

namespace Stitch

/-- Why a store or a repository cannot do what it is asked. -/
inductive StoreError where
  /-- There is no graph of this coordinate, or no file at this path. -/
  | notFound (subject : String)
  | alreadyStored (coordinate : String)
  | unavailable (path : Path) (fault : FileFault)
  /-- A document that cannot be read. -/
  | malformed (path : Path)
  /-- The bytes of a stored graph cannot be read. -/
  | unreadable
  /-- The tables of a stored graph do not fit together. -/
  | inconsistent (reason : GraphError)
  deriving DecidableEq, Repr, Inhabited

namespace StoreError

def message : StoreError → String
  | notFound subject => s!"no graph stored for {subject}"
  | alreadyStored coordinate => s!"a graph for {coordinate} is already stored"
  | unavailable path fault => s!"storage unavailable at {path.text}: {fault.message}"
  | malformed path => s!"malformed document {path.text}"
  | unreadable => "cannot encode or decode stored graph"
  | inconsistent reason => s!"stored graph is inconsistent: {reason.message}"

/-- What led to an error; its message names that too. -/
def causes : StoreError → List String
  | unavailable _ fault => [fault.message]
  | inconsistent reason => [reason.message]
  | _ => []

def failure (e : StoreError) : Failure := ⟨e.message, e.causes⟩

def kind : StoreError → ErrorClass
  | malformed _ => .mergeInputMalformed
  | notFound _ => .missingRevision
  | _ => .storageUnavailable

end StoreError

/-- What a store knows of a graph without reading it. -/
structure StoredGraph where
  coordinate : Coordinate
  nodeCount : Nat
  edgeCount : Nat
  storedAt : Instant
  deriving DecidableEq, Inhabited

namespace StoredGraph

def ofGraph (coordinate : Coordinate) (graph : MergedGraph) (storedAt : Instant) : StoredGraph where
  coordinate
  nodeCount := graph.nodeCount
  edgeCount := graph.edgeCount
  storedAt

/-- Entries come in the order of their coordinates. -/
def sorted (entries : List StoredGraph) : List StoredGraph :=
  entries.mergeSort fun a b => a.coordinate.atMost b.coordinate

def toJson (s : StoredGraph) : Json :=
  .object [("coordinate", s.coordinate.toJson), ("nodeCount", .nat s.nodeCount),
    ("edgeCount", .nat s.edgeCount), ("storedAt", .string s.storedAt.text)]

def ofJson? (v : Json) : Option StoredGraph := do
  let [coordinate, nodeCount, edgeCount, storedAt] ←
    v.fields? ["coordinate", "nodeCount", "edgeCount", "storedAt"] | none
  return ⟨← Json.required Coordinate.ofJson? coordinate, ← Json.required Json.nat64? nodeCount,
    ← Json.required Json.nat64? edgeCount,
    ← Json.required (fun t => t.string? >>= Instant.ofText?) storedAt⟩

end StoredGraph

/-- What a store can do, in a monad that has its contents. -/
structure GraphStore (m : Type → Type) where
  /-- Stores the graph of a revision. -/
  put : Coordinate → MergedGraph → ExceptT StoreError m Unit
  /-- The graph of a revision. -/
  get : Coordinate → ExceptT StoreError m MergedGraph
  contains : Coordinate → ExceptT StoreError m Bool
  /-- What is stored, in the order of the coordinates. -/
  list : ExceptT StoreError m (List StoredGraph)

end Stitch
