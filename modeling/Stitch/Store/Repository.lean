/-
Repositories of partial graphs: a folder tree with a document for each
coordinate.

The document of a coordinate is in the folder of its artifact's name, which is
in the folder of the first letter of that name.  A later graph of the same
coordinate takes the place of the earlier one.
-/
import Stitch.CallGraph.Partial
import Stitch.Store.Basic

namespace Stitch

/-- Where the partial graph of an artifact is to be found. -/
inductive GraphInput where
  | file (path : Path)
  | coordinate (c : Coordinate)
  deriving DecidableEq, Repr, Inhabited

def GraphInput.text : GraphInput → String
  | file path => path.text
  | coordinate c => c.text

structure Repository where
  root : Path
  deriving DecidableEq, Repr, Inhabited

namespace Repository

variable {m : Type → Type} [Monad m] [FileSystem m]

/-- Reads a document of a partial graph. -/
def readFile (path : Path) : ExceptT StoreError m PartialGraph := do
  match ← (FileSystem.readText path : m _) with
  | .error .notFound => throw (.notFound path.text)
  | .error fault => throw (.unavailable path fault)
  | .ok text =>
    match PartialGraph.ofText? text with
    | some graph => return graph
    | none => throw (.malformed path)

/-- The place of a coordinate's document. -/
def pathOf (r : Repository) (c : Coordinate) : Path :=
  let name := c.artifact.name
  let initial : Path := ⟨String.ofList (name.toList.take 1)⟩
  ((r.root.join initial).join ⟨name⟩).join ⟨s!"{name}_{c.artifact.group}_{c.version}.json"⟩

def contains (r : Repository) (c : Coordinate) : m Bool := FileSystem.isFile (r.pathOf c)

/-- The partial graph of a coordinate. -/
def load (r : Repository) (c : Coordinate) : ExceptT StoreError m PartialGraph := do
  if ← (r.contains c : m Bool) then readFile (r.pathOf c) else throw (.notFound c.text)

/-- Puts a partial graph in its place and says where that is. -/
def save (r : Repository) (graph : PartialGraph) : ExceptT StoreError m Path := do
  let path := r.pathOf graph.coordinate
  if let some folder := path.parent? then
    FileSystem.attempt (.unavailable folder) (FileSystem.createFolders folder)
  FileSystem.attempt (.unavailable path) (FileSystem.writeText path graph.text)
  return path

/-- The partial graph of an input. -/
def loadInput (r : Repository) : GraphInput → ExceptT StoreError m PartialGraph
  | .file path => readFile path
  | .coordinate c => r.load c

/-- The partial graphs that there are of some coordinates, and the coordinates
that have none. -/
def loadAvailable (r : Repository) :
    List Coordinate → ExceptT StoreError m (List PartialGraph × List Coordinate)
  | [] => return ([], [])
  | c :: cs => do
    match ← liftM (ExceptT.run (m := m) (r.load c)) with
    | .ok graph => do
      let (graphs, missing) ← r.loadAvailable cs
      return (graph :: graphs, missing)
    | .error (.notFound _) => do
      let (graphs, missing) ← r.loadAvailable cs
      return (graphs, c :: missing)
    | .error e => throw e

end Repository

end Stitch
