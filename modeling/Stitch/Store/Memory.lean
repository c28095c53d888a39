/-
Graph stores in memory: a map from the qualified texts of coordinates to graphs.
-/
import Stitch.Store.Basic

namespace Stitch

structure MemoryStore where
  graphs : SortedMap String (StoredGraph × MergedGraph) := {}

namespace MemoryStore

instance : Inhabited MemoryStore := ⟨{}⟩

def size (s : MemoryStore) : Nat := s.graphs.size

/-- Stores the graph of a revision at a time. -/
def put (s : MemoryStore) (c : Coordinate) (graph : MergedGraph) (now : Instant) :
    Except StoreError MemoryStore :=
  if s.graphs.contains c.qualified then .error (.alreadyStored c.text)
  else .ok ⟨s.graphs.insert c.qualified (.ofGraph c graph now, graph)⟩

/-- The graph of a revision. -/
def get (s : MemoryStore) (c : Coordinate) : Except StoreError MergedGraph :=
  match s.graphs.get? c.qualified with
  | some entry => .ok entry.2
  | none => .error (.notFound c.text)

def contains (s : MemoryStore) (c : Coordinate) : Bool := s.graphs.contains c.qualified

/-- What is stored, in the order of the coordinates. -/
def list (s : MemoryStore) : List StoredGraph :=
  StoredGraph.sorted (s.graphs.entries.map fun e => e.2.1)

/-- The store that a state holds, told the time by a clock. -/
def store {m : Type → Type} [Monad m] (clock : m Instant) : GraphStore (StateT MemoryStore m) where
  put c graph := do
    let s ← getThe MemoryStore
    set (← liftExcept (s.put c graph (← (clock : m Instant))))
  get c := do liftExcept ((← getThe MemoryStore).get c)
  contains c := return (← getThe MemoryStore).contains c
  list := return (← getThe MemoryStore).list

end MemoryStore

end Stitch
