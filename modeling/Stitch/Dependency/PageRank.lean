/-
PageRank over a revision graph.

The rank of a revision is spread evenly over what it could need; the rank of
revisions that need nothing is spread over all.  Ranks are floating point
numbers, so the order of the additions is part of the definition: ranks are
added in ascending order of the revisions, but the shares that come in over
edges in descending order.
-/
import Std.Data.HashMap
import Stitch.Dependency.RevisionGraph

namespace Stitch.PageRank

def damping : Float := 0.85

def rounds : Nat := 20

/-- The edges of a graph by the places of the revisions in its order. -/
structure Layout where
  /-- For each revision those that could need it, the last first. -/
  sources : Array (List Nat)
  /-- For each revision how many it could need. -/
  outDegree : Array Nat

def layout (g : RevisionGraph) : Layout :=
  let places : Std.HashMap Coordinate Nat :=
    g.revisions.zipIdx.foldl (fun m (r, i) => m.insert r.coordinate i) ∅
  let place (r : Revision) : Nat := places.getD r.coordinate 0
  let empty : Layout :=
    ⟨Array.replicate g.revisions.length [], Array.replicate g.revisions.length 0⟩
  g.edges.foldl (fun l (s, t) =>
    ⟨l.sources.modify (place t) (place s :: ·), l.outDegree.modify (place s) (· + 1)⟩) empty

/-- The sum of some numbers, added from the left. -/
def sum (xs : List Float) : Float := xs.foldl (· + ·) 0.0

/-- One round: the new ranks from the old ones. -/
def round (l : Layout) (uniform : Float) (ranks : Array Float) : Array Float :=
  let rank (i : Nat) : Float := ranks.getD i 0.0
  let degree (i : Nat) : Nat := l.outDegree.getD i 0
  let spread := sum <| ((List.range ranks.size).filter fun i => degree i == 0).map rank
  l.sources.map fun sources =>
    -- `sources` has the last source first, which is the order of this sum.
    let incoming := sum (sources.map fun i => rank i / (degree i).toFloat)
    (1.0 - damping) * uniform + damping * (incoming + spread * uniform)

/-- The ranks after a number of rounds. -/
def iterate (l : Layout) (uniform : Float) : Nat → Array Float → Array Float
  | 0, ranks => ranks
  | n + 1, ranks => iterate l uniform n (round l uniform ranks)

/-- Whether a ranked revision comes before another: the higher rank first, and
revisions of one rank in the order of their coordinates. -/
def before (a b : Revision × Float) : Bool :=
  b.2 < a.2 || (a.2 == b.2 && a.1.atMost b.1)

/-- The revisions with their ranks, the highest first. -/
def ranked (g : RevisionGraph) : List (Revision × Float) :=
  let n := g.revisions.length
  let uniform := 1.0 / n.toFloat
  let ranks := iterate (layout g) uniform rounds (Array.replicate n uniform)
  (g.revisions.zip ranks.toList).mergeSort before

/-- The first artifacts in the order of their highest ranked revisions. -/
def topArtifacts (g : RevisionGraph) (n : Nat) : List Artifact :=
  (distinct ((ranked g).map (·.1.artifact))).take n

end Stitch.PageRank
