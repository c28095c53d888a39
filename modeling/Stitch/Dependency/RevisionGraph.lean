/-
The graph of revisions: which revision could need which.

There is an edge from a revision to every known revision that satisfies one of
its constraints in the wanted scopes, whatever mediation would choose and
whenever it was released.

* `backwardBall` is what could need some revisions, up to a number of steps;
* `forwardClosure` is all that some revisions could need.
-/
import Stitch.Dependency.Graph
import Stitch.Search

namespace Stitch

structure RevisionGraph where
  /-- The revisions in the order of their coordinates. -/
  revisions : List Revision
  /-- Each pair once, in the order of the revisions that they start at. -/
  edges : List (Revision × Revision)
  deriving Inhabited

namespace RevisionGraph

/-- The revisions that a revision could need. -/
def targetsOf (g : DependencyGraph) (scopes : List Scope) (r : Revision) : List Revision :=
  distinct <| ((g.constraintsOf r.coordinate).filter fun c => scopes.contains c.scope).flatMap
    fun c => (g.revisionsOf c.target).filter fun t =>
      c.isSatisfiedBy t.coordinate.parsedVersion

/-- The revision graph of a dependency graph. -/
def ofGraph (g : DependencyGraph) (scopes : List Scope) : RevisionGraph where
  revisions := g.revisions
  edges := g.revisions.flatMap fun r => (targetsOf g scopes r).map fun t => (r, t)

/-- The revision of a coordinate. -/
def revision? (g : RevisionGraph) (c : Coordinate) : Option Revision :=
  g.revisions.find? fun r => r.coordinate == c

/-- The revisions of some artifacts, in order. -/
def revisionsOf (g : RevisionGraph) (artifacts : List Artifact) : List Revision :=
  g.revisions.filter fun r => artifacts.contains r.artifact

def successors (g : RevisionGraph) (r : Revision) : List Revision :=
  (g.edges.filter fun e => e.1 == r).map (·.2)

def predecessors (g : RevisionGraph) (r : Revision) : List Revision :=
  (g.edges.filter fun e => e.2 == r).map (·.1)

/-- The known ones of some seeds. -/
def seedRevisions (g : RevisionGraph) (seeds : List Coordinate) : List Revision :=
  seeds.filterMap g.revision?

/-- The revisions from which a seed is reached in at most so many steps, the
seeds included, in order. -/
def backwardBall (g : RevisionGraph) (seeds : List Coordinate) (radius : Nat) :
    List Revision :=
  let reached := Search.breadthFirst g.revisions g.predecessors (g.seedRevisions seeds)
  Revision.sorted ((reached.filter fun p => p.2 ≤ radius).map (·.1))

/-- The revisions that can be reached from the seeds, the seeds included. -/
def forwardClosure (g : RevisionGraph) (seeds : List Coordinate) : List Revision :=
  (Search.breadthFirst g.revisions g.successors (g.seedRevisions seeds)).map (·.1)

end RevisionGraph

end Stitch
