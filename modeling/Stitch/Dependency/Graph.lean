/-
Dependency graphs: the known revisions and the constraints that they declare.

The revisions are kept in the order of their coordinates, of each coordinate
the first one; the constraints in the order in which they were declared, those
of unknown revisions left out.  A constraint is not tied to a revision of its
target: which ones there are, is looked up when a query is answered.

* `ofParts` makes a graph of any revisions and constraints;
* `revisionsOf`, `constraintsOf`, `dependentsOf` and `dangling` are the views
  that queries use.
-/
import Stitch.Dependency.Constraint
import Stitch.Distinct

namespace Stitch

structure DependencyGraph where
  /-- The known revisions in the order of their coordinates. -/
  revisions : List Revision
  /-- Their constraints in the order of declaration. -/
  constraints : List Constraint
  deriving Inhabited

namespace DependencyGraph

/-- The graph of some revisions and constraints. -/
def ofParts (revisions : List Revision) (constraints : List Constraint) : DependencyGraph :=
  let known := distinctBy Revision.same revisions
  { revisions := Revision.sorted known
    constraints := constraints.filter fun c => known.any fun r => r.coordinate == c.source }

/-- The known revision of a coordinate. -/
def revision? (g : DependencyGraph) (c : Coordinate) : Option Revision :=
  g.revisions.find? fun r => r.coordinate == c

def contains (g : DependencyGraph) (c : Coordinate) : Bool := (g.revision? c).isSome

/-- The known revisions of an artifact, highest version first. -/
def revisionsOf (g : DependencyGraph) (a : Artifact) : List Revision :=
  (g.revisions.filter fun r => r.artifact == a).reverse

/-- The constraints of a revision, in the order of declaration. -/
def constraintsOf (g : DependencyGraph) (c : Coordinate) : List Constraint :=
  g.constraints.filter fun d => d.source == c

/-- The constraints on an artifact with the revisions that declare them, in the
order of declaration. -/
def dependentsOf (g : DependencyGraph) (a : Artifact) : List (Revision × Constraint) :=
  (g.constraints.filter fun d => d.target == a).filterMap fun d =>
    (g.revision? d.source).map fun r => (r, d)

/-- The constraints on artifacts without a known revision. -/
def dangling (g : DependencyGraph) : List Constraint :=
  g.constraints.filter fun d => (g.revisionsOf d.target).isEmpty

/-- The artifacts that have a known revision. -/
def knownArtifacts (g : DependencyGraph) : List Artifact :=
  distinct (g.revisions.map (·.artifact))

/-- All artifacts of the graph, those that are only depended on included. -/
def artifacts (g : DependencyGraph) : List Artifact :=
  distinct (g.revisions.map (·.artifact) ++ g.constraints.map (·.target))

/-- A line about the size of a graph. -/
def summary (g : DependencyGraph) : String :=
  s!"DependencyGraph \x7b revisions: {g.revisions.length}, artifacts: {g.artifacts.length}, " ++
  s!"constraints: {g.constraints.length} \x7d"

end DependencyGraph

end Stitch
