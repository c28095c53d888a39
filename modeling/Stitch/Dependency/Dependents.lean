/-
Dependents of a revision.

The search goes backwards along constraints that the revision satisfies.  A
dependent is released no earlier than what it depends on, and not after the
time of the query.  Each revision that is found like this counts only if its
own dependencies contain the queried revision.
-/
import Stitch.Dependency.Mediation
import Stitch.Search

namespace Stitch

namespace DependencyGraph

/-- The revisions that could depend on a revision directly. -/
def possibleDependents (g : DependencyGraph) (o : ResolveOptions) (limit : Option Int)
    (r : Revision) : List Revision :=
  ((g.dependentsOf r.artifact).filter fun (dependent, c) =>
    o.scopes.contains c.scope && c.isSatisfiedBy r.coordinate.parsedVersion &&
      r.released ≤ dependent.released && limit.all fun t => dependent.released ≤ t).map (·.1)

/-- The revisions that could depend on a revision, with their distances. -/
def dependentCandidates (g : DependencyGraph) (o : ResolveOptions) (limit : Option Int)
    (root : Revision) (transitive : Bool) : List (Revision × Nat) :=
  (Search.breadthFirst g.revisions (g.possibleDependents o limit) [root]).filter fun p =>
    0 < p.2 && (transitive || p.2 == 1)

/-- Whether the dependencies of a revision contain another. -/
def dependsOn (g : DependencyGraph) (o : ResolveOptions) (limit : Option Int)
    (transitive : Bool) (r : Revision) (c : Coordinate) : Bool :=
  match g.resolveDependencies o r.coordinate limit transitive with
  | .ok resolution => resolution.contains c
  | .error _ => false

/-- The revisions that depend on a revision, among those released up to a time;
directly, or in any way. -/
def resolveDependents (g : DependencyGraph) (o : ResolveOptions) (c : Coordinate)
    (asOf : Option Int) (transitive : Bool) : Except ResolveError Resolution :=
  match g.revision? c with
  | none => .error (.unknownRevision c)
  | some root =>
    let limit := timeLimit asOf
    let confirmed := (g.dependentCandidates o limit root transitive).filter fun p =>
      g.dependsOn o limit transitive p.1 root.coordinate
    .ok {
      revisions := Revision.sorted (confirmed.map (·.1))
      depth := confirmed.foldl (fun m p => m.alter p.1.artifact.text fun old => old.getD p.2) {}
      degraded := [] }

end DependencyGraph

end Stitch
