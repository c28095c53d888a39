/-
Queries of a dependency graph and their answers: the options of a query, the
answer with the distance of each artifact and what was left open, and the
reasons why a query has no answer.
-/
import Stitch.Dependency.Graph
import Stitch.Problem
import Stitch.SortedMap

namespace Stitch

structure ResolveOptions where
  /-- Whether constraints on artifacts without a known revision are skipped. -/
  ignoreMissing : Bool := false
  /-- The scopes that are followed. -/
  scopes : List Scope := Scope.followed
  /-- Whether the optional constraints of the queried revision are followed. -/
  includeOptional : Bool := true
  deriving DecidableEq, Repr, Inhabited

structure Resolution where
  /-- The revisions, in the order of their coordinates. -/
  revisions : List Revision
  /-- The distance at which each artifact was found. -/
  depth : SortedMap String Nat
  /-- What could not be resolved. -/
  degraded : List Degradation
  deriving Inhabited

namespace Resolution

def contains (r : Resolution) (c : Coordinate) : Bool :=
  r.revisions.any fun revision => revision.coordinate == c

def coordinates (r : Resolution) : List Coordinate := r.revisions.map (·.coordinate)

def toJson (r : Resolution) : Json :=
  .object [("revisions", .array (r.revisions.map Revision.toJson)),
    ("depth", .object (r.depth.entries.map fun e => (e.1, .nat e.2))),
    ("degraded", .array (r.degraded.map Degradation.toJson))]

end Resolution

/-- Why a query has no answer. -/
inductive ResolveError where
  /-- The queried revision is not known. -/
  | unknownRevision (coordinate : Coordinate)
  /-- A constraint leads to an artifact without a known revision. -/
  | missingRevision (source : Coordinate) (target : Artifact)
  deriving DecidableEq, Repr, Inhabited

namespace ResolveError

def message : ResolveError → String
  | unknownRevision coordinate => s!"unknown revision {coordinate.text}"
  | missingRevision source target =>
    s!"{source.text} depends on {target.text}, which has no known revisions"

def kind (_ : ResolveError) : ErrorClass := .missingRevision

end ResolveError

/-- The time limit of a query; a time of zero or below is no limit. -/
def timeLimit (asOf : Option Int) : Option Int := asOf.filter fun t => 0 < t

end Stitch
