/-
Metadata of published revisions: what a dependency graph is built from.

Metadata lists revisions, each coordinate once, and the constraints that were
declared.  A document of metadata is a list of records, one for a revision and
what it depends on.  A dependency that cannot be read, because its product, a
range, its scope or an exclusion is malformed, is skipped and counted; all else
that is malformed makes the document unreadable.
-/
import Stitch.Dependency.Graph

namespace Stitch

structure Metadata where
  /-- The revisions in the order in which they came, each coordinate once. -/
  revisions : List Revision := []
  constraints : List Constraint := []
  /-- How many dependencies could not be read. -/
  skipped : Nat := 0
  deriving Inhabited

namespace Metadata

/-- Adds a revision, unless its coordinate is there already. -/
def addRevision (m : Metadata) (r : Revision) : Metadata :=
  if m.revisions.any r.same then m else { m with revisions := m.revisions ++ [r] }

def addConstraint (m : Metadata) (c : Constraint) : Metadata :=
  { m with constraints := m.constraints ++ [c] }

/-- The artifacts that have revisions, in order. -/
def artifacts (m : Metadata) : List Artifact :=
  (distinct (m.revisions.map (·.artifact))).mergeSort fun a b => (a.compare b).isLE

/-- The revisions of an artifact, in the order in which they came. -/
def revisionsOf (m : Metadata) (a : Artifact) : List Revision :=
  m.revisions.filter fun r => r.artifact == a

/-- The constraints that a revision declares. -/
def constraintsOf (m : Metadata) (c : Coordinate) : List Constraint :=
  m.constraints.filter fun d => d.source == c

/-- The dependency graph of all that is known: the revisions artifact by
artifact, and the constraints revision by revision. -/
def graph (m : Metadata) : DependencyGraph :=
  let revisions := m.artifacts.flatMap m.revisionsOf
  .ofParts revisions (revisions.flatMap fun r => m.constraintsOf r.coordinate)

end Metadata

/-- A dependency as a metadata document declares it. -/
structure DependencyRecord where
  product : String
  constraints : List String
  scope : Option String
  isOptional : Bool
  exclusions : List String
  deriving DecidableEq, Repr, Inhabited

/-- A revision as a metadata document declares it. -/
structure RevisionRecord where
  revision : Revision
  dependencies : List DependencyRecord
  deriving DecidableEq, Repr, Inhabited

namespace DependencyRecord

def ofJson? (v : Json) : Option DependencyRecord := do
  let [product, constraints, scope, isOptional, exclusions] ←
    v.fields? ["product", "constraints", "scope", "optional", "exclusions"] | none
  return {
    product := ← Json.required Json.string? product
    constraints := ← Json.orElse [] Json.strings? constraints
    scope := ← Json.optional Json.string? scope
    isOptional := ← Json.orElse false Json.bool? isOptional
    exclusions := ← Json.orElse [] Json.strings? exclusions }

/-- The constraint that a record declares for a revision. -/
def constraint (r : DependencyRecord) (source : Coordinate) :
    Except IdentifierError Constraint := do
  return {
    source
    target := ← Artifact.ofText r.product
    ranges := ← r.constraints.mapM Range.ofText
    scope := ← r.scope.elim (.ok .compile) Scope.ofText
    exclusions := ← r.exclusions.mapM Exclusion.ofText
    isOptional := r.isOptional }

end DependencyRecord

namespace RevisionRecord

def ofJson? (v : Json) : Option RevisionRecord := do
  let [forge, group, name, version, released, dependencies] ←
    v.fields? ["forge", "groupId", "artifactId", "version", "releaseTimestamp",
      "dependencies"] | none
  return {
    revision := {
      coordinate := ⟨← Json.orElse Coordinate.mavenForge Json.string? forge,
        ⟨← Json.required Json.string? group, ← Json.required Json.string? name⟩,
        ← Json.required Json.string? version⟩
      released := ← Json.orElse 0 Json.int64? released }
    dependencies := ← Json.orElse [] (Json.list? DependencyRecord.ofJson?) dependencies }

/-- The constraints of a revision that can be read. -/
def constraints (r : RevisionRecord) : List Constraint :=
  r.dependencies.filterMap fun d => (d.constraint r.revision.coordinate).toOption

end RevisionRecord

namespace Metadata

/-- Adds a record: its constraints, also when its revision is known already,
and its revision. -/
def addRecord (m : Metadata) (r : RevisionRecord) : Metadata :=
  let m := r.constraints.foldl addConstraint m
  let m := { m with skipped := m.skipped + (r.dependencies.length - r.constraints.length) }
  m.addRevision r.revision

/-- The metadata of a list of records. -/
def ofRecords (records : List RevisionRecord) : Metadata := records.foldl addRecord {}

def ofJson? (v : Json) : Option Metadata :=
  (v.list? RevisionRecord.ofJson?).map ofRecords

end Metadata

end Stitch
