/-
Snapshots of dependency graphs in the binary layout.

A snapshot is the number of its format, the revisions in order and the
constraints as they were declared.  Ranges and exclusions are written as text
and read again.  Bytes after the snapshot are not looked at, and the format is
compared only when all of it has been read.
-/
import Stitch.Binary.Reader
import Stitch.Dependency.Graph

namespace Stitch

/-- Why bytes are no snapshot. -/
inductive SnapshotFault where
  | unreadable
  | format (found : Nat)
  deriving DecidableEq, Repr, Inhabited

namespace Snapshot

/-- The format that is written and read. -/
def currentFormat : Nat := 1

end Snapshot

def SnapshotFault.message : SnapshotFault → String
  | unreadable => "cannot encode or decode snapshot"
  | format found => s!"unsupported snapshot format {found}, expected {Snapshot.currentFormat}"

namespace Snapshot

def coordinateBytes (c : Coordinate) : List UInt8 :=
  Binary.string c.forge ++ Binary.string c.artifact.group ++ Binary.string c.artifact.name ++
    Binary.string c.version

def artifactBytes (a : Artifact) : List UInt8 := Binary.string a.group ++ Binary.string a.name

def revisionBytes (r : Revision) : List UInt8 :=
  coordinateBytes r.coordinate ++ Binary.int64 r.released

/-- The place of a scope in binary files. -/
def scopeIndex (s : Scope) : Nat := Scope.all.idxOf s

def constraintBytes (c : Constraint) : List UInt8 :=
  coordinateBytes c.source ++ artifactBytes c.target ++
    Binary.list (fun range => Binary.string range.text) c.ranges ++
    Binary.nat32 (scopeIndex c.scope) ++
    Binary.list (fun exclusion => Binary.string exclusion.text) c.exclusions ++
    Binary.bool c.isOptional

open Binary (Reader)

def coordinate : Reader Coordinate := do
  return ⟨← Reader.string, ⟨← Reader.string, ← Reader.string⟩, ← Reader.string⟩

def artifact : Reader Artifact := do
  return ⟨← Reader.string, ← Reader.string⟩

def revision : Reader Revision := do
  return ⟨← coordinate, ← Reader.int64⟩

def constraint : Reader Constraint := do
  return {
    source := ← coordinate
    target := ← artifact
    ranges := ← Reader.list (Reader.parsed fun text => (Range.ofText text).toOption)
    scope := ← Reader.case Scope.all
    exclusions := ← Reader.list (Reader.parsed fun text => (Exclusion.ofText text).toOption)
    isOptional := ← Reader.bool }

/-- The format, revisions and constraints of a snapshot. -/
def contents : Reader (Nat × List Revision × List Constraint) := do
  return (← Reader.nat32, ← Reader.list revision, ← Reader.list constraint)

end Snapshot

namespace DependencyGraph

/-- The snapshot of a graph. -/
def toSnapshot (g : DependencyGraph) : List UInt8 :=
  Binary.nat32 Snapshot.currentFormat ++ Binary.list Snapshot.revisionBytes g.revisions ++
    Binary.list Snapshot.constraintBytes g.constraints

/-- The graph of a snapshot. -/
def ofSnapshot (bytes : List UInt8) : Except SnapshotFault DependencyGraph :=
  match Binary.run? Snapshot.contents bytes with
  | none => .error .unreadable
  | some (format, revisions, constraints) =>
    if format = Snapshot.currentFormat then .ok (.ofParts revisions constraints)
    else .error (.format format)

end DependencyGraph

end Stitch
