/-
Dependency constraints.

A constraint leads from a revision to an artifact, any of whose revisions that
satisfies its ranges will do; which one that is, is decided when a query is
answered.  Its exclusions keep artifacts out of everything that is reached
through it.
-/
import Stitch.Coordinate
import Stitch.Dependency.Scope

namespace Stitch

/-- A pattern of artifacts; a star stands for any group or name. -/
structure Exclusion where
  group : String
  name : String
  deriving DecidableEq, Repr, Inhabited

namespace Exclusion

def matchesArtifact (e : Exclusion) (a : Artifact) : Bool :=
  (e.group == "*" || e.group == a.group) && (e.name == "*" || e.name == a.name)

def text (e : Exclusion) : String := s!"{e.group}:{e.name}"

/-- Reads a group and a name, neither empty, parted at the first colon. -/
def ofText (text : String) : Except IdentifierError Exclusion :=
  match Text.cut ':' (Text.trim text.toList) with
  | some (group, name) =>
    if group.isEmpty || name.isEmpty then .error (.artifact text)
    else .ok ⟨String.ofList group, String.ofList name⟩
  | none => .error (.artifact text)

end Exclusion

/-- A dependency of one revision on some revision of an artifact. -/
structure Constraint where
  source : Coordinate
  target : Artifact
  /-- A version has to lie in one of these; with none, any version will do. -/
  ranges : List Range := []
  scope : Scope := .compile
  exclusions : List Exclusion := []
  isOptional : Bool := false
  deriving Repr, Inhabited

namespace Constraint

def isSatisfiedBy (c : Constraint) (v : Version) : Bool :=
  c.ranges.isEmpty || c.ranges.any (·.contains v)

/-- Whether an exclusion of the constraint keeps an artifact out. -/
def excludes (c : Constraint) (a : Artifact) : Bool :=
  c.exclusions.any (·.matchesArtifact a)

/-- The range expressions, as they are shown together. -/
def rangeText (c : Constraint) : String :=
  if c.ranges.isEmpty then "*" else String.intercalate " | " (c.ranges.map (·.text))

def text (c : Constraint) : String :=
  s!"{c.source.text} -> {c.target.text} {c.rangeText} ({c.scope.name})"

def toJson (c : Constraint) : Json :=
  .object [("source", c.source.toJson), ("target", c.target.toJson),
    ("ranges", .strings (c.ranges.map (·.text))), ("scope", c.scope.toJson),
    ("exclusions", .strings (c.exclusions.map (·.text))), ("optional", .bool c.isOptional)]

/-- A range in a document, by its expression. -/
def range? (v : Json) : Option Range := do (Range.ofText (← v.string?)).toOption

/-- An exclusion in a document, by its text. -/
def exclusion? (v : Json) : Option Exclusion := do (Exclusion.ofText (← v.string?)).toOption

def ofJson? (v : Json) : Option Constraint := do
  let [source, target, ranges, scope, exclusions, isOptional] ←
    v.fields? ["source", "target", "ranges", "scope", "exclusions", "optional"] | none
  return {
    source := ← Json.required Coordinate.ofJson? source
    target := ← Json.required Artifact.ofJson? target
    ranges := ← Json.orElse [] (Json.list? range?) ranges
    scope := ← Json.orElse .compile Scope.ofJson? scope
    exclusions := ← Json.orElse [] (Json.list? exclusion?) exclusions
    isOptional := ← Json.orElse false Json.bool? isOptional }

end Constraint

end Stitch
