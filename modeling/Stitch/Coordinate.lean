/-
Artifacts, their coordinates and their published revisions.

An artifact is a group and a name; a coordinate adds the forge that publishes
it and a version; a revision adds the time of its release.  Coordinates are
ordered by forge, group, name and version, and coordinates of the same version
by the version's text.  A revision is the same as another when their
coordinates are: the release time only says in which order they came out.
-/
import Stitch.Identifier
import Stitch.Json.Record

namespace Stitch

/-- An artifact, whatever its version. -/
structure Artifact where
  group : String
  name : String
  deriving DecidableEq, Hashable, Repr, Inhabited

namespace Artifact

def text (a : Artifact) : String := s!"{a.group}:{a.name}"

/-- Reads `group:name`, neither of them empty. -/
def ofText (text : String) : Except IdentifierError Artifact :=
  match Text.parts ':' (Text.trim text.toList) with
  | [group, name] =>
    if group.isEmpty || name.isEmpty then .error (.artifact text)
    else .ok ⟨String.ofList group, String.ofList name⟩
  | _ => .error (.artifact text)

/-- Artifacts compare by group, then by name. -/
def compare (a b : Artifact) : Ordering :=
  (Ord.compare a.group b.group).then (Ord.compare a.name b.name)

instance : Ord Artifact := ⟨compare⟩

instance : Std.TransOrd Artifact :=
  inferInstanceAs (Std.TransCmp (compareLex (compareOn group) (compareOn name)))

instance : Std.LawfulEqOrd Artifact where
  eq_of_compare {a b} h := by
    obtain ⟨hs, ht⟩ := Ordering.then_eq_eq.1 (h : (compareOn group a b).then _ = .eq)
    cases a; cases b
    congr
    · exact Std.LawfulEqOrd.eq_of_compare hs
    · exact Std.LawfulEqOrd.eq_of_compare ht

def toJson (a : Artifact) : Json :=
  .object [("groupId", .string a.group), ("artifactId", .string a.name)]

def ofJson? (v : Json) : Option Artifact := do
  let [group, name] ← v.fields? ["groupId", "artifactId"] | none
  return ⟨← Json.required Json.string? group, ← Json.required Json.string? name⟩

end Artifact

/-- One published version of an artifact. -/
structure Coordinate where
  forge : String
  artifact : Artifact
  version : String
  deriving DecidableEq, Hashable, Repr, Inhabited

namespace Coordinate

/-- The forge of coordinates whose text does not name one. -/
def mavenForge : String := "mvn"

def text (c : Coordinate) : String := s!"{c.artifact.text}:{c.version}"

/-- The form with the forge, which begins the method URIs of the artifact. -/
def qualified (c : Coordinate) : String := s!"{c.forge}!{c.artifact.text}${c.version}"

def parsedVersion (c : Coordinate) : Version := .ofText c.version

/-- Reads `group:name:version`, none of them empty, for a forge. -/
def ofTextOn (forge text : String) : Except IdentifierError Coordinate :=
  match Text.parts ':' (Text.trim text.toList) with
  | [group, name, version] =>
    if group.isEmpty || name.isEmpty || version.isEmpty then .error (.coordinate text)
    else .ok ⟨forge, ⟨String.ofList group, String.ofList name⟩, String.ofList version⟩
  | _ => .error (.coordinate text)

def ofText (text : String) : Except IdentifierError Coordinate := ofTextOn mavenForge text

/-- Coordinates compare by forge, artifact, version and version text. -/
def compare (a b : Coordinate) : Ordering :=
  (Ord.compare a.forge b.forge).then <|
    (a.artifact.compare b.artifact).then <|
      (a.parsedVersion.compare b.parsedVersion).then (Ord.compare a.version b.version)

instance : Ord Coordinate := ⟨compare⟩

/-- Whether a coordinate does not come after another. -/
def atMost (a b : Coordinate) : Bool := (a.compare b).isLE

/-- The coordinates in order. -/
def sorted (coordinates : List Coordinate) : List Coordinate := coordinates.mergeSort atMost

def toJson (c : Coordinate) : Json :=
  .object [("forge", .string c.forge), ("groupId", .string c.artifact.group),
    ("artifactId", .string c.artifact.name), ("version", .string c.version)]

def ofJson? (v : Json) : Option Coordinate := do
  let [forge, group, name, version] ←
    v.fields? ["forge", "groupId", "artifactId", "version"] | none
  return ⟨← Json.required Json.string? forge,
    ⟨← Json.required Json.string? group, ← Json.required Json.string? name⟩,
    ← Json.required Json.string? version⟩

end Coordinate

/-- A coordinate and when it was published. -/
structure Revision where
  coordinate : Coordinate
  /-- Seconds since the epoch; zero when unknown. -/
  released : Int
  deriving Repr, Inhabited, DecidableEq

namespace Revision

def artifact (r : Revision) : Artifact := r.coordinate.artifact

def version (r : Revision) : String := r.coordinate.version

def text (r : Revision) : String := s!"{r.coordinate.text}@{r.released}"

/-- Whether two revisions are the same, whatever is known of their release. -/
def same (a b : Revision) : Bool := a.coordinate == b.coordinate

/-- Whether a revision does not come after another. -/
def atMost (a b : Revision) : Bool := a.coordinate.atMost b.coordinate

/-- The revisions in the order of their coordinates. -/
def sorted (revisions : List Revision) : List Revision := revisions.mergeSort atMost

def toJson (r : Revision) : Json :=
  .object [("forge", .string r.coordinate.forge),
    ("groupId", .string r.coordinate.artifact.group),
    ("artifactId", .string r.coordinate.artifact.name),
    ("version", .string r.coordinate.version), ("releaseTimestamp", .int r.released)]

def ofJson? (v : Json) : Option Revision := do
  let [forge, group, name, version, released] ←
    v.fields? ["forge", "groupId", "artifactId", "version", "releaseTimestamp"] | none
  return {
    coordinate := ⟨← Json.required Json.string? forge,
      ⟨← Json.required Json.string? group, ← Json.required Json.string? name⟩,
      ← Json.required Json.string? version⟩
    released := ← Json.orElse 0 Json.int64? released }

end Revision

end Stitch
