/-
Settings: what a document and the environment say, on top of the defaults.

Every setting may be left out of the document, and names that are no settings
are ignored.  The environment is looked at in a fixed order; a value that cannot
be read ends this, and what came before it stays.
-/
import Stitch.Dependency.Resolution
import Stitch.Files.Path
import Stitch.Merge.Assembly
import Stitch.Toml.Document

namespace Stitch

structure ResolverSettings where
  /-- Whether constraints on artifacts without a known revision are skipped. -/
  ignoreMissing : Bool := false
  scopes : List Scope := Scope.followed
  includeOptional : Bool := true
  /-- The metadata that the dependency graph is built from. -/
  metadata : Option Path := none
  /-- The snapshot that the dependency graph is restored from, if it exists. -/
  snapshot : Option Path := none
  deriving DecidableEq, Repr, Inhabited

structure MergerSettings where
  /-- The name of the strategy. -/
  strategy : String := Strategy.cha.name
  deep : Bool := false
  deriving DecidableEq, Repr, Inhabited

structure Settings where
  resolver : ResolverSettings := {}
  merger : MergerSettings := {}
  /-- The folder of the graph store. -/
  store : Path := ⟨".weave/graphs"⟩
  /-- The folder of the partial graphs. -/
  repository : Path := ⟨".weave/callgraphs"⟩
  deriving DecidableEq, Repr, Inhabited

namespace ResolverSettings

def ofToml? (v : Toml) : Option ResolverSettings := do
  let [ignoreMissing, scopes, includeOptional, metadata, snapshot] ←
    v.fields? ["ignore_missing", "scopes", "include_optional", "metadata", "snapshot"] | none
  let path? (v : Toml) : Option (Option Path) := v.string?.map fun text => some ⟨text⟩
  let default : ResolverSettings := {}
  return {
    ignoreMissing := ← Toml.orElse default.ignoreMissing Toml.bool? ignoreMissing
    scopes := ← Toml.orElse default.scopes
      (Toml.list? fun item => item.case? >>= Scope.named?) scopes
    includeOptional := ← Toml.orElse default.includeOptional Toml.bool? includeOptional
    metadata := ← Toml.orElse default.metadata path? metadata
    snapshot := ← Toml.orElse default.snapshot path? snapshot }

def options (s : ResolverSettings) : ResolveOptions where
  ignoreMissing := s.ignoreMissing
  scopes := s.scopes
  includeOptional := s.includeOptional

end ResolverSettings

namespace MergerSettings

def ofToml? (v : Toml) : Option MergerSettings := do
  let [strategy, deep] ← v.fields? ["strategy", "deep"] | none
  let default : MergerSettings := {}
  return {
    strategy := ← Toml.orElse default.strategy Toml.string? strategy
    deep := ← Toml.orElse default.deep Toml.bool? deep }

def options (s : MergerSettings) : Except UnknownStrategy MergeOptions := do
  return { strategy := ← Strategy.ofText s.strategy, deep := s.deep }

end MergerSettings

/-- A value of the environment that is no value of its setting. -/
structure InvalidSetting where
  name : String
  value : String
  deriving DecidableEq, Repr, Inhabited

def InvalidSetting.message (e : InvalidSetting) : String :=
  s!"invalid value '{e.value}' for {e.name}"

namespace Settings

/-- The folder that a section with a path names. -/
def folder? (default : Path) (v : Toml) : Option Path := do
  let [path] ← v.fields? ["path"] | none
  Toml.orElse default (fun v => v.string?.map Path.mk) path

def ofToml? (v : Toml) : Option Settings := do
  let [resolver, merger, store, repository] ←
    v.fields? ["resolver", "merger", "store", "repository"] | none
  let default : Settings := {}
  return {
    resolver := ← Toml.orElse default.resolver ResolverSettings.ofToml? resolver
    merger := ← Toml.orElse default.merger MergerSettings.ofToml? merger
    store := ← Toml.orElse default.store (folder? default.store) store
    repository := ← Toml.orElse default.repository (folder? default.repository) repository }

/-- All settings as a document. -/
def toJson (s : Settings) : Json :=
  let path (p : Path) : Json := .string p.text
  .object [
    ("resolver", .object [("ignore_missing", .bool s.resolver.ignoreMissing),
      ("scopes", .array (s.resolver.scopes.map Scope.toJson)),
      ("include_optional", .bool s.resolver.includeOptional),
      ("metadata", s.resolver.metadata.elim .null path),
      ("snapshot", s.resolver.snapshot.elim .null path)]),
    ("merger", .object [("strategy", .string s.merger.strategy), ("deep", .bool s.merger.deep)]),
    ("store", .object [("path", path s.store)]),
    ("repository", .object [("path", path s.repository)])]

/-- The settings of a document. -/
def ofText? (text : String) : Option Settings := Toml.parse? text >>= ofToml?

/-! ### The environment -/

def bool? (value : String) : Option Bool :=
  let word := Text.lowered (Text.trimmed value)
  if ["1", "true", "yes", "on"].contains word then some true
  else if ["0", "false", "no", "off"].contains word then some false
  else none

/-- The scopes between commas; blank parts do not count. -/
def scopes? (value : String) : Option (List Scope) :=
  ((Text.parts ',' value.toList).filter fun part => !(Text.trim part).isEmpty).mapM fun part =>
    (Scope.ofText (String.ofList part)).toOption

/-- A variable of the environment and how its value changes the settings. -/
structure Variable where
  name : String
  set? : String → Settings → Option Settings

/-- The variables that are settings, in the order in which they are looked at. -/
def recognised : List Variable :=
  [⟨"WEAVE_IGNORE_MISSING", fun value s => (bool? value).map fun b =>
      { s with resolver := { s.resolver with ignoreMissing := b } }⟩,
    ⟨"WEAVE_SCOPES", fun value s => (scopes? value).map fun scopes =>
      { s with resolver := { s.resolver with scopes } }⟩,
    ⟨"WEAVE_METADATA", fun value s =>
      some { s with resolver := { s.resolver with metadata := some ⟨value⟩ } }⟩,
    ⟨"WEAVE_SNAPSHOT", fun value s =>
      some { s with resolver := { s.resolver with snapshot := some ⟨value⟩ } }⟩,
    ⟨"WEAVE_STRATEGY", fun value s =>
      some { s with merger := { s.merger with strategy := value } }⟩,
    ⟨"WEAVE_DEEP_MERGE", fun value s => (bool? value).map fun b =>
      { s with merger := { s.merger with deep := b } }⟩,
    ⟨"WEAVE_STORE_PATH", fun value s => some { s with store := ⟨value⟩ }⟩,
    ⟨"WEAVE_REPOSITORY_PATH", fun value s => some { s with repository := ⟨value⟩ }⟩]

/-- The settings after some variables, and the value that could not be read. -/
def applyVariables (lookup : String → Option String) :
    List Variable → Settings → Settings × Option InvalidSetting
  | [], s => (s, none)
  | v :: vs, s =>
    match lookup v.name with
    | none => applyVariables lookup vs s
    | some value =>
      match v.set? value s with
      | some s => applyVariables lookup vs s
      | none => (s, some ⟨v.name, value⟩)

/-- The settings after the environment, and the value that could not be read. -/
def applyEnvironment (s : Settings) (lookup : String → Option String) :
    Settings × Option InvalidSetting :=
  applyVariables lookup recognised s

end Settings

end Stitch
