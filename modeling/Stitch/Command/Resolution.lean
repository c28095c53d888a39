/-
The commands on dependency graphs: resolving, seed statistics and snapshots.
-/
import Stitch.Command.Session
import Stitch.Dependency.Batch
import Stitch.Dependency.SeedStat

namespace Stitch.Session

variable {m : Type → Type} [Monad m] [FileSystem m]

/-- A query of a dependency graph. -/
def query (graph : DependencyGraph) (options : ResolveOptions) (direction : Direction)
    (asOf : Option Int) (transitive : Bool) (c : Coordinate) : Except ResolveError Resolution :=
  match direction with
  | .dependencies => graph.resolveDependencies options c asOf transitive
  | .dependents => graph.resolveDependents options c asOf transitive

/-- Resolves a list of coordinates.  Lines up to the first that is no text are
resolved also when the run fails because of that one. -/
def resolveList (ask : Coordinate → Except ResolveError Resolution) (input : Path)
    (output : Option Path) : Session m Unit := do
  let _ ← attemptFor s!"opening {input.text}" (FileSystem.kind? input)
  -- The output is emptied before the list is read, even if both are one file.
  if let some path := output then
    attemptFor s!"creating {path.text}" (FileSystem.write path [])
  let lines := Text.Utf8.lines (← attempt (FileSystem.read input))
  let readable := lines.takeWhile Option.isSome
  let result := resolveBatch ask (String.join (readable.filterMap id))
  match output with
  | some path => attempt (FileSystem.writeText path result.output)
  | none => print result.output
  if readable.length < lines.length then fail FileFault.invalidText.message

/-- Prints the resolution of one coordinate. -/
def resolveOne (ask : Coordinate → Except ResolveError Resolution) (text : String) (json : Bool) :
    Session m Unit := do
  let c ← told (.ofMessage ∘ IdentifierError.message) (Coordinate.ofText text)
  let resolution ← told (.ofMessage ∘ ResolveError.message) (ask c)
  if json then printLine resolution.toJson.pretty
  else resolution.coordinates.forM fun c => printLine c.text

/-- Resolves dependencies or dependents. -/
def resolve (settings : Settings) (direction : Direction) (a : QueryArguments) : Session m Unit := do
  let some graph ← openGraph settings a.graph
    | fail <| "no dependency metadata: pass --metadata or --snapshot, " ++
        "or set resolver.metadata in weave.toml"
  let ask := query graph (resolveOptions settings a.graph) direction a.asOf (!a.direct)
  match a.input, a.coordinate with
  | some input, _ => resolveList ask input a.output
  | none, some text => resolveOne ask text a.json
  | none, none => fail "a coordinate or --input is required"

/-- The seeds that arguments choose. -/
def seedSelection (a : SeedArguments) : Session m SeedSelection :=
  match a.top with
  | some n => return if a.revisions then .topRevisions n else .topArtifacts n
  | none => do
    if a.artifacts.isEmpty then fail "pass seed products or --top"
    return .artifacts (← a.artifacts.mapM fun text =>
      told (.ofMessage ∘ IdentifierError.message) (Artifact.ofText text))

/-- A row of seed statistics as a line. -/
def seedLine (s : SeedStat) : String := s!"{s.radius}\t{s.seeds}\t{s.ball}\t{s.closure}"

/-- Prints the seed statistics of growing seed sets. -/
def seedStats (settings : Settings) (a : SeedArguments) : Session m Unit := do
  let selection ← seedSelection a
  let some graph ← openGraph settings a.graph
    | fail "no dependency metadata: pass --metadata or --snapshot"
  let revisions := RevisionGraph.ofGraph graph settings.resolver.scopes
  (revisions.seedStats selection a.radius).forM fun row =>
    printLine (if a.json then row.toJson.compact else seedLine row)

/-- Saves the dependency graph of metadata as a snapshot. -/
def saveSnapshot (settings : Settings) (metadata output : Option Path) : Session m Unit := do
  let some source := metadata.orElse fun _ => settings.resolver.metadata
    | fail "no metadata file: pass --metadata or set resolver.metadata"
  let some target := output.orElse fun _ => settings.resolver.snapshot
    | fail "no snapshot path: pass --output or set resolver.snapshot"
  let graph ← readMetadata source
  writeSnapshot target graph
  printLine <| s!"{graph.revisions.length} revisions, {graph.constraints.length} constraints -> " ++
    target.text

end Stitch.Session
