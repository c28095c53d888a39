/-
The commands of the program and their arguments.

`grammar` says what may be written, `Invocation.ofArguments` reads it.
-/
import Stitch.Command.Options
import Stitch.Files.Path

namespace Stitch

/-- Where the dependency graph comes from, as far as the arguments say. -/
structure GraphArguments where
  metadata : Option Path
  snapshot : Option Path
  ignoreMissing : Bool
  deriving DecidableEq, Repr, Inhabited

inductive Direction where
  | dependencies
  | dependents
  deriving DecidableEq, Repr, Inhabited

structure QueryArguments where
  coordinate : Option String
  asOf : Option Int
  /-- Only direct relations are asked for. -/
  direct : Bool
  /-- A list of coordinates to resolve in place of one. -/
  input : Option Path
  output : Option Path
  json : Bool
  graph : GraphArguments
  deriving DecidableEq, Repr, Inhabited

structure MergeArguments where
  input : String
  strategy : Option String
  deep : Bool
  asOf : Option Int
  repository : Option Path
  /-- Graphs to merge with in place of those of the resolved dependencies. -/
  dependencies : List Path
  output : Option Path
  jcg : Bool
  graph : GraphArguments
  deriving DecidableEq, Repr, Inhabited

structure AnalysisArguments where
  inputs : List String
  asOf : Option Int
  strategy : Option String
  repository : Option Path
  store : Option Path
  graph : GraphArguments
  deriving DecidableEq, Repr, Inhabited

structure SeedArguments where
  radius : Nat
  top : Option Nat
  /-- The seeds are single revisions. -/
  revisions : Bool
  artifacts : List String
  json : Bool
  graph : GraphArguments
  deriving DecidableEq, Repr, Inhabited

inductive Command where
  | resolve (direction : Direction) (arguments : QueryArguments)
  | merge (arguments : MergeArguments)
  | analyse (arguments : AnalysisArguments)
  | convert (inputs : List Path) (output : Option Path)
  | checkStore (store : Option Path)
  | checkUris (inputs : List Path)
  | seedStats (arguments : SeedArguments)
  | snapshot (metadata : Option Path) (output : Option Path)
  | version
  deriving DecidableEq, Repr, Inhabited

/-- A command and the file of its settings. -/
structure Invocation where
  settings : Option Path
  command : Command
  deriving DecidableEq, Repr, Inhabited

namespace Command

def pathOption (name : String) : OptionRule := { name, value := some .path }

def outputOption : OptionRule := { name := "output", letter := some 'o', value := some .path }

def strategyOption : OptionRule := { name := "strategy", letter := some 's', value := some .text }

def timeOption : OptionRule := { name := "at", value := some .integer }

def graphOptions : List OptionRule :=
  [pathOption "metadata", pathOption "snapshot", { name := "ignore-missing" }]

def queryOptions : List OptionRule :=
  [timeOption, { name := "direct" }, pathOption "input", outputOption, { name := "json" }] ++
    graphOptions

def mergeOptions : List OptionRule :=
  [strategyOption, { name := "deep" }, timeOption, pathOption "repository",
    { name := "dependency", letter := some 'd', value := some .path, repeats := true },
    outputOption, { name := "jcg" }] ++ graphOptions

def analysisOptions : List OptionRule :=
  [timeOption, strategyOption, pathOption "repository", pathOption "store"] ++ graphOptions

def seedOptions : List OptionRule :=
  [{ name := "radius", letter := some 'r', value := some .natural },
    { name := "top", value := some .natural }, { name := "revisions" }, { name := "json" }] ++
    graphOptions

/-- What may be written on a command line. -/
def grammar : Grammar where
  shared :=
    [{ name := "verbose", letter := some 'v' },
      { name := "config", letter := some 'c', value := some .path }]
  commands :=
    [⟨"resolve", queryOptions, .one .text, false⟩,
      ⟨"dependents", queryOptions, .one .text, false⟩,
      ⟨"merge", mergeOptions, .one .text, false⟩,
      ⟨"analyze", analysisOptions, .many .text, false⟩,
      ⟨"convert", [outputOption], .many .path, false⟩,
      ⟨"check-store", [pathOption "store"], .none, false⟩,
      ⟨"check-uris", [], .many .path, false⟩,
      ⟨"seed-stats", seedOptions, .many .text, false⟩,
      ⟨"snapshot", [pathOption "metadata", outputOption], .none, false⟩,
      ⟨"version", [], .none, false⟩,
      ⟨"help", [], .one .text, true⟩]

def path? (g : Given) (name : String) : Option Path := (g.value? name).map Path.mk

def integer? (g : Given) (name : String) : Option Int := g.value? name >>= ValueKind.integer?

def natural? (g : Given) (name : String) : Option Nat := g.value? name >>= ValueKind.natural?

/-- The operands of a command that needs some. -/
def inputs (g : Given) : Except Refusal (List String) :=
  if g.operands.isEmpty then .error .misuse else .ok g.operands

def graphArguments (g : Given) : GraphArguments where
  metadata := path? g "metadata"
  snapshot := path? g "snapshot"
  ignoreMissing := g.has "ignore-missing"

def queryArguments (g : Given) : QueryArguments where
  coordinate := g.operands.head?
  asOf := integer? g "at"
  direct := g.has "direct"
  input := path? g "input"
  output := path? g "output"
  json := g.has "json"
  graph := graphArguments g

def mergeArguments (g : Given) : Except Refusal MergeArguments := do
  let some input := g.operands.head? | throw .misuse
  return {
    input
    strategy := g.value? "strategy"
    deep := g.has "deep"
    asOf := integer? g "at"
    repository := path? g "repository"
    dependencies := (g.values "dependency").map Path.mk
    output := path? g "output"
    jcg := g.has "jcg"
    graph := graphArguments g }

def analysisArguments (g : Given) : Except Refusal AnalysisArguments := do
  return {
    inputs := ← inputs g
    asOf := integer? g "at"
    strategy := g.value? "strategy"
    repository := path? g "repository"
    store := path? g "store"
    graph := graphArguments g }

/-- Seeds are either named or taken from the top of the ranking. -/
def seedArguments (g : Given) : Except Refusal SeedArguments := do
  if g.has "top" && !g.operands.isEmpty then throw .misuse
  if g.has "revisions" && !g.has "top" then throw .misuse
  return {
    radius := (natural? g "radius").getD 1
    top := natural? g "top"
    revisions := g.has "revisions"
    artifacts := g.operands
    json := g.has "json"
    graph := graphArguments g }

/-- The command of a command line. -/
def ofLine (l : CommandLine) : Except Refusal Command := do
  let g := l.given
  match l.command with
  | "resolve" => return .resolve .dependencies (queryArguments g)
  | "dependents" => return .resolve .dependents (queryArguments g)
  | "merge" => return .merge (← mergeArguments g)
  | "analyze" => return .analyse (← analysisArguments g)
  | "convert" => return .convert ((← inputs g).map Path.mk) (path? g "output")
  | "check-store" => return .checkStore (path? g "store")
  | "check-uris" => return .checkUris ((← inputs g).map Path.mk)
  | "seed-stats" => return .seedStats (← seedArguments g)
  | "snapshot" => return .snapshot (path? g "metadata") (path? g "output")
  | "version" => return .version
  | "help" =>
    if g.operands.all fun topic => grammar.commands.any fun c => c.name == topic then throw .help
    else throw .misuse
  | _ => throw .misuse

end Command

/-- The invocation that arguments write. -/
def Invocation.ofArguments (arguments : List String) : Except Refusal Invocation := do
  let l ← Command.grammar.read arguments
  return { settings := (l.shared? "config").map Path.mk, command := ← Command.ofLine l }

end Stitch
