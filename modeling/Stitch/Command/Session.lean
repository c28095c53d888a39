/-
Sessions: the run of a command.

A session prints text and either ends well or with a failure; what it printed
before a failure stays printed.  The settings come from a document and from the
environment, to which a file of variables in the working folder or in a folder
above it adds.
-/
import Stitch.Dependency.Metadata
import Stitch.Dependency.Snapshot
import Stitch.Failure
import Stitch.Command.Basic
import Stitch.Settings.Basic
import Stitch.Settings.EnvironmentFile
import Stitch.Store.Repository

namespace Stitch

/-- A run that prints and may fail, over files. -/
abbrev Session (m : Type → Type) := ExceptT Failure (StateT String m)

namespace Session

variable {m : Type → Type} [Monad m] [FileSystem m] {ε α : Type}

def print (text : String) : Session m Unit :=
  (modifyThe String (· ++ text) : StateT String m Unit)

def printLine (line : String) : Session m Unit := print (line ++ "\n")

def fail (message : String) : Session m α := throw (.ofMessage message)

/-- Work over files in a session. -/
def lift (tell : ε → Failure) (x : ExceptT ε m α) : Session m α :=
  Failure.telling tell (ExceptT.mk (x.run : StateT String m _))

/-- An operation on files in a session; a fault is told as it is. -/
def attempt (operation : m (Except FileFault α)) : Session m α :=
  lift (.ofMessage ∘ FileFault.message) (ExceptT.mk operation)

/-- An operation on files that is part of something larger. -/
def attemptFor (message : String) (operation : m (Except FileFault α)) : Session m α :=
  Failure.during message (attempt operation)

/-- An operation on files whose fault is named in the message. -/
def attemptNaming (message : String) (operation : m (Except FileFault α)) : Session m α :=
  lift (fun fault => .naming message fault.message) (ExceptT.mk operation)

/-- A result in a session. -/
def told (tell : ε → Failure) (x : Except ε α) : Session m α := Failure.told tell x

/-- Writes a text to a file, whose folder is made when it is missing, or prints it. -/
def write (output : Option Path) (text : String) : Session m Unit :=
  match output with
  | none => printLine text
  | some path => do
    if let some folder := path.parent? then attempt (FileSystem.createFolders folder)
    attemptFor s!"writing {path.text}" (FileSystem.writeText path text)

end Session

/-! ### Settings -/

/-- The file of settings in the working folder. -/
def Settings.defaultFile : Path := ⟨"weave.toml"⟩

/-- The name of the files with variables. -/
def EnvironmentFile.fileName : Path := ⟨".env"⟩

namespace Session

variable {m : Type → Type} [Monad m] [FileSystem m]

/-- The first file of a name in a list of folders. -/
def firstFile (name : Path) : List Path → m (Option Path)
  | [] => return none
  | folder :: folders => do
    match ← FileSystem.kind? (folder.join name) with
    | .ok .file => return some (folder.join name)
    | .ok .folder | .error .notFound => firstFile name folders
    | .error _ => return none

/-- The environment with the variables of the file that is found going up from
the working folder. -/
def loadEnvironment (env : Environment) : m Environment := do
  let here ← FileSystem.workingFolder
  match ← firstFile EnvironmentFile.fileName (here :: here.folders ++ [⟨"/"⟩]) with
  | none => return env
  | some path =>
    match ← FileSystem.read path with
    | .ok bytes => return EnvironmentFile.load bytes env
    | .error _ => return env

/-- The settings of a document. -/
def readSettings (path : Path) : Session m Settings := do
  let text ← attemptNaming s!"cannot read config file {path.text}" (FileSystem.readText path)
  match Settings.ofText? text with
  | some settings => return settings
  | none => fail "invalid config file"

/-- The settings of a run: those of a document that is named or found, and those
of the environment. -/
def loadSettings (named : Option Path) (env : Environment) : Session m Settings := do
  let settings ← match named with
    | some path => readSettings path
    | none =>
      if ← (FileSystem.contains Settings.defaultFile : m Bool)
      then readSettings Settings.defaultFile
      else pure {}
  -- A file of variables is looked for only when the document could be read.
  let env ← (loadEnvironment env : m Environment)
  match settings.applyEnvironment env.get? with
  | (settings, none) => return settings
  | (_, some invalid) => fail invalid.message

/-! ### Dependency graphs -/

/-- The dependency graph of a metadata document. -/
def readMetadata (path : Path) : Session m DependencyGraph := do
  let text ← attemptNaming s!"cannot read metadata from {path.text}" (FileSystem.readText path)
  match Json.parse? text >>= Metadata.ofJson? with
  | some metadata => return metadata.graph
  | none => fail "malformed metadata"

/-- The dependency graph of a snapshot. -/
def readSnapshot (path : Path) : Session m DependencyGraph := do
  match ← (FileSystem.read path : m _) with
  | .error .isFolder => fail SnapshotFault.unreadable.message
  | .error fault => throw (.naming s!"snapshot I/O error on {path.text}" fault.message)
  | .ok bytes => told (.ofMessage ∘ SnapshotFault.message) (DependencyGraph.ofSnapshot bytes)

/-- Writes the snapshot of a dependency graph, in a folder that is made when it
is missing. -/
def writeSnapshot (path : Path) (graph : DependencyGraph) : Session m Unit := do
  let message := s!"snapshot I/O error on {path.text}"
  if let some folder := path.parent? then
    attemptNaming message (FileSystem.createFolders folder)
  attemptNaming message (FileSystem.write path graph.toSnapshot)

/-- The dependency graph that is asked for: that of the snapshot if it exists,
else that of the metadata, if there is any. -/
def openGraph (settings : Settings) (arguments : GraphArguments) :
    Session m (Option DependencyGraph) := do
  let metadata := arguments.metadata.orElse fun _ => settings.resolver.metadata
  let fromMetadata : Session m (Option DependencyGraph) :=
    match metadata with
    | some path => some <$> readMetadata path
    | none => return none
  match arguments.snapshot.orElse fun _ => settings.resolver.snapshot with
  | none => fromMetadata
  | some path =>
    if ← (FileSystem.contains path : m Bool) then some <$> readSnapshot path else fromMetadata

/-- The options of queries. -/
def resolveOptions (settings : Settings) (arguments : GraphArguments) : ResolveOptions :=
  let options := settings.resolver.options
  { options with ignoreMissing := options.ignoreMissing || arguments.ignoreMissing }

/-- The graph input that an argument names: a file that exists or has the name of
a document, else a coordinate. -/
def graphInput (text : String) : Session m GraphInput := do
  if ← (FileSystem.isFile ⟨text⟩ : m Bool) then return .file ⟨text⟩
  if text.endsWith ".json" then return .file ⟨text⟩
  let c ← Failure.during s!"{text} is neither a file nor a coordinate"
    (told (.ofMessage ∘ IdentifierError.message) (Coordinate.ofText text))
  return .coordinate c

/-- The options of merges; a strategy that is named comes before that of the
settings, which has to be one all the same. -/
def mergeOptions (settings : Settings) (strategy : Option String) : Session m MergeOptions := do
  let options ← told (.ofMessage ∘ UnknownStrategy.message) settings.merger.options
  match strategy with
  | none => return options
  | some text =>
    let strategy ← told (.ofMessage ∘ UnknownStrategy.message) (Strategy.ofText text)
    return { options with strategy }

end Session

end Stitch
