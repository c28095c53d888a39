/-
What a program can ask of a file system.

The operations are those of a class on monads, so that the same program runs
over the files of a machine and over a `FileTree`, a file system that is a
value.  An operation that fails says why and changes nothing.

`readText`, `writeText` and `createFolders` are built from the class; the last
makes a folder and all that is missing above it.
-/
import Stitch.Files.Path
import Stitch.Instant
import Stitch.Text.Utf8

namespace Stitch

/-- Why an operation on files fails. -/
inductive FileFault where
  | notFound
  | exists
  | notFolder
  | isFolder
  | nameTooLong
  | invalidName
  /-- The bytes of a file are no text. -/
  | invalidText
  | other (reason : String)
  deriving DecidableEq, Repr, Inhabited

def FileFault.message : FileFault → String
  | notFound => "No such file or directory (os error 2)"
  | .exists => "File exists (os error 17)"
  | notFolder => "Not a directory (os error 20)"
  | isFolder => "Is a directory (os error 21)"
  | nameTooLong => "File name too long (os error 36)"
  | invalidName => "file name contained an unexpected NUL byte"
  | invalidText => "stream did not contain valid UTF-8"
  | other reason => reason

/-- What a path leads to. -/
inductive FileKind where
  | folder
  | file
  deriving DecidableEq, Repr, Inhabited

class FileSystem (m : Type → Type) where
  /-- What is at a path, if anything can be reached there. -/
  kind? : Path → m (Except FileFault FileKind)
  /-- The bytes of a file. -/
  read : Path → m (Except FileFault (List UInt8))
  /-- The names in a folder, in order. -/
  list : Path → m (Except FileFault (List String))
  /-- Writes a file anew, in a folder that exists. -/
  write : Path → List UInt8 → m (Except FileFault Unit)
  /-- Gives a file another path, in place of a file that was there. -/
  move : Path → Path → m (Except FileFault Unit)
  /-- Makes a folder in a folder that exists. -/
  createFolder : Path → m (Except FileFault Unit)
  /-- The absolute path of the folder that relative paths start from. -/
  workingFolder : m Path
  /-- The time by the clock of the file system. -/
  now : m Instant

namespace FileSystem

instance {m n : Type → Type} [FileSystem m] [MonadLift m n] : FileSystem n where
  kind? path := monadLift (kind? path : m _)
  read path := monadLift (read path : m _)
  list path := monadLift (list path : m _)
  write path bytes := monadLift (write path bytes : m _)
  move source target := monadLift (move source target : m _)
  createFolder path := monadLift (createFolder path : m _)
  workingFolder := monadLift (workingFolder : m _)
  now := monadLift (now : m _)

variable {m : Type → Type} [Monad m] [FileSystem m]

/-- Whether there is anything at a path. -/
def contains (path : Path) : m Bool := do
  return (← kind? path).toOption.isSome

def isFile (path : Path) : m Bool := do
  return (← kind? path).toOption == some .file

def isFolder (path : Path) : m Bool := do
  return (← kind? path).toOption == some .folder

/-- The text of a file. -/
def readText (path : Path) : m (Except FileFault String) := do
  match ← read path with
  | .error fault => return .error fault
  | .ok bytes =>
    match Text.Utf8.text? bytes with
    | some text => return .ok text
    | none => return .error .invalidText

def writeText (path : Path) (text : String) : m (Except FileFault Unit) :=
  write path (Text.Utf8.bytes text)

/-- An operation whose fault becomes an error of another kind. -/
def attempt {ε α : Type} (error : FileFault → ε) (operation : m (Except FileFault α)) :
    ExceptT ε m α :=
  ExceptT.mk do return (← operation).mapError error

/-- Makes a folder whose parent should exist.  A folder that is there already
is fine. -/
def ensureFolder (path : Path) : m (Except FileFault Unit) := do
  match ← createFolder path with
  | .ok () => return .ok ()
  | .error fault => return if ← isFolder path then .ok () else .error fault

/-- Makes folders, each inside the one after it in the list. -/
def createNested : List Path → m (Except FileFault Unit)
  | [] => return .ok ()
  | path :: above => do
    match ← ensureFolder path with
    -- The folder above is missing: it is made first.
    | .error .notFound =>
      match ← createNested above with
      | .ok () => ensureFolder path
      | .error fault => return .error fault
    | result => return result

end FileSystem

/-- Makes a folder and every folder above it that is missing. -/
def FileSystem.createFolders {m : Type → Type} [Monad m] [FileSystem m] (path : Path) :
    m (Except FileFault Unit) :=
  if path.text.isEmpty then return .ok () else createNested (path :: path.folders)

end Stitch
