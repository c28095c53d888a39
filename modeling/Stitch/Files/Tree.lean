/-
A file system as a value.

A tree has an entry for every file and folder, under the names that lead to it
from the root; the root is a folder without an entry.  A path is walked name by
name, through folders that exist, from the root or from the working folder.

* `locate` walks a path; the place it leads to need not exist;
* `find` gives the entry there;
* `write`, `move`, `createFolder` and `remove` change the tree.

A program over the class `FileSystem` runs on a tree in `StateM FileTree`.
-/
import Stitch.Files.FileSystem
import Stitch.SortedMap
import Stitch.Text.Utf8

namespace Stitch

/-- The names that lead from the root to a file or folder. -/
abbrev Location := List String

inductive FileEntry where
  | folder
  | file (bytes : List UInt8)
  deriving DecidableEq, Repr, Inhabited

def FileEntry.kind : FileEntry → FileKind
  | folder => .folder
  | file _ => .file

structure FileTree where
  entries : SortedMap Location FileEntry := {}
  /-- Where relative paths start. -/
  workingFolder : Location := []
  /-- What the clock shows. -/
  now : Instant := .epoch

namespace FileTree

instance : Inhabited FileTree := ⟨{}⟩

/-- The entry of a place. -/
def entry? (t : FileTree) (place : Location) : Option FileEntry :=
  if place.isEmpty then some .folder else t.entries.get? place

/-- The greatest number of bytes that a name may have. -/
def nameLimit : Nat := 255

/-- Goes from a place to one of its names. -/
def step (t : FileTree) (place : Location) (name : String) : Except FileFault Location :=
  match t.entry? place with
  | none => .error .notFound
  | some (.file _) => .error .notFolder
  | some .folder =>
    if name = ".." then .ok place.dropLast
    else if nameLimit < (Text.Utf8.bytes name).length then .error .nameTooLong
    else .ok (place ++ [name])

/-- The place that a path leads to.  All but the last name have to exist. -/
def locate (t : FileTree) (path : Path) : Except FileFault Location :=
  if path.text.isEmpty then .error .notFound
  else if path.text.toList.contains '\x00' then .error .invalidName
  else path.names.foldlM t.step (if path.isAbsolute then [] else t.workingFolder)

/-- The entry that a path leads to.  A path with a slash or a dot at its end
leads to folders only. -/
def find (t : FileTree) (path : Path) : Except FileFault FileEntry := do
  match t.entry? (← t.locate path) with
  | none => .error .notFound
  | some .folder => .ok .folder
  | some (.file bytes) =>
    if path.endsInSlash || path.endsInDot then .error .notFolder else .ok (.file bytes)

def read (t : FileTree) (path : Path) : Except FileFault (List UInt8) := do
  match ← t.find path with
  | .folder => .error .isFolder
  | .file bytes => .ok bytes

/-- The names inside a place, in order. -/
def namesIn (t : FileTree) (place : Location) : List String :=
  t.entries.keys.filterMap fun key =>
    if key.dropLast = place then key.getLast? else none

def list (t : FileTree) (path : Path) : Except FileFault (List String) := do
  match ← t.find path with
  | .folder => return t.namesIn (← t.locate path)
  | .file _ => .error .notFolder

/-- The tree with another entry at a place. -/
def setEntry (t : FileTree) (place : Location) (entry : FileEntry) : FileTree :=
  { t with entries := t.entries.insert place entry }

/-- Writes a file in a folder that exists. -/
def write (t : FileTree) (path : Path) (bytes : List UInt8) : Except FileFault FileTree := do
  let place ← t.locate path
  match t.entry? place with
  | some .folder => .error .isFolder
  | some (.file _) =>
    if path.endsInSlash || path.endsInDot then .error .notFolder
    else .ok (t.setEntry place (.file bytes))
  | none =>
    -- A name with a slash after it can be no file, and a dot needs its folder.
    if path.endsInSlash then .error .isFolder
    else if path.endsInDot then .error .notFound
    else .ok (t.setEntry place (.file bytes))

/-- Makes a folder in a folder that exists. -/
def createFolder (t : FileTree) (path : Path) : Except FileFault FileTree := do
  let place ← t.locate path
  match t.entry? place with
  | some _ => .error .exists
  | none => if path.endsInDot then .error .notFound else .ok (t.setEntry place .folder)

/-- Takes away the file at a path. -/
def remove (t : FileTree) (path : Path) : Except FileFault FileTree := do
  match ← t.find path with
  | .folder => .error .isFolder
  | .file _ => return { t with entries := t.entries.erase (← t.locate path) }

/-- Gives a file another path. -/
def move (t : FileTree) (source target : Path) : Except FileFault FileTree := do
  let bytes ← t.read source
  (← t.remove source).write target bytes

/-- Runs an operation on the tree of a state; a failure leaves the tree alone. -/
def change (f : FileTree → Except FileFault FileTree) : StateM FileTree (Except FileFault Unit) :=
  fun t =>
    match f t with
    | .ok t' => (.ok (), t')
    | .error fault => (.error fault, t)

instance : FileSystem (StateM FileTree) where
  kind? path := return ((← get).find path).map FileEntry.kind
  read path := return (← get).read path
  list path := return (← get).list path
  write path bytes := change fun t => t.write path bytes
  move source target := change fun t => t.move source target
  createFolder path := change fun t => t.createFolder path
  workingFolder := return ⟨"/" ++ String.intercalate "/" (← get).workingFolder⟩
  now := return (← get).now

end FileTree

end Stitch
