/-
Paths of files and folders, as texts.

A path is written as it was given and shown as it was given.  It names a place
by the names between its slashes: empty names and single dots do not count, two
dots go up, and a path that begins with a slash starts at the root.

* `join` puts a path behind another one; an absolute path replaces it;
* `parent?` leaves out the last name, and `folders` are all the paths above;
* `stem` and `extension?` split a file name at its last dot.
-/
import Stitch.Text.Split

namespace Stitch

structure Path where
  text : String
  deriving DecidableEq, Hashable, Repr, Inhabited

namespace Path

def isAbsolute (p : Path) : Bool := p.text.toList.head? == some '/'

/-- The pieces of a path between its slashes. -/
def pieces (p : Path) : List (List Char) := Text.parts '/' p.text.toList

/-- The names that a path goes through. -/
def names (p : Path) : List String :=
  (p.pieces.filter fun piece => piece ≠ [] && piece ≠ ['.']).map String.ofList

/-- Whether the path ends in a slash. -/
def endsInSlash (p : Path) : Bool := p.text.toList.getLast? == some '/'

/-- Whether the path ends in a single dot for the folder before it. -/
def endsInDot (p : Path) : Bool := p.pieces.getLast? == some ['.']

/-- A path behind a folder's path. -/
def join (folder : Path) (inner : Path) : Path :=
  if inner.isAbsolute then inner
  else if folder.text.isEmpty || folder.endsInSlash then ⟨folder.text ++ inner.text⟩
  else ⟨folder.text ++ "/" ++ inner.text⟩

/-- The path through the first names of a path. -/
def through (p : Path) (count : Nat) : Path :=
  ⟨(if p.isAbsolute then "/" else "") ++ String.intercalate "/" (p.names.take count)⟩

/-- The path without its last name, if it has one. -/
def parent? (p : Path) : Option Path :=
  if p.names.isEmpty then none else some (p.through (p.names.length - 1))

/-- The folders that a path goes through before its last name, innermost first. -/
def folders (p : Path) : List Path :=
  (List.range (p.names.length - 1)).reverse.map fun n => p.through (n + 1)

/-- The name of a file before its last dot and the extension after it.  A name
whose only dot is its first character has no extension. -/
def splitName (name : String) : String × Option String :=
  match Text.cutLast '.' name.toList with
  | some (before, after) =>
    if before.isEmpty then (name, none) else (String.ofList before, some (String.ofList after))
  | none => (name, none)

/-- The extension of a file name. -/
def extension? (name : String) : Option String := (splitName name).2

end Path

end Stitch
