/-
TOML documents: values, lines, and what the lines say together.

* `value` scans a value, up to a depth of nesting;
* `line` scans a line, `read` puts one after the other;
* `parse?` reads a document.
-/
import Stitch.Toml.Scalar
import Stitch.Toml.Table

namespace Stitch.Toml

namespace Scan

open Scanner

/-- A key, an equals sign and a value. -/
def pair (value : Scanner Toml) : Scanner (List String × Toml) := do
  let names ← key
  char '='
  spaces
  return (names, ← value)

def arrayOf (value : Scanner Toml) : Scanner Toml := do
  char '['
  let items ← optional (separated (char ',') (do gap; let item ← value; gap; return item))
  if items.isSome then let _ ← optional (char ',')
  gap
  char ']'
  return .array (items.getD [])

def tableOf (value : Scanner Toml) : Scanner Toml := do
  char '\x7b'
  spaces
  let pairs ← optional (separated (char ',') (do let p ← pair value; spaces; return p))
  spaces
  char '\x7d'
  liftM (inlineTable (pairs.getD []))

/-- A value that nests arrays and tables in braces up to a depth. -/
def value : Nat → Scanner Toml
  | 0 => scalar
  | depth + 1 => arrayOf (value depth) <|> tableOf (value depth) <|> scalar

end Scan

/-- What a line says. -/
inductive Line where
  | blank
  | table (path : List String)
  | item (path : List String)
  | assignment (key : List String) (value : Toml)
  deriving Repr, Inhabited

/-- What has been read of a document. -/
structure Progress where
  members : Members := []
  /-- The path of the header that the lines are under. -/
  current : List String := []

/-- Changes a table of the document. -/
def Progress.change (p : Progress) (path : List String) (change : Change) : Option Members :=
  (walk false change path .header p.members).map (·.2)

/-- Reads one more line. -/
def Progress.read (p : Progress) : Line → Option Progress
  | .blank => some p
  | .table path => do
    return ⟨← p.change path.dropLast (openTable (← path.getLast?)), path⟩
  | .item path => do
    return ⟨← p.change path.dropLast (openItem (← path.getLast?)), path⟩
  | .assignment key value => do
    return { p with members := ← p.change p.current (assign key value) }

namespace Scan

open Scanner

/-- A line with its end. -/
def line : Scanner Line := do
  let found ←
    (do comment; lineBreak <|> atEnd; return .blank) <|>
    (do lineBreak; return .blank) <|>
    (do word "[["; let path ← key; word "]]"; lineEnd; return .item path) <|>
    (do char '['; let path ← key; char ']'; lineEnd; return .table path) <|>
    (do let p ← pair (value (depthLimit - 1)); lineEnd; return .assignment p.1 p.2)
  spaces
  return found

/-- The lines of a document, which may begin with a byte order mark. -/
def lines : Scanner (List Line) := do
  let _ ← optional (char '\uFEFF')
  spaces
  many line

end Scan

/-- The table that a document says. -/
def parse? (text : String) : Option Toml := do
  let progress ← (← Scan.lines.whole? text).foldlM Progress.read {}
  return .table .header progress.members

end Stitch.Toml
