/-
Writing JSON values.

* `compact` writes no white space;
* `pretty` indents by two spaces a level and puts each item and member on a
  line of its own; empty arrays and objects stay on one line.

In a string a quote, a backslash and the control characters are escaped, by a
letter where there is one; every other character stands for itself.
-/
import Stitch.Json.Basic
import Stitch.Text.Hex

namespace Stitch.Json

/-- A character of a string literal as it is written. -/
def escape (c : Char) : List Char :=
  if c = '"' then ['\\', '"']
  else if c = '\\' then ['\\', '\\']
  else if c = '\x08' then ['\\', 'b']
  else if c = '\x0c' then ['\\', 'f']
  else if c = '\n' then ['\\', 'n']
  else if c = '\r' then ['\\', 'r']
  else if c = '\t' then ['\\', 't']
  else if c.toNat < 0x20 then ['\\', 'u', '0', '0'] ++ Text.Hex.lowerDigits c.toNat.toUInt8
  else [c]

/-- A string literal. -/
def quoted (s : String) : String :=
  "\"" ++ String.ofList (s.toList.flatMap escape) ++ "\""

mutual

/-- The text of a value without white space. -/
def compact : Json → String
  | .null => "null"
  | .bool b => if b then "true" else "false"
  | .int i => toString i
  | .decimal text => text
  | .string s => quoted s
  | .array items => "[" ++ String.intercalate "," (compactItems items) ++ "]"
  | .object members => "\x7b" ++ String.intercalate "," (compactMembers members) ++ "\x7d"

def compactItems : List Json → List String
  | [] => []
  | v :: vs => compact v :: compactItems vs

def compactMembers : List (String × Json) → List String
  | [] => []
  | (name, v) :: ms => (quoted name ++ ":" ++ compact v) :: compactMembers ms

end

/-- A line break and the indentation of a level. -/
def lineBreak (level : Nat) : String :=
  "\n" ++ String.ofList (List.replicate (2 * level) ' ')

/-- Brackets around lines one level further in. -/
def block (left right : String) (level : Nat) : List String → String
  | [] => left ++ right
  | lines =>
    left ++ lineBreak (level + 1) ++ String.intercalate ("," ++ lineBreak (level + 1)) lines ++
      lineBreak level ++ right

mutual

/-- The text of a value that stands at an indentation level. -/
def prettyAt (level : Nat) : Json → String
  | .array items => block "[" "]" level (prettyItems (level + 1) items)
  | .object members => block "\x7b" "\x7d" level (prettyMembers (level + 1) members)
  | .null => "null"
  | .bool b => if b then "true" else "false"
  | .int i => toString i
  | .decimal text => text
  | .string s => quoted s

def prettyItems (level : Nat) : List Json → List String
  | [] => []
  | v :: vs => prettyAt level v :: prettyItems level vs

def prettyMembers (level : Nat) : List (String × Json) → List String
  | [] => []
  | (name, v) :: ms => (quoted name ++ ": " ++ prettyAt level v) :: prettyMembers level ms

end

/-- The indented text of a document. -/
def pretty (v : Json) : String := prettyAt 0 v

end Stitch.Json
