/-
Files of environment variables.

A line gives a name and, after an equals sign, a value; `export` may stand before
the name.  A value ends at white space, after which only a comment may follow.
Quotes of either kind keep white space and line breaks together.  Outside single
quotes a backslash escapes and a dollar sign takes the value of another variable.

* `lines` puts the lines of a file together that quotes reach over;
* `entry` reads one of them;
* `load` adds the variables of a file to an environment, up to the first line
  that cannot be read.  A variable that is there already keeps its value.
-/
import Stitch.SortedMap
import Stitch.Text.Blank
import Stitch.Text.Scanner
import Stitch.Text.Utf8

namespace Stitch

/-- The names and values of environment variables. -/
abbrev Environment := SortedMap String String

namespace EnvironmentFile

/-! ### Lines -/

/-- Where a line stands when quotes are followed through it. -/
inductive Position where
  | plain
  | blank
  | escaped
  | inside (quote : Char)
  | escapedInside (quote : Char)
  | comment
  deriving DecidableEq, Repr, Inhabited

namespace Position

def open? (c : Char) : Option Position :=
  if c = '\\' then some escaped
  else if c = '"' ∨ c = '\'' then some (inside c)
  else none

/-- The position after a character. -/
def step (p : Position) (c : Char) : Position :=
  match p with
  | plain =>
    if Text.isBlank c ∧ c ≠ '\n' ∧ c ≠ '\r' then blank else (open? c).getD plain
  | blank => if c = '#' then comment else (open? c).getD plain
  | escaped => plain
  | inside quote =>
    if c = '\\' then escapedInside quote else if c = quote then plain else inside quote
  | escapedInside quote => inside quote
  | comment => comment

end Position

/-- Follows quotes through a line.  The line is cut before a comment. -/
def follow : Position → List Char → List Char × Position
  | p, [] => ([], p)
  | p, c :: cs =>
    let next := p.step c
    if next = .comment then ([], .comment)
    else
      let (kept, last) := follow next cs
      (c :: kept, last)

/-- A line without the line break at its end. -/
def withoutBreak (line : List Char) : List Char :=
  match line.reverse with
  | '\n' :: '\r' :: rest => rest.reverse
  | '\n' :: rest => rest.reverse
  | _ => line

/-- Puts together the lines that belong together, from what came before and the
lines that are left; `none` at the end stands for what cannot be read. -/
def assemble (before : List Char) (position : Position) :
    List (Option (List Char)) → List (Option (List Char))
  | [] => if before.isEmpty ∧ position = .plain then [] else [none]
  | none :: _ => [none]
  | some line :: rest =>
    if (Text.trimStart (before ++ line)).head? = some '#' then some [] :: assemble [] .plain rest
    else
      let (kept, position) := follow position line
      match position with
      | .plain => some (withoutBreak (before ++ kept)) :: assemble [] .plain rest
      | .comment => some (before ++ kept) :: assemble [] .plain rest
      | position => assemble (before ++ kept) position rest

/-- The lines of a file, put together; what comes after one that cannot be read
is left out. -/
def lines (bytes : List UInt8) : List (Option (List Char)) :=
  let content := if bytes.take 3 = [0xEF, 0xBB, 0xBF] then bytes.drop 3 else bytes
  assemble [] .plain ((Text.Utf8.lines content).map fun line => line.map String.toList)

/-! ### Values -/

/-- What a value is in the middle of. -/
structure ValueState where
  output : List Char := []
  /-- The quote that is open. -/
  quote : Option Char := none
  escaped : Bool := false
  /-- The name after a dollar sign, and whether it is in braces. -/
  name : Option (List Char × Bool) := none
  /-- White space has ended the value. -/
  ended : Bool := false
  /-- A comment follows. -/
  closed : Bool := false
  deriving Inhabited

/-- Whether a character belongs to the name after a dollar sign: letters and
digits do, and so does all that is beyond ASCII. -/
def isNamePart (c : Char) : Bool := c.isAlphanum || 0x80 ≤ c.toNat

/-- Puts the value of the name in its place. -/
def ValueState.substitute (lookup : String → String) (s : ValueState) : ValueState :=
  match s.name with
  | none => s
  | some (name, _) =>
    { s with output := s.output ++ (lookup (String.ofList name)).toList, name := none }

/-- Reads one more character of a value. -/
def ValueState.step (lookup : String → String) (s : ValueState) (c : Char) :
    Option ValueState :=
  if s.closed then some s
  else if s.ended then
    if c = ' ' ∨ c = '\t' then some s
    else if c = '#' then some { s with closed := true }
    else none
  else if s.escaped then
    if ['\\', '\'', '"', '$', ' '].contains c then
      some { s with output := s.output ++ [c], escaped := false }
    else if c = 'n' then some { s with output := s.output ++ ['\n'], escaped := false }
    else none
  else if s.quote = some '\'' then
    if c = '\'' then some { s with quote := none } else some { s with output := s.output ++ [c] }
  else
    match s.name with
    | some (name, braced) =>
      if isNamePart c then some { s with name := some (name ++ [c], braced) }
      else if braced then
        if c = '\x7d' then some (s.substitute lookup)
        else some { s with name := some (name ++ [c], true) }
      else if c = '\x7b' ∧ name.isEmpty then some { s with name := some ([], true) }
      else
        -- Whatever ends the name is a plain character, a quote too.
        let s := s.substitute lookup
        if c = '$' then some { s with name := some ([], false) }
        else some { s with output := s.output ++ [c] }
    | none =>
      if c = '$' then some { s with name := some ([], false) }
      else if c = '\\' then some { s with escaped := true }
      else if s.quote = some '"' then
        if c = '"' then some { s with quote := none }
        else some { s with output := s.output ++ [c] }
      else if c = '\'' ∨ c = '"' then some { s with quote := some c }
      else if c = ' ' ∨ c = '\t' then some { s with ended := true }
      else some { s with output := s.output ++ [c] }

/-- Reads a value. -/
def value? (lookup : String → String) (text : List Char) : Option String := do
  let s ← text.foldlM (ValueState.step lookup) {}
  if s.quote.isSome || s.name.any (·.2) then none
  else return String.ofList (s.substitute lookup).output

/-! ### Entries -/

open Scanner

/-- A name: a letter or an underscore, then letters, digits, underscores and dots. -/
def name : Scanner String := do
  let first ← one fun c => c.isAlpha || c = '_'
  return String.ofList (first :: (← span fun c => c.isAlphanum || c = '_' || c = '.'))

def blanks : Scanner Unit := do
  let _ ← span Text.isBlank

/-- The name in a line, up to its value. -/
def target : Scanner String := do
  let first ← name
  blanks
  if first = "export" then
    (do char '='; return first) <|> (do let second ← name; blanks; char '='; return second)
  else
    char '='
    return first

/-- The name in a line and the text of its value; `none` for a line without one. -/
def entry : Scanner (Option (String × List Char)) := do
  blanks
  let rest ← get
  if rest.isEmpty ∨ rest.head? = some '#' then
    set ([] : List Char)
    return none
  else
    let name ← target
    blanks
    let value ← get
    set ([] : List Char)
    return some (name, if value.head? = some '#' then [] else value)

/-- Adds the variables of some lines to an environment.  `known` has the values
that the lines before gave. -/
def loadLines (known : Environment) : List (Option (List Char)) → Environment → Environment
  | [], env => env
  | none :: _, env => env
  | some line :: rest, env =>
    match entry (Text.trimEnd line) with
    | none => env
    | some (none, _) => loadLines known rest env
    | some (some (name, text), _) =>
      let lookup (name : String) := ((env.get? name).orElse fun _ => known.get? name).getD ""
      match value? lookup text with
      | none => env
      | some value =>
        loadLines (known.insert name value) rest
          (if env.contains name then env else env.insert name value)

/-- Adds the variables of a file to an environment. -/
def load (bytes : List UInt8) (env : Environment) : Environment :=
  loadLines {} (lines bytes) env

end EnvironmentFile

end Stitch
