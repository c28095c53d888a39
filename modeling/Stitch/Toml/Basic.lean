/-
TOML values.

Numbers and dates that no setting has are kept by their text.  A table knows how
it came to be, because that says how it may grow: by the lines under its header,
by headers further in, by dotted keys, or not at all once it is closed.
-/

namespace Stitch

inductive TableOrigin where
  /-- The table has a header of its own. -/
  | header
  /-- The table was named on the way to a header. -/
  | implied
  /-- The table was named on the way to a dotted key. -/
  | dotted
  /-- The table was written in braces. -/
  | inline
  deriving DecidableEq, Repr, Inhabited

inductive Toml where
  | string (value : String)
  | bool (value : Bool)
  | int (value : Int)
  /-- A number with a fraction or an exponent, infinity, or no number. -/
  | decimal (text : String)
  /-- A date, a time of day or both. -/
  | date (text : String)
  | array (items : List Toml)
  | table (origin : TableOrigin) (members : List (String × Toml))
  /-- A list of tables that each have a header. -/
  | tables (items : List (List (String × Toml)))
  deriving Repr, BEq, Inhabited

namespace Toml

/-- The items of an array of either form. -/
def items? : Toml → Option (List Toml)
  | array items => some items
  | tables items => some (items.map (table .header))
  | _ => none

/-- The values of a record's fields: by their names from a table, by their order
from an array.  A date is a record of another kind, which has none of them. -/
def fields? (names : List String) : Toml → Option (List (Option Toml))
  | table _ members => some (names.map fun name => members.lookup name)
  | date _ => some (names.map fun _ => none)
  | v => v.items?.map fun items => (List.range names.length).map fun i => items[i]?

def string? : Toml → Option String
  | string s => some s
  | _ => none

def bool? : Toml → Option Bool
  | bool b => some b
  | _ => none

def list? {α : Type} (item : Toml → Option α) (v : Toml) : Option (List α) :=
  v.items? >>= fun items => items.mapM item

/-- The name of an enumeration's case: a string, or a table with that name and
nothing in it. -/
def case? : Toml → Option String
  | string name => some name
  | table _ [(name, table _ [])] => some name
  | table _ [(name, array [])] => some name
  | _ => none

/-- A field with a default. -/
def orElse {α : Type} (default : α) (read : Toml → Option α) : Option Toml → Option α
  | some v => read v
  | none => some default

end Toml

end Stitch
