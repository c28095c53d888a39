/-
How the tables of a TOML document grow.

A path of names leads from table to table; what is missing on the way is made,
and of a list of tables the last one is entered.  `walk` follows a path and
changes the table at its end.  A name gets a value once only:

* a header may open a table that headers further in have named, but no other;
* a dotted key enters only tables that no header opened, and sets names only in
  tables that dotted keys made.
-/
import Stitch.Toml.Basic

namespace Stitch.Toml

/-- The names of a table and their values. -/
abbrev Members := List (String × Toml)

/-- Sets a name, in its place or at the end. -/
def set (name : String) (value : Toml) : Members → Members
  | [] => [(name, value)]
  | m :: ms => if m.1 = name then (name, value) :: ms else m :: set name value ms

/-- A change of a table, which may not be allowed. -/
abbrev Change := TableOrigin → Members → Option (TableOrigin × Members)

/-- Follows a path of names and changes the table at its end; `byKey` says
whether a dotted key or a header names the path. -/
def walk (byKey : Bool) (change : Change) : List String → Change
  | [], origin, members => change origin members
  | name :: path, origin, members => do
    match members.lookup name with
    | none =>
      let (inner, found) ← walk byKey change path (if byKey then .dotted else .implied) []
      return (origin, set name (.table inner found) members)
    | some (.table inner found) =>
      -- Tables in braces are closed, and so is a table with a header to keys.
      if inner = .inline ∨ (byKey ∧ inner = .header) then failure
      let (inner, found) ← walk byKey change path inner found
      return (origin, set name (.table inner found) members)
    | some (.tables items) =>
      let last ← items.getLast?
      let (_, found) ← walk byKey change path .header last
      return (origin, set name (.tables (items.dropLast ++ [found])) members)
    | some _ => failure

/-- Gives a name its value. -/
def define (name : String) (value : Toml) (direct : Bool) : Change := fun origin members =>
  if (origin == .dotted) == direct ∨ (members.lookup name).isSome then none
  else some (origin, set name value members)

/-- Sets a dotted key, from the table that it is read in. -/
def assign (key : List String) (value : Toml) : Change := fun origin members => do
  let name ← key.getLast?
  walk true (define name value key.dropLast.isEmpty) key.dropLast origin members

/-- Opens a table under a header. -/
def openTable (name : String) : Change := fun origin members =>
  match members.lookup name with
  | none => some (origin, set name (.table .header []) members)
  | some (.table .implied found) => some (origin, set name (.table .header found) members)
  | some _ => none

/-- Opens one more table of a list of tables. -/
def openItem (name : String) : Change := fun origin members =>
  match members.lookup name with
  | none => some (origin, set name (.tables [[]]) members)
  | some (.tables items) => some (origin, set name (.tables (items ++ [[]])) members)
  | some _ => none

/-- The table in braces with these keys and values. -/
def inlineTable (pairs : List (List String × Toml)) : Option Toml := do
  let (_, members) ← pairs.foldlM (fun (origin, members) pair =>
    assign pair.1 pair.2 origin members) (TableOrigin.header, ([] : Members))
  return .table .inline members

end Stitch.Toml
