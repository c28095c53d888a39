/-
Reading documents into typed values.

A record is read from an object, by the names of its fields, or from an array,
by their order.  In an object unknown names are ignored and a known name may
not come twice; an array may leave out fields at its end and may not be longer
than the record.  A field that is absent is `none`, and each field says what
that means: `required` refuses it, `orElse` puts a default in its place.
An explicit `null` is a value, which only `optional` fields accept.

An enumeration is the name of a case, or an object with that name and `null`.
-/
import Stitch.Json.Basic

namespace Stitch.Json

/-- The values of a record's fields, in the order of their names. -/
def fields? (names : List String) : Json → Option (List (Option Json))
  | .object members =>
    names.mapM fun name =>
      match members.filter fun m => m.1 == name with
      | [] => some none
      | [m] => some (some m.2)
      | _ => none
  | .array items =>
    if items.length ≤ names.length then
      some (items.map some ++ List.replicate (names.length - items.length) none)
    else none
  | _ => none

def string? : Json → Option String
  | .string s => some s
  | _ => none

def bool? : Json → Option Bool
  | .bool b => some b
  | _ => none

/-- A signed integer of 64 bits. -/
def int64? : Json → Option Int
  | .int i => 
    if -9223372036854775808 ≤ i ∧ i < 9223372036854775808 then some i else none
  | _ => none

/-- An unsigned integer of 64 bits. -/
def nat64? : Json → Option Nat
  | .int i => if 0 ≤ i ∧ i < 18446744073709551616 then some i.toNat else none
  | _ => none

def list? {α : Type} (item : Json → Option α) : Json → Option (List α)
  | .array items => items.mapM item
  | _ => none

def strings? (v : Json) : Option (List String) := v.list? string?

/-- The members of an object that is a map; of a repeated name the last counts. -/
def members? {α : Type} (item : Json → Option α) : Json → Option (List (String × α))
  | .object members => members.mapM fun m => (item m.2).map fun v => (m.1, v)
  | _ => none

/-- The name of an enumeration's case. -/
def case? : Json → Option String
  | .string name => some name
  | .object [(name, .null)] => some name
  | _ => none

/-- A field that has to be there. -/
def required {α : Type} (read : Json → Option α) : Option Json → Option α
  | some v => read v
  | none => none

/-- A field with a default. -/
def orElse {α : Type} (default : α) (read : Json → Option α) : Option Json → Option α
  | some v => read v
  | none => some default

/-- A field that may be absent or `null`. -/
def optional {α : Type} (read : Json → Option α) : Option Json → Option (Option α)
  | some .null => some none
  | some v => (read v).map some
  | none => some none

end Stitch.Json
