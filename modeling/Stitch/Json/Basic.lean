/-
JSON values.

A document is kept as it is written as far as a reader can tell: an object is
the list of its members in their order, repeated names included, and a number
is an integer of any size or, when it has a fraction or an exponent, its text.
-/

namespace Stitch

inductive Json where
  | null
  | bool (value : Bool)
  /-- A number written without fraction and exponent. -/
  | int (value : Int)
  /-- Any other number, by its text: it has a fraction or an exponent, or is a
  negative zero. -/
  | decimal (text : String)
  | string (value : String)
  | array (items : List Json)
  | object (members : List (String × Json))
  deriving Repr, BEq, Inhabited

namespace Json

/-- A natural number as a value. -/
def nat (n : Nat) : Json := .int n

/-- A list of texts as a value. -/
def strings (texts : List String) : Json := .array (texts.map .string)

/-- The value of the last member of this name. -/
def get? (name : String) : Json → Option Json
  | .object members => (members.reverse.find? fun m => m.1 == name).map (·.2)
  | _ => none

end Json

end Stitch
