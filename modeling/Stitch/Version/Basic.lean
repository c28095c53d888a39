/-
Versions and their order.

A version is a text of components, parted by dots, dashes, underscores and by
every change between digits and other characters.  Two versions are compared
component by component; where one has ended, a number stands against zero and a
qualifier against a release.

* numbers come after qualifiers, and qualifiers in the order alpha, beta,
  milestone, rc, snapshot, release, sp, then all others by their text;
* zeros and release marks at the end are dropped, so that 1, 1.0 and 1.0.ga are
  the same version;
* two versions are the same, `==`, when neither comes before the other; their
  texts may differ.
-/
import Stitch.Text.Blank

namespace Stitch

/-- One component of a version. -/
inductive Component where
  | number (n : Nat)
  | qualifier (name : String)
  deriving DecidableEq, Repr, Inhabited

namespace Component

/-- The place of a qualifier; qualifiers without a place of their own come last. -/
def rank (name : String) : Nat :=
  if name = "alpha" then 0
  else if name = "beta" then 1
  else if name = "milestone" then 2
  else if name = "rc" then 3
  else if name = "snapshot" then 4
  else if name = "" then 5
  else if name = "sp" then 6
  else 7

/-- Qualifiers compare by place, and those that share the last place by text. -/
def compareNames (a b : String) : Ordering :=
  if rank a = 7 ∧ rank b = 7 then compare a b else compare (rank a) (rank b)

def compare : Component → Component → Ordering
  | number a, number b => Ord.compare a b
  | number _, qualifier _ => .gt
  | qualifier _, number _ => .lt
  | qualifier a, qualifier b => compareNames a b

/-- A component against the end of the other version. -/
def compareToEnd : Component → Ordering
  | number n => Ord.compare n 0
  | qualifier name => compareNames name ""

/-- A zero or a release mark, which at the end of a version says nothing. -/
def isTrailing : Component → Bool
  | number n => n == 0
  | qualifier name => name.isEmpty

/-- The greatest number that a component holds; longer digits count as this. -/
def maxNumber : Nat := 18446744073709551615

/-- The full name of an abbreviated qualifier; release marks have none. -/
def fullName (name : String) : String :=
  if name = "a" then "alpha"
  else if name = "b" then "beta"
  else if name = "m" then "milestone"
  else if name = "cr" then "rc"
  else if name = "ga" ∨ name = "final" ∨ name = "release" then ""
  else name

/-- The component that a token stands for. -/
def ofToken (token : List Char) : Component :=
  if token.all Char.isDigit then number (min (Nat.ofDigitChars 10 token 0) maxNumber)
  else qualifier (fullName (String.ofList token))

end Component

/-- A version: its trimmed text and the components that order it. -/
structure Version where
  text : String
  components : List Component
  deriving Repr, Inhabited

namespace Version

def isSeparator (c : Char) : Bool := c = '.' || c = '-' || c = '_'

/-- Whether a token that ends in this character goes on in the text after it. -/
def goesOn (c : Char) : List Char → Bool
  | [] => false
  | d :: _ => !isSeparator d && d.isDigit == c.isDigit

/-- The tokens of a version: runs of digits and runs of other characters
between separators. -/
def tokens : List Char → List (List Char)
  | [] => []
  | c :: cs =>
    if isSeparator c then tokens cs
    else
      -- The token of the next character is this one's too, unless it ends here.
      match tokens cs with
      | t :: ts => if goesOn c cs then (c :: t) :: ts else [c] :: t :: ts
      | [] => [[c]]

/-- Components without the trailing ones that say nothing. -/
def withoutTrailing (components : List Component) : List Component :=
  (components.reverse.dropWhile Component.isTrailing).reverse

/-- Reads a version; every text is one. -/
def ofText (text : String) : Version :=
  let trimmed := Text.trim text.toList
  { text := String.ofList trimmed
    components :=
      withoutTrailing ((tokens (trimmed.map Char.toLower)).map Component.ofToken) }

def compareComponents : List Component → List Component → Ordering
  | [], [] => .eq
  | a :: as, [] => a.compareToEnd.then (compareComponents as [])
  | [], b :: bs => b.compareToEnd.swap.then (compareComponents [] bs)
  | a :: as, b :: bs => (a.compare b).then (compareComponents as bs)

def compare (a b : Version) : Ordering := compareComponents a.components b.components

instance : Ord Version := ⟨compare⟩

/-- Versions are the same when neither comes before the other. -/
instance : BEq Version := ⟨fun a b => a.compare b == .eq⟩

/-- Whether a version comes before another. -/
def before (a b : Version) : Bool := a.compare b == .lt

/-- Whether a version does not come after another. -/
def atMost (a b : Version) : Bool := (a.compare b).isLE

end Version

end Stitch
