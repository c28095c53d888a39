/-
Scanners: steps that read the start of a text.

A scanner takes characters off the front of what is left and has a result, or
fails; where one fails another may be tried in its place.  `many` repeats a
scanner as long as it takes something off, and `whole?` asks for all of a text
to be read.
-/
import Stitch.Text.Split

namespace Stitch

/-- A step that reads the start of a text. -/
abbrev Scanner := StateT (List Char) Option

namespace Scanner

/-- A character with a property. -/
def one (p : Char → Bool) : Scanner Char
  | c :: cs => if p c then some (c, cs) else none
  | [] => none

/-- This character. -/
def char (c : Char) : Scanner Unit := do
  let _ ← one (· == c)

/-- This text. -/
def word (w : String) : Scanner Unit := w.toList.forM char

/-- The characters with a property that come next. -/
def span (p : Char → Bool) : Scanner (List Char) := fun cs =>
  some (cs.takeWhile p, cs.dropWhile p)

/-- As many characters with a property. -/
def exactly (count : Nat) (p : Char → Bool) : Scanner (List Char) := fun cs =>
  if (cs.take count).length = count ∧ (cs.take count).all p then
    some (cs.take count, cs.drop count)
  else none

/-- The next character, which is not taken. -/
def peek : Scanner (Option Char) := fun cs => some (cs.head?, cs)

/-- The end of the text. -/
def atEnd : Scanner Unit := fun cs => if cs.isEmpty then some ((), cs) else none

/-- Repeats a scanner up to a number of times, as long as it takes something. -/
def manyUpTo {α : Type} (s : Scanner α) : Nat → Scanner (List α)
  | 0 => pure []
  | n + 1 => fun cs =>
    match s cs with
    | some (x, rest) =>
      if rest.length < cs.length then (do return x :: (← manyUpTo s n)) rest else some ([], cs)
    | none => some ([], cs)

/-- Repeats a scanner as long as it takes something. -/
def many {α : Type} (s : Scanner α) : Scanner (List α) := fun cs => manyUpTo s cs.length cs

/-- Items with a separator between them, none at the end. -/
def separated {α : Type} (separator : Scanner Unit) (item : Scanner α) : Scanner (List α) := do
  let first ← item
  let rest ← many (do separator; item)
  return first :: rest

/-- What a scanner makes of all of a text. -/
def whole? {α : Type} (s : Scanner α) (text : String) : Option α :=
  (do let x ← s; atEnd; return x : Scanner α).run' text.toList

end Scanner

end Stitch
