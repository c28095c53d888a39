/-
Version ranges.

A range is a list of intervals; it holds the versions that lie in one of them.
Its expression is one of

* nothing, or a star: all versions;
* a version without brackets: that version alone;
* intervals with commas between them.  An interval is `[v]`, that version
  alone, or two ends with a comma between them, each of which may be absent; a
  square bracket includes the end and a round one leaves it out.

`Range.parse` reads an expression and names what is wrong with one that is
refused.
-/
import Stitch.Version.Basic
import Stitch.Text.Split

namespace Stitch

/-- One end of an interval. -/
structure Bound where
  version : Version
  inclusive : Bool
  deriving Repr, Inhabited

/-- The versions between two ends; an absent end is no limit. -/
structure Interval where
  lower : Option Bound
  upper : Option Bound
  deriving Repr, Inhabited

namespace Bound

/-- Whether a version lies above this lower end. -/
def admitsAbove (b : Bound) (v : Version) : Bool :=
  if b.inclusive then b.version.atMost v else b.version.before v

/-- Whether a version lies below this upper end. -/
def admitsBelow (b : Bound) (v : Version) : Bool :=
  if b.inclusive then v.atMost b.version else v.before b.version

end Bound

namespace Interval

/-- One version and those that are the same. -/
def exact (v : Version) : Interval := ⟨some ⟨v, true⟩, some ⟨v, true⟩⟩

def contains (i : Interval) (v : Version) : Bool :=
  i.lower.all (·.admitsAbove v) && i.upper.all (·.admitsBelow v)

def isUnbounded (i : Interval) : Bool := i.lower.isNone && i.upper.isNone

end Interval

/-- What is wrong with a range expression. -/
inductive RangeFault where
  | unbracketed
  | missingClosingBracket
  | trailingComma
  | missingComma
  | missingOpeningBracket
  | singleVersion
  | tooManyBounds
  | crossedBounds
  deriving DecidableEq, Repr, Inhabited

def RangeFault.message : RangeFault → String
  | unbracketed => "unbracketed range"
  | missingClosingBracket => "missing closing bracket"
  | trailingComma => "trailing comma"
  | missingComma => "expected ',' between intervals"
  | missingOpeningBracket => "interval must start with '[' or '('"
  | singleVersion => "single-version interval must be [v]"
  | tooManyBounds => "too many bounds in interval"
  | crossedBounds => "lower bound above upper bound"

/-- A range: its expression and the intervals that it stands for. -/
structure Range where
  text : String
  intervals : List Interval
  deriving Repr, Inhabited

namespace Range

/-- All versions. -/
def any : Range := ⟨"*", [⟨none, none⟩]⟩

/-- One version and those that are the same. -/
def exact (version : String) : Range := ⟨version, [.exact (.ofText version)]⟩

def contains (r : Range) (v : Version) : Bool := r.intervals.any (·.contains v)

/-- Whether an interval of the range has no ends. -/
def isAny (r : Range) : Bool := r.intervals.any (·.isUnbounded)

/-- An end of an interval; a blank text is an absent end. -/
def bound (text : List Char) (inclusive : Bool) : Option Bound :=
  let text := Text.trim text
  if text.isEmpty then none else some ⟨.ofText (String.ofList text), inclusive⟩

/-- The interval between two brackets. -/
def interval (lowerInclusive : Bool) (body : List Char) (upperInclusive : Bool) :
    Except RangeFault Interval :=
  match Text.cut ',' body with
  | none =>
    let version := Text.trim body
    if version.isEmpty || !lowerInclusive || !upperInclusive then .error .singleVersion
    else .ok (.exact (.ofText (String.ofList version)))
  | some (low, high) =>
    if high.contains ',' then .error .tooManyBounds
    else
      let lower := bound low lowerInclusive
      let upper := bound high upperInclusive
      match lower, upper with
      | some l, some u =>
        if u.version.before l.version then .error .crossedBounds else .ok ⟨lower, upper⟩
      | _, _ => .ok ⟨lower, upper⟩

def isOpening (c : Char) : Bool := c = '[' || c = '('

def isClosing (c : Char) : Bool := c = ']' || c = ')'

/-- Where the reader of an interval list stands. -/
inductive Scan where
  /-- An opening bracket is due. -/
  | opening
  /-- Inside an interval: its opening bracket, and its text so far, backwards. -/
  | inside (bracket : Char) (body : List Char)
  /-- After an interval, where a comma or the end is due. -/
  | after

/-- The intervals in the rest of an expression.  Blanks may stand around each
interval and around each comma. -/
def intervalsFrom : Scan → List Char → Except RangeFault (List Interval)
  | .opening, [] => .error .trailingComma
  | .opening, c :: cs =>
    if Text.isBlank c then intervalsFrom .opening cs
    else if isOpening c then intervalsFrom (.inside c []) cs
    else .error .missingOpeningBracket
  | .inside _ _, [] => .error .missingClosingBracket
  | .inside bracket body, c :: cs =>
    if isClosing c then do
      let first ← interval (bracket = '[') body.reverse (c = ']')
      let rest ← intervalsFrom .after cs
      return first :: rest
    else intervalsFrom (.inside bracket (c :: body)) cs
  | .after, [] => .ok []
  | .after, c :: cs =>
    if Text.isBlank c then intervalsFrom .after cs
    else if c = ',' then intervalsFrom .opening cs
    else .error .missingComma

/-- Reads a range expression. -/
def parse (text : String) : Except RangeFault Range :=
  let cs := Text.trim text.toList
  match cs with
  | [] | ['*'] => .ok any
  | c :: _ =>
    if isOpening c then return ⟨String.ofList cs, ← intervalsFrom .opening cs⟩
    else if cs.any fun c => c = ',' || isOpening c || isClosing c then .error .unbracketed
    else .ok (exact (String.ofList cs))

end Range

end Stitch
