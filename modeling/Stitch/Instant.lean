/-
Points in time, by their text.

An instant is a date, a time of day and a distance from UTC.  Some freedom is
given: the date may be followed by a space in place of the letter T, numbers
may be short, and white space may stand before numbers and their marks.  What
is said has to be a day of the calendar and a time of that day; a minute may
have a leap second.

* `ofText?` reads a text, `ofEpoch` writes the text of seconds since the epoch.
-/
import Stitch.Text.Blank
import Stitch.Text.Scanner

namespace Stitch

namespace Instant

/-- What a text says about a point in time. -/
structure Reading where
  year : Int
  month : Nat
  day : Nat
  hour : Nat
  minute : Nat
  second : Nat
  /-- The distance from UTC in minutes, to either side. -/
  offset : Nat
  deriving DecidableEq, Repr, Inhabited

def isLeapYear (year : Int) : Bool := year % 4 = 0 && (year % 100 ≠ 0 || year % 400 = 0)

def daysInMonth (year : Int) (month : Nat) : Nat :=
  if month = 2 then if isLeapYear year then 29 else 28
  else if month = 4 || month = 6 || month = 9 || month = 11 then 30 else 31

/-- The years that have a calendar. -/
def firstYear : Int := -262143

def lastYear : Int := 262142

/-- Whether a reading is a day of the calendar and a time of that day. -/
def Reading.isPossible (r : Reading) : Bool :=
  firstYear ≤ r.year && r.year ≤ lastYear && 1 ≤ r.month && r.month ≤ 12 && 1 ≤ r.day &&
    r.day ≤ daysInMonth r.year r.month && r.hour ≤ 23 && r.minute ≤ 59 && r.second ≤ 60 &&
    r.offset < 24 * 60

def blanks : Scanner Unit := modify Text.trimStart

/-- A number of up to this many digits. -/
def number (most : Nat) : Scanner Nat := fun cs =>
  match (cs.take most).takeWhile Char.isDigit with
  | [] => none
  | digits => some (Nat.ofDigitChars 10 digits 0, cs.drop digits.length)

/-- A number of up to two digits after white space. -/
def paddedNumber : Scanner Nat := do
  blanks
  number 2

/-- A year, of up to four digits or with a sign. -/
def year : Scanner Int := do
  blanks
  let cs ← get
  match cs with
  | '-' :: rest => set rest; return -(← number rest.length)
  | '+' :: rest => set rest; return ← number rest.length
  | _ => return ← number 4

/-- A mark after white space. -/
def mark (c : Char) : Scanner Unit := do
  blanks
  Scanner.char c

/-- The part of a second, if there is one. -/
def fraction : Scanner Unit := do
  let cs ← get
  match cs with
  | '.' :: rest => set rest; let _ ← number rest.length
  | _ => return ()

/-- Two digits exactly. -/
def twoDigits : Scanner Nat := do
  return Nat.ofDigitChars 10 (← Scanner.exactly 2 Char.isDigit) 0

/-- The distance from UTC: its name, the letter Z, or hours and minutes. -/
def offset : Scanner Nat := do
  let cs ← get
  if Text.raised (String.ofList (cs.take 3)) = "UTC" then
    set (cs.drop 3)
    return 0
  else if cs.head? = some 'Z' || cs.head? = some 'z' then
    set (cs.drop 1)
    return 0
  else
    let _ ← Scanner.one fun c => c = '+' || c = '-' || c = '\u2212'
    let hours ← twoDigits
    let _ ← Scanner.span fun c => c = ':' || Text.isBlank c
    let minutes ← twoDigits
    if minutes ≤ 59 then return hours * 60 + minutes else failure

def reading : Scanner Reading := do
  let year ← year
  mark '-'
  let month ← paddedNumber
  mark '-'
  let day ← paddedNumber
  let _ ← Scanner.one fun c => c = 't' || c = 'T' || c = ' '
  let hour ← paddedNumber
  mark ':'
  let minute ← paddedNumber
  mark ':'
  let second ← paddedNumber
  fraction
  blanks
  let offset ← offset
  return { year, month, day, hour, minute, second, offset }

/-- What a text says, if all of it is a point in time. -/
def read? (text : String) : Option Reading := do
  let r ← (do let r ← reading; blanks; return r : Scanner Reading).whole? text
  if r.isPossible then some r else none

end Instant

structure Instant where
  text : String
  /-- The text says a point in time. -/
  readable : (Instant.read? text).isSome

namespace Instant

instance : DecidableEq Instant := fun a b =>
  decidable_of_iff (a.text = b.text) (by cases a; cases b; simp)

def ofText? (text : String) : Option Instant :=
  if h : (read? text).isSome then some ⟨text, h⟩ else none

/-- The start of the epoch. -/
def epoch : Instant := ⟨"1970-01-01T00:00:00Z", by decide⟩

instance : Inhabited Instant := ⟨epoch⟩

/-- Year, month and day of a number of days since the epoch.  The days are
counted from the first of March of a year that begins a cycle of 400 years, so
that a leap day is the last of its year. -/
def dateOfDay (days : Int) : Int × Int × Int :=
  -- 719468 days lie between the first of March of the year 0 and the epoch.
  let shifted := days + 719468
  let cycle := shifted / 146097
  let day := shifted % 146097
  let year := (day - day / 1460 + day / 36524 - day / 146096) / 365
  let dayOfYear := day - (365 * year + year / 4 - year / 100)
  let month := (5 * dayOfYear + 2) / 153
  let dayOfMonth := dayOfYear - (153 * month + 2) / 5 + 1
  let calendarMonth := if month < 10 then month + 3 else month - 9
  (year + 400 * cycle + (if calendarMonth ≤ 2 then 1 else 0), calendarMonth, dayOfMonth)

/-- A number with at least this many digits. -/
def padded (width : Nat) (n : Int) : String :=
  let digits := (toString n).toList
  String.ofList (List.replicate (width - digits.length) '0' ++ digits)

/-- The part of a second, with as many groups of three digits as it needs. -/
def fractionText (nanoseconds : Nat) : String :=
  if nanoseconds = 0 then ""
  else if nanoseconds % 1000000 = 0 then "." ++ padded 3 (nanoseconds / 1000000 : Nat)
  else if nanoseconds % 1000 = 0 then "." ++ padded 6 (nanoseconds / 1000 : Nat)
  else "." ++ padded 9 nanoseconds

/-- The instant at a number of seconds since the epoch. -/
def ofEpoch (seconds : Int) (nanoseconds : Nat) : Instant :=
  let (year, month, day) := dateOfDay (seconds / 86400)
  let time := seconds % 86400
  let date := s!"{padded 4 year}-{padded 2 month}-{padded 2 day}"
  let clock := s!"{padded 2 (time / 3600)}:{padded 2 (time / 60 % 60)}:{padded 2 (time % 60)}"
  (ofText? s!"{date}T{clock}{fractionText nanoseconds}Z").getD epoch

end Instant

end Stitch
