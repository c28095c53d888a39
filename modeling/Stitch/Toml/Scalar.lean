/-
Keys, strings, numbers and dates in TOML documents.
-/
import Stitch.Text.Hex
import Stitch.Text.Scanner
import Stitch.Toml.Basic

namespace Stitch.Toml.Scan

open Scanner

/-! ### White space and comments -/

/-- Whether a character is beyond ASCII. -/
def isForeign (c : Char) : Bool := 0x80 ≤ c.toNat

/-- Whether a character may stand in a comment. -/
def isPrintable (c : Char) : Bool :=
  c = '\t' || (0x20 ≤ c.toNat && c.toNat ≤ 0x7E) || isForeign c

def isSpace (c : Char) : Bool := c = ' ' || c = '\t'

def spaces : Scanner Unit := do
  let _ ← span isSpace

def lineBreak : Scanner Unit := char '\n' <|> word "\r\n"

def comment : Scanner Unit := do
  char '#'
  let _ ← span isPrintable

/-- The rest of a line that holds nothing more. -/
def lineEnd : Scanner Unit := do
  spaces
  let _ ← optional comment
  lineBreak <|> atEnd

/-- White space, comments and line breaks between the items of an array. -/
def gap : Scanner Unit := do
  let _ ← many ((do let _ ← one isSpace; spaces) <|> lineBreak <|> comment)

/-! ### Strings -/

/-- A run of characters with a property, not empty. -/
def run (p : Char → Bool) : Scanner (List Char) := do
  return (← one p) :: (← span p)

/-- The character with a code of so many hexadecimal digits. -/
def codePoint (digits : Nat) : Scanner Char := do
  let code := (← exactly digits fun c => (Text.Hex.digit? c).isSome).foldl
    (fun code c => 16 * code + (Text.Hex.digit? c).getD 0) 0
  if code.isValidChar then return Char.ofNat code else failure

/-- A backslash and what it stands for with the characters after it. -/
def escape : Scanner (List Char) := do
  char '\\'
  match ← one fun _ => true with
  | 'b' => return ['\x08']
  | 't' => return ['\t']
  | 'n' => return ['\n']
  | 'f' => return ['\x0c']
  | 'r' => return ['\r']
  | '"' => return ['"']
  | '\\' => return ['\\']
  | 'u' => return [← codePoint 4]
  | 'U' => return [← codePoint 8]
  | _ => failure

/-- A backslash at the end of a line, with all white space after it. -/
def lineJoin : Scanner (List Char) := do
  char '\\'
  spaces
  lineBreak
  let _ ← many ((do let _ ← one isSpace; spaces) <|> lineBreak)
  return []

/-- A line break in a string, however it is written. -/
def innerBreak : Scanner (List Char) := do
  lineBreak
  return ['\n']

/-- Whether a character stands for itself in a string with escapes. -/
def isBasic (c : Char) : Bool := isPrintable c && c ≠ '"' && c ≠ '\\'

/-- Whether a character may stand in a string without escapes. -/
def isLiteral (c : Char) : Bool := isPrintable c && c ≠ '\''

def basicString : Scanner String := do
  char '"'
  let pieces ← many (run isBasic <|> escape)
  char '"'
  return String.ofList pieces.flatten

def literalString : Scanner String := do
  char '\''
  let text ← span isLiteral
  char '\''
  return String.ofList text

/-- One or two quotes that do not end a string of several lines. -/
def innerQuotes (quote : Char) : Scanner (List Char) := do
  let quotes ← run (· == quote)
  if quotes.length ≤ 2 ∧ (← peek).isSome then return quotes else failure

/-- A string of several lines between three quotes.  A line break right after
the opening quotes is no part of it, and up to two more quotes before the closing
ones are. -/
def longString (quote : Char) (piece : Scanner (List Char)) : Scanner String := do
  let _ ← exactly 3 (· == quote)
  let _ ← optional lineBreak
  let pieces ← many (piece <|> innerBreak <|> innerQuotes quote)
  let closing ← run (· == quote)
  if 3 ≤ closing.length ∧ closing.length ≤ 5 then
    return String.ofList (pieces.flatten ++ closing.drop 3)
  else failure

def string : Scanner String :=
  longString '"' (run isBasic <|> lineJoin <|> escape) <|> basicString <|>
    longString '\'' (run isLiteral) <|> literalString

/-! ### Keys -/

/-- A letter, a digit, an underscore or a hyphen. -/
def isBare (c : Char) : Bool := c.isAlphanum || c = '_' || c = '-'

/-- The greatest number of names in a key, and of arrays and tables in braces
around a value, is below this. -/
def depthLimit : Nat := 80

/-- The names of a key. -/
def key : Scanner (List String) := do
  let name := basicString <|> literalString <|> (do return String.ofList (← run isBare))
  let names ← separated (char '.') (do spaces; let text ← name; spaces; return text)
  if names.length < depthLimit then return names else failure

/-! ### Numbers -/

/-- Digits, between which single underscores may stand. -/
def digits (p : Char → Bool) : Scanner (List Char) := do
  let first ← one p
  let rest ← many (one p <|> (do char '_'; one p))
  return first :: rest

def sign : Scanner (List Char) := do
  return (← optional (one fun c => c = '+' || c = '-')).toList

/-- A whole number in decimal digits, without a zero in front. -/
def wholeDigits : Scanner (List Char) := do
  let all ← digits Char.isDigit
  if all.head? = some '0' ∧ all.length ≠ 1 then failure else return all

/-- A whole number after a mark for its base. -/
def basedInteger (mark : String) (base : Nat) : Scanner Int := do
  word mark
  let all ← digits fun c => (Text.Hex.digit? c).any (· < base)
  let value := all.foldl (fun value c => base * value + (Text.Hex.digit? c).getD 0) 0
  if value < 9223372036854775808 then return value else failure

def decimalInteger : Scanner Int := do
  let mark ← sign
  let magnitude : Int := Nat.ofDigitChars 10 (← wholeDigits) 0
  let value := if mark = ['-'] then -magnitude else magnitude
  if -9223372036854775808 ≤ value ∧ value < 9223372036854775808 then return value else failure

def integer : Scanner Int :=
  basedInteger "0x" 16 <|> basedInteger "0o" 8 <|> basedInteger "0b" 2 <|> decimalInteger

/-- The least number that is nearer to infinity than to a number of 64 bits. -/
def overflow : Nat := Nat.pow 2 1024 - Nat.pow 2 970

/-- Whether `m` with `e` zeros is too great for a number of 64 bits. -/
def overflows (m : Nat) (e : Int) : Bool :=
  let digits : Int := (Nat.toDigits 10 m).length
  if m = 0 || digits + e < 300 then false
  else if 320 < digits + e then true
  else if 0 ≤ e then overflow ≤ m * Nat.pow 10 e.toNat
  else overflow * Nat.pow 10 (-e).toNat ≤ m

/-- A fraction: a point and digits. -/
def fraction : Scanner (List Char) := do
  char '.'
  digits Char.isDigit

def exponent : Scanner (List Char × List Char) := do
  let _ ← one fun c => c = 'e' || c = 'E'
  return (← sign, ← digits Char.isDigit)

/-- A number with a fraction or an exponent. -/
def number : Scanner String := do
  let mark ← sign
  let whole ← wholeDigits
  let places ← optional fraction
  let power ← optional exponent
  if places.isNone ∧ power.isNone then failure
  let (powerSign, powerDigits) := power.getD ([], ['0'])
  let magnitude : Int := Nat.ofDigitChars 10 powerDigits 0
  let shift := (if powerSign = ['-'] then -magnitude else magnitude) - (places.getD []).length
  if mark ≠ ['-'] ∧ overflows (Nat.ofDigitChars 10 (whole ++ places.getD []) 0) shift then failure
  return String.ofList (mark ++ whole ++ (places.elim [] ('.' :: ·)) ++
    (power.elim [] fun p => 'e' :: p.1 ++ p.2))

/-- Infinity, or no number. -/
def special : Scanner String := do
  let mark ← sign
  let name ← (do word "inf"; return "inf" : Scanner String) <|> (do word "nan"; return "nan")
  return String.ofList mark ++ name

/-! ### Dates -/

/-- Digits that make a number within bounds. -/
def bounded (count least greatest : Nat) : Scanner (List Char) := do
  let all ← exactly count Char.isDigit
  let value := Nat.ofDigitChars 10 all 0
  if least ≤ value ∧ value ≤ greatest then return all else failure

def daysInMonth (year month : Nat) : Nat :=
  if month = 2 then
    if year % 4 = 0 ∧ (year % 100 ≠ 0 ∨ year % 400 = 0) then 29 else 28
  else if month = 4 ∨ month = 6 ∨ month = 9 ∨ month = 11 then 30 else 31

def day : Scanner (List Char) := do
  let year ← exactly 4 Char.isDigit
  char '-'
  let month ← bounded 2 1 12
  char '-'
  let value (cs : List Char) := Nat.ofDigitChars 10 cs 0
  let day ← bounded 2 1 (daysInMonth (value year) (value month))
  return year ++ '-' :: month ++ '-' :: day

def time : Scanner (List Char) := do
  let hour ← bounded 2 0 23
  char ':'
  let minute ← bounded 2 0 59
  char ':'
  let second ← bounded 2 0 60
  let part ← optional (do char '.'; run Char.isDigit : Scanner (List Char))
  return hour ++ ':' :: minute ++ ':' :: second ++ part.elim [] ('.' :: ·)

def offset : Scanner (List Char) :=
  (do return [← one fun c => c = 'Z' || c = 'z']) <|> do
    let mark ← one fun c => c = '+' || c = '-'
    let hour ← bounded 2 0 23
    char ':'
    return mark :: hour ++ ':' :: (← bounded 2 0 59)

/-- A day, with or without a time of day and a distance from UTC. -/
def dayAndTime : Scanner (List Char) := do
  let date ← day
  let clock ← optional (do
    let mark ← one fun c => c = 'T' || c = 't' || c = ' '
    return mark :: (← time) ++ (← optional offset).getD [] : Scanner (List Char))
  return date ++ clock.getD []

/-- A date, a time of day or both. -/
def date : Scanner String := do
  return String.ofList (← dayAndTime <|> time)

def bool : Scanner Bool :=
  (do word "true"; return true) <|> (do word "false"; return false)

/-- A value that holds no other values. -/
def scalar : Scanner Toml :=
  Toml.string <$> string <|> Toml.bool <$> bool <|> Toml.date <$> date <|>
    Toml.decimal <$> number <|> Toml.decimal <$> special <|> Toml.int <$> integer

end Stitch.Toml.Scan
