/-
From characters to tokens.

The scanner is a machine with one step per character; it stands between tokens
or inside a word, a number or a string.  A string literal is decoded while it
is read.  Each step gives the next state and the tokens that it completes,
or `none` when no token goes on like this.

* `Scanner.step` reads a character, `Scanner.finish` the end of the text;
* `number?` says which texts are numbers: an optional minus sign, digits
  without a leading zero, then an optional fraction and exponent.
-/
import Stitch.Json.Basic
import Stitch.Text.Hex

namespace Stitch.Json

inductive Token where
  | openArray
  | closeArray
  | openObject
  | closeObject
  | comma
  | colon
  /-- A value that is one token: a word, a number or a string. -/
  | scalar (value : Json)
  deriving Inhabited

/-- The digits at the front and what follows them. -/
def takeDigits (cs : List Char) : List Char × List Char :=
  (cs.takeWhile Char.isDigit, cs.dropWhile Char.isDigit)

/-- Nothing, or an exponent: a mark, an optional sign and digits. -/
def isExponent : List Char → Bool
  | [] => true
  | mark :: cs =>
    (mark == 'e' || mark == 'E') &&
      let digits := match cs with
        | sign :: rest => if sign == '+' || sign == '-' then rest else cs
        | [] => []
      !digits.isEmpty && digits.all Char.isDigit

/-- What may follow the integer part: a fraction, an exponent, both or none. -/
def isTail : List Char → Bool
  | '.' :: cs =>
    let (digits, rest) := takeDigits cs
    !digits.isEmpty && isExponent rest
  | cs => isExponent cs

/-- The digits of an integer part: at least one, and no leading zero. -/
def isInteger : List Char → Bool
  | [] => false
  | ['0'] => true
  | c :: _ => c != '0'

/-- Reads a number. -/
def number? (cs : List Char) : Option Json :=
  let (negative, unsigned) := match cs with
    | '-' :: rest => (true, rest)
    | _ => (false, cs)
  let (digits, tail) := takeDigits unsigned
  if isInteger digits && isTail tail then
    let n := Nat.ofDigitChars 10 digits 0
    if !tail.isEmpty || (negative && n == 0) then some (.decimal (String.ofList cs))
    else if negative then some (.int (-n))
    else some (.int n)
  else none

/-- The value that a word stands for. -/
def word? (cs : List Char) : Option Json :=
  if cs = "null".toList then some .null
  else if cs = "true".toList then some (.bool true)
  else if cs = "false".toList then some (.bool false)
  else none

/-- The character for a letter after a backslash, the code point escape apart. -/
def escaped? (c : Char) : Option Char :=
  if c = '"' then some '"'
  else if c = '\\' then some '\\'
  else if c = '/' then some '/'
  else if c = 'b' then some '\x08'
  else if c = 'f' then some '\x0c'
  else if c = 'n' then some '\n'
  else if c = 'r' then some '\r'
  else if c = 't' then some '\t'
  else none

/-- Where the scanner stands.  Texts that are being read are held backwards. -/
inductive Scanner where
  | between
  | word (read : List Char)
  | number (read : List Char)
  /-- Inside a string. -/
  | text (read : List Char)
  /-- After a backslash. -/
  | escape (read : List Char)
  /-- Inside a code point escape: the first half of a surrogate pair read
  before it, how many digits are owed, and the value of those read. -/
  | code (read : List Char) (high : Option Nat) (owed value : Nat)
  /-- After the first half of a surrogate pair, where a backslash is owed. -/
  | pair (read : List Char) (high : Nat)
  /-- After that backslash, where the mark of a code point is owed. -/
  | pairEscape (read : List Char) (high : Nat)
  deriving Inhabited

/-- After the last digit of a code point escape.  A surrogate counts only as
the first or second half of a pair. -/
def codePoint? (read : List Char) (high : Option Nat) (value : Nat) : Option Scanner :=
  match high with
  | some h =>
    if 0xDC00 ≤ value && value ≤ 0xDFFF then
      some (.text (Char.ofNat (0x10000 + (h - 0xD800) * 0x400 + (value - 0xDC00)) :: read))
    else none
  | none =>
    if 0xD800 ≤ value && value ≤ 0xDBFF then some (.pair read value)
    else if 0xDC00 ≤ value && value ≤ 0xDFFF then none
    else some (.text (Char.ofNat value :: read))

namespace Scanner

/-- A character between tokens. -/
def start (c : Char) : Option (Scanner × List Token) :=
  if c = ' ' || c = '\n' || c = '\t' || c = '\r' then some (.between, [])
  else if c = '[' then some (.between, [.openArray])
  else if c = ']' then some (.between, [.closeArray])
  else if c = '{' then some (.between, [.openObject])
  else if c = '}' then some (.between, [.closeObject])
  else if c = ',' then some (.between, [.comma])
  else if c = ':' then some (.between, [.colon])
  else if c = '"' then some (.text [], [])
  else if c = '-' || c.isDigit then some (.number [c], [])
  else if c.isLower then some (.word [c], [])
  else none

/-- Whether a number may go on with this character. -/
def isNumberChar (c : Char) : Bool :=
  c.isDigit || c = '.' || c = '-' || c = '+' || c = 'e' || c = 'E'

/-- Reads one character. -/
def step (state : Scanner) (c : Char) : Option (Scanner × List Token) :=
  match state with
  | .between => start c
  | .word read =>
    if c.isLower then some (.word (c :: read), [])
    else do
      let value ← word? read.reverse
      let (next, tokens) ← start c
      return (next, .scalar value :: tokens)
  | .number read =>
    if isNumberChar c then some (.number (c :: read), [])
    else do
      let value ← number? read.reverse
      let (next, tokens) ← start c
      return (next, .scalar value :: tokens)
  | .text read =>
    if c = '"' then some (.between, [.scalar (.string (String.ofList read.reverse))])
    else if c = '\\' then some (.escape read, [])
    else if c.toNat < 0x20 then none
    else some (.text (c :: read), [])
  | .escape read =>
    if c = 'u' then some (.code read none 4 0, [])
    else (escaped? c).map fun e => (.text (e :: read), [])
  | .code read high owed value => do
    let digit ← Text.Hex.digit? c
    let value := value * 16 + digit
    if owed ≤ 1 then return (← codePoint? read high value, [])
    else return (.code read high (owed - 1) value, [])
  | .pair read high => if c = '\\' then some (.pairEscape read high, []) else none
  | .pairEscape read high => if c = 'u' then some (.code read (some high) 4 0, []) else none

/-- The end of the text: the token that is completed by it, if any. -/
def finish : Scanner → Option (List Token)
  | .between => some []
  | .word read => (word? read.reverse).map fun v => [.scalar v]
  | .number read => (number? read.reverse).map fun v => [.scalar v]
  | _ => none

end Scanner

end Stitch.Json
