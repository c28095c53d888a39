/-
Hexadecimal digits of either case.

`digit?` reads one digit, `lowerDigits` and `upperDigits` write a byte with two
digits, as escapes in documents and percent codes in file names do; `encode` and
`decode` go between bytes and digits.
-/

namespace Stitch.Text.Hex

/-- The value of a hexadecimal digit of either case. -/
def digit? (c : Char) : Option Nat :=
  if '0' ≤ c ∧ c ≤ '9' then some (c.toNat - '0'.toNat)
  else if 'a' ≤ c ∧ c ≤ 'f' then some (c.toNat - 'a'.toNat + 10)
  else if 'A' ≤ c ∧ c ≤ 'F' then some (c.toNat - 'A'.toNat + 10)
  else none

/-- The two lower case digits of a byte. -/
def lowerDigits (b : UInt8) : List Char :=
  [(b.toNat / 16).digitChar, (b.toNat % 16).digitChar]

/-- The two upper case digits of a byte. -/
def upperDigits (b : UInt8) : List Char :=
  (lowerDigits b).map Char.toUpper

/-- Bytes as digits. -/
def encode (bytes : List UInt8) : String := String.ofList (bytes.flatMap lowerDigits)

/-- The bytes of pairs of digits. -/
def decodePairs : List Char → List UInt8
  | a :: b :: rest => UInt8.ofNat (16 * (digit? a).getD 0 + (digit? b).getD 0) :: decodePairs rest
  | _ => []

/-- The bytes that digits stand for. -/
def decode (digits : String) : List UInt8 := decodePairs digits.toList

end Stitch.Text.Hex
