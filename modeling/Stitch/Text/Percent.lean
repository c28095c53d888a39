/-
Percent codes: a percent sign and the two hexadecimal digits of a byte.

* `encode` writes a text with codes for the bytes that are not kept;
* `decode` puts every code in a text back; what is no code stays as it is, and
  bytes that are no text then become replacement characters.

A reader also takes a plus sign for the first digit of a code, which counts as
zero.
-/
import Stitch.Text.Hex
import Stitch.Text.Utf8

namespace Stitch.Text.Percent

/-- The character that begins a code. -/
def mark : UInt8 := 0x25

def encode (keep : UInt8 → Bool) (s : String) : String :=
  String.ofList <| (Utf8.bytes s).flatMap fun b =>
    if keep b then [Char.ofNat b.toNat] else '%' :: Hex.upperDigits b

/-- The byte that two digits stand for. -/
def byte? (high low : UInt8) : Option UInt8 := do
  let digit (b : UInt8) := Hex.digit? (Char.ofNat b.toNat)
  let value ← digit low
  if Char.ofNat high.toNat = '+' then return UInt8.ofNat value
  else return UInt8.ofNat (16 * (← digit high) + value)

def decodeBytes : List UInt8 → List UInt8
  | b :: high :: low :: rest =>
    if b = mark then
      match byte? high low with
      | some value => value :: decodeBytes rest
      | none => b :: decodeBytes (high :: low :: rest)
    else b :: decodeBytes (high :: low :: rest)
  | bytes => bytes

def decode (s : String) : String := Utf8.lossy (decodeBytes (Utf8.bytes s))

/-- Decodes a text up to a number of times, as long as a percent sign is left. -/
def decodeTimes : Nat → String → String
  | 0, s => s
  | n + 1, s => if s.toList.contains '%' then decodeTimes n (decode s) else s

end Stitch.Text.Percent
