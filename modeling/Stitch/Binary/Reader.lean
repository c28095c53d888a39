/-
The binary layout of stored values, read.

A reader takes what it needs from the front of the bytes and leaves the rest;
it fails when the bytes end too early or do not have the form.  `run?` reads a
value from the front of a file: bytes after it are not looked at.
-/
import Stitch.Binary.Writer

namespace Stitch.Binary

/-- A reader of values from the front of a byte sequence. -/
abbrev Reader (α : Type) := StateT (List UInt8) Option α

/-- The value at the front of the bytes. -/
def run? {α : Type} (read : Reader α) (bytes : List UInt8) : Option α :=
  (read.run bytes).map (·.1)

namespace Reader

/-- The number that bytes stand for, least significant first. -/
def ofLittleEndian : List UInt8 → Nat
  | [] => 0
  | b :: bs => b.toNat + 256 * ofLittleEndian bs

/-- Exactly this many bytes. -/
def take (n : Nat) : Reader (List UInt8) := fun bytes =>
  let front := bytes.take n
  if front.length = n then some (front, bytes.drop n) else none

def nat32 : Reader Nat := ofLittleEndian <$> take 4

def nat64 : Reader Nat := ofLittleEndian <$> take 8

/-- A signed number in two's complement. -/
def int64 : Reader Int := do
  let n ← nat64
  return if n < 9223372036854775808 then n else n - 18446744073709551616

def bool : Reader Bool := do
  match ← take 1 with
  | [0] => return false
  | [1] => return true
  | _ => failure

def string : Reader String := do
  let bytes ← take (← nat64)
  Text.Utf8.text? bytes

/-- Exactly this many items. -/
def items {α : Type} (item : Reader α) : Nat → Reader (List α)
  | 0 => pure []
  | n + 1 => do
    let first ← item
    let rest ← items item n
    return first :: rest

def list {α : Type} (item : Reader α) : Reader (List α) := do
  items item (← nat64)

/-- A case of an enumeration by its position. -/
def case {α : Type} (cases : List α) : Reader α := do
  cases[← nat32]?

/-- A text that has to have a further form. -/
def parsed {α : Type} (parse : String → Option α) : Reader α := do
  parse (← string)

end Reader

theorem ofLittleEndian_littleEndian (width n : Nat) :
    Reader.ofLittleEndian (littleEndian width n) = n % Nat.pow 256 width := by
  induction width generalizing n with
  | zero => simp [littleEndian, Reader.ofLittleEndian, Nat.mod_one]
  | succ width ih =>
    -- The first byte is the remainder, and the others are the quotient's bytes.
    have digit : (UInt8.ofNat (n % 256)).toNat = n % 256 :=
      UInt8.toNat_ofNat_of_lt (Nat.mod_lt n (by decide))
    have shift : Nat.pow 256 (width + 1) = 256 * Nat.pow 256 width := Nat.mul_comm ..
    rw [littleEndian, Reader.ofLittleEndian, ih, digit, shift, Nat.mod_mul]

end Stitch.Binary
