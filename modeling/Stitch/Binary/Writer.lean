/-
The binary layout of stored values, written.

Numbers are little endian and of fixed width.  A text is its length in bytes,
in 64 bits, and its UTF-8 bytes; a sequence is its length and its items; a
truth value is one byte, 0 or 1; the case of an enumeration is its position, in
32 bits; a record is its fields in order, with nothing between them.
-/
import Stitch.Text.Utf8

namespace Stitch.Binary

/-- The low bytes of a number, least significant first. -/
def littleEndian : Nat → Nat → List UInt8
  | 0, _ => []
  | width + 1, n => UInt8.ofNat (n % 256) :: littleEndian width (n / 256)

def nat32 (n : Nat) : List UInt8 := littleEndian 4 n

def nat64 (n : Nat) : List UInt8 := littleEndian 8 n

/-- A signed number in two's complement. -/
def int64 (i : Int) : List UInt8 := littleEndian 8 (i % 18446744073709551616).toNat

def bool (b : Bool) : List UInt8 := [if b then 1 else 0]

def string (s : String) : List UInt8 :=
  let bytes := Text.Utf8.bytes s
  nat64 bytes.length ++ bytes

def list {α : Type} (item : α → List UInt8) (items : List α) : List UInt8 :=
  nat64 items.length ++ items.flatMap item

@[simp] theorem length_littleEndian (width n : Nat) : (littleEndian width n).length = width := by
  induction width generalizing n with
  | zero => rfl
  | succ width ih => simp [littleEndian, ih]

end Stitch.Binary
