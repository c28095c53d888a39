/-
UTF-8 text in bytes.

* `bytes` and `text?` are the strict pair: the bytes of a string, and the
  string whose bytes these are (`text?_bytes`); `lines` reads line by line;
* `lossy` reads any bytes: each maximal part that no character begins with or
  goes on with becomes one replacement character.

The lossy reader is a machine that looks at one byte at a time.  Between
characters it is `start`; inside one it knows how many bytes are still owed and
in which range the next one has to lie, which rules out overlong forms,
surrogates and values above the last code point.  A byte out of range ends the
part before it and is looked at again from the start.
-/

namespace Stitch.Text.Utf8

/-- The UTF-8 bytes of a string. -/
def bytes (s : String) : List UInt8 := s.toUTF8.data.toList

/-- The string with these UTF-8 bytes, when they are well formed. -/
def text? (bs : List UInt8) : Option String := String.fromUTF8? ⟨bs.toArray⟩

theorem text?_bytes (s : String) : text? (bytes s) = some s := by
  have hbytes : (⟨(bytes s).toArray⟩ : ByteArray) = s.toByteArray := by
    simp [bytes]
  rw [text?, hbytes, String.fromUTF8?, dif_pos s.isValidUTF8]
  rfl

theorem eq_of_bytes_eq {s t : String} (h : bytes s = bytes t) : s = t := by
  have hs := text?_bytes s
  rw [h, text?_bytes] at hs
  exact (Option.some.inj hs).symm

/-- The bytes of each line, with the line break at its end. -/
def lineBytes (bs : List UInt8) : List (List UInt8) :=
  bs.foldr
    (fun b lines =>
      if b = 0x0A then [b] :: lines
      else
        match lines with
        | line :: rest => (b :: line) :: rest
        | [] => [[b]])
    []

/-- The lines of a text in bytes, with their line breaks; each is read on its own. -/
def lines (bs : List UInt8) : List (Option String) := (lineBytes bs).map text?

/-- Where the lossy reader stands. -/
inductive State where
  /-- Between characters. -/
  | start
  /-- Inside a character: the bits so far, how many bytes are owed after the
  next one, and the least and greatest value of the next one. -/
  | inside (bits : Nat) (owed : Nat) (low high : Nat)

/-- The mark that stands for an unreadable part. -/
def replacement : Char := Char.ofNat 0xFFFD

/-- Reads the first byte of a character. -/
def first (b : Nat) : State × List Char :=
  if b < 0x80 then (.start, [Char.ofNat b])
  else if 0xC2 ≤ b && b ≤ 0xDF then (.inside (b - 0xC0) 0 0x80 0xBF, [])
  -- Three bytes: overlong forms and surrogates are kept out by the second byte.
  else if b == 0xE0 then (.inside 0 1 0xA0 0xBF, [])
  else if b == 0xED then (.inside 0xD 1 0x80 0x9F, [])
  else if 0xE1 ≤ b && b ≤ 0xEF then (.inside (b - 0xE0) 1 0x80 0xBF, [])
  -- Four bytes: likewise overlong forms and values above the last code point.
  else if b == 0xF0 then (.inside 0 2 0x90 0xBF, [])
  else if 0xF1 ≤ b && b ≤ 0xF3 then (.inside (b - 0xF0) 2 0x80 0xBF, [])
  else if b == 0xF4 then (.inside 4 2 0x80 0x8F, [])
  else (.start, [replacement])

/-- Reads one byte: the state after it and the characters it completes. -/
def step : State → Nat → State × List Char
  | .start, b => first b
  | .inside bits owed low high, b =>
    if low ≤ b && b ≤ high then
      let bits := bits * 64 + (b - 0x80)
      match owed with
      | 0 => (.start, [Char.ofNat bits])
      | n + 1 => (.inside bits n 0x80 0xBF, [])
    else
      -- The byte ends the part before it and may begin a character itself.
      let (state, chars) := first b
      (state, replacement :: chars)

/-- The text from a state on; a character cut off by the end is unreadable. -/
def run : State → List UInt8 → List Char
  | .start, [] => []
  | .inside .., [] => [replacement]
  | state, b :: bs =>
    let (next, chars) := step state b.toNat
    chars ++ run next bs

/-- Reads bytes as text, with a replacement character for each unreadable part. -/
def lossy (bs : List UInt8) : String := String.ofList (run .start bs)

end Stitch.Text.Utf8
