/-
White space, trimming and letter case.

Identifiers, version expressions, settings and batch lines are trimmed of the
characters with the Unicode property White_Space.  Letter case is folded for
the letters A to Z alone.

* `trim` removes blanks from both ends and nothing else;
* `trimmed`, `lowered`, `raised` are the same on strings.
-/

namespace Stitch.Text

/-- The characters with the Unicode property White_Space. -/
def isBlank (c : Char) : Bool :=
  let n := c.toNat
  (9 ≤ n && n ≤ 13) || n == 0x20 || n == 0x85 || n == 0xA0 || n == 0x1680 ||
    (0x2000 ≤ n && n ≤ 0x200A) || n == 0x2028 || n == 0x2029 || n == 0x202F ||
    n == 0x205F || n == 0x3000

def trimStart (cs : List Char) : List Char := cs.dropWhile isBlank

def trimEnd (cs : List Char) : List Char := (cs.reverse.dropWhile isBlank).reverse

/-- A text without the blanks at its two ends. -/
def trim (cs : List Char) : List Char := trimEnd (trimStart cs)

def trimmed (s : String) : String := String.ofList (trim s.toList)

/-- The letters A to Z become a to z; all else stays. -/
def lowered (s : String) : String := String.ofList (s.toList.map Char.toLower)

/-- The letters a to z become A to Z; all else stays. -/
def raised (s : String) : String := String.ofList (s.toList.map Char.toUpper)

end Stitch.Text
