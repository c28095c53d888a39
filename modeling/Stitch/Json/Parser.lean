/-
From tokens to values.

The builder is a machine with one step per token.  It holds the arrays and
objects that are open, innermost first, and what has to come next.  A value
that is complete is handed to the innermost open one, or is the document.

* `parse?` reads a document, `none` when the text is not one value;
* no recursion follows the nesting, so any depth is read.
-/
import Stitch.Json.Lexer

namespace Stitch.Json

/-- An array or object that is being read, its contents held backwards. -/
inductive Frame where
  | array (items : List Json)
  /-- An object that waits for the value of a key. -/
  | object (members : List (String × Json)) (key : String)
  deriving Inhabited

/-- What has to come next, and the arrays and objects that are open. -/
inductive Builder where
  /-- A value. -/
  | value (frames : List Frame)
  /-- The first item of an array, or its end. -/
  | firstItem (frames : List Frame)
  /-- A comma or the end of the array. -/
  | afterItem (items : List Json) (frames : List Frame)
  /-- The first name of an object, or its end. -/
  | firstName (frames : List Frame)
  /-- A name. -/
  | name (members : List (String × Json)) (frames : List Frame)
  /-- The colon after a name. -/
  | colon (members : List (String × Json)) (key : String) (frames : List Frame)
  /-- A comma or the end of the object. -/
  | afterMember (members : List (String × Json)) (frames : List Frame)
  /-- The document is complete. -/
  | complete (document : Json)
  deriving Inhabited

namespace Builder

/-- Hands a complete value to the innermost open array or object. -/
def deliver (v : Json) : List Frame → Builder
  | [] => .complete v
  | .array items :: frames => .afterItem (v :: items) frames
  | .object members key :: frames => .afterMember ((key, v) :: members) frames

/-- A token where a value is due. -/
def begin (frames : List Frame) : Token → Option Builder
  | .scalar v => some (deliver v frames)
  | .openArray => some (.firstItem frames)
  | .openObject => some (.firstName frames)
  | _ => none

/-- Reads one token. -/
def step : Builder → Token → Option Builder
  | .value frames, t => begin frames t
  | .firstItem frames, .closeArray => some (deliver (.array []) frames)
  | .firstItem frames, t => begin (.array [] :: frames) t
  | .afterItem items frames, .comma => some (.value (.array items :: frames))
  | .afterItem items frames, .closeArray => some (deliver (.array items.reverse) frames)
  | .firstName frames, .closeObject => some (deliver (.object []) frames)
  | .firstName frames, .scalar (.string key) => some (.colon [] key frames)
  | .name members frames, .scalar (.string key) => some (.colon members key frames)
  | .colon members key frames, .colon => some (.value (.object members key :: frames))
  | .afterMember members frames, .comma => some (.name members frames)
  | .afterMember members frames, .closeObject =>
    some (deliver (.object members.reverse) frames)
  | _, _ => none

end Builder

/-- Reads one character: the scanner's step, then the builder's for each token
that it completes. -/
def readChar (state : Scanner × Builder) (c : Char) : Option (Scanner × Builder) := do
  let (scanner, tokens) ← state.1.step c
  let builder ← tokens.foldlM Builder.step state.2
  return (scanner, builder)

/-- Reads a document that holds one value. -/
def parse? (text : String) : Option Json := do
  let (scanner, builder) ← text.toList.foldlM readChar (.between, .value [])
  let tokens ← scanner.finish
  match ← tokens.foldlM Builder.step builder with
  | .complete document => some document
  | _ => none

end Stitch.Json
