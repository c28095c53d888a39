/-
Kinds of calls.
-/
import Stitch.Identifier
import Stitch.Json.Record

namespace Stitch

/-- How a call site finds the method that it calls. -/
inductive CallKind where
  | static
  | special
  | virtual
  | interface
  | dynamic
  deriving DecidableEq, Repr, Inhabited

namespace CallKind

/-- All kinds, in the order in which they are listed. -/
def all : List CallKind := [static, special, virtual, interface, dynamic]

/-- Whether calls of this kind are resolved along the class hierarchy. -/
def isDispatched : CallKind → Bool
  | virtual | interface => true
  | _ => false

def name : CallKind → String
  | static => "static"
  | special => "special"
  | virtual => "virtual"
  | interface => "interface"
  | dynamic => "dynamic"

/-- The place of a kind in binary files. -/
def index : CallKind → Nat
  | static => 0
  | special => 1
  | virtual => 2
  | interface => 3
  | dynamic => 4

/-- The kind of exactly this name. -/
def named? (name : String) : Option CallKind := all.find? fun k => k.name == name

/-- Reads a kind in either case; blanks are not trimmed. -/
def ofText (text : String) : Except IdentifierError CallKind :=
  let folded := Text.lowered text
  match named? folded with
  | some kind => .ok kind
  | none => .error (.callKind folded)

def toJson (k : CallKind) : Json := .string k.name

def ofJson? (v : Json) : Option CallKind := v.case? >>= named?

/-- A list of kinds in the order of `all`, each of them once. -/
def normalized (kinds : List CallKind) : List CallKind := all.filter fun k => kinds.contains k

end CallKind

end Stitch
