/-
Dependency scopes.
-/
import Stitch.Identifier
import Stitch.Json.Record

namespace Stitch

/-- The scope that a revision declares for a dependency. -/
inductive Scope where
  | compile
  | runtime
  | provided
  | test
  | system
  | imported
  deriving DecidableEq, Repr, Inhabited

namespace Scope

/-- All scopes, in the order of their numbers in binary files. -/
def all : List Scope := [compile, runtime, provided, test, system, imported]

/-- The scopes that are followed when a query names none. -/
def followed : List Scope := [compile, runtime]

def name : Scope → String
  | compile => "compile"
  | runtime => "runtime"
  | provided => "provided"
  | test => "test"
  | system => "system"
  | imported => "import"

/-- The scope of exactly this name. -/
def named? (name : String) : Option Scope := all.find? fun s => s.name == name

/-- Reads a scope in either case; a blank text is the compile scope. -/
def ofText (text : String) : Except IdentifierError Scope :=
  let folded := Text.lowered (Text.trimmed text)
  if folded.isEmpty then .ok compile
  else
    match named? folded with
    | some scope => .ok scope
    | none => .error (.scope folded)

def toJson (s : Scope) : Json := .string s.name

def ofJson? (v : Json) : Option Scope := v.case? >>= named?

end Scope

end Stitch
