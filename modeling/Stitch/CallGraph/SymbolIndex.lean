/-
The index of methods by URI.

Every method is registered under its global URI, which is unique, and under its
local URI, which several artifacts may define; then the first one registered
keeps it.  The index is the list of registrations in their order, and a look-up
finds the first that fits.
-/

namespace Stitch

/-- The number of a node in a merged graph. -/
abbrev Gid := Nat

/-- A registered method. -/
structure Symbol where
  uri : String
  localUri : String
  gid : Gid
  deriving DecidableEq, Repr, Inhabited

structure SymbolIndex where
  symbols : List Symbol := []
  deriving DecidableEq, Repr, Inhabited

namespace SymbolIndex

def size (index : SymbolIndex) : Nat := index.symbols.length

/-- The method with this global URI. -/
def lookup (index : SymbolIndex) (uri : String) : Option Gid :=
  (index.symbols.find? fun s => s.uri == uri).map (·.gid)

/-- The method that was first registered with this local URI. -/
def lookupLocal (index : SymbolIndex) (localUri : String) : Option Gid :=
  (index.symbols.find? fun s => s.localUri == localUri).map (·.gid)

/-- Registers a method, unless its global URI is taken. -/
def insert (index : SymbolIndex) (symbol : Symbol) : SymbolIndex :=
  if (index.lookup symbol.uri).isSome then index else ⟨index.symbols ++ [symbol]⟩

end SymbolIndex

end Stitch
