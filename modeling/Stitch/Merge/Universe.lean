/-
The universe of a merge: the partial graphs that take part, and the numbers of
their methods.

The base comes first; the dependencies follow in the order of their
coordinates.  Of several graphs with one coordinate only the first takes part.
Each contributor's methods get the next free numbers, as one block, so that
numbers do not depend on the order in which dependencies are handed over.

* `build` makes the universe;
* `declaration`, `subtypes` and `isInstantiated` look at the hierarchies and
  the instantiated types of all contributors together.
-/
import Stitch.CallGraph.Merged
import Stitch.CallGraph.Partial
import Stitch.Problem

namespace Stitch

/-- A partial graph that takes part in a merge. -/
structure Contributor where
  graph : PartialGraph
  /-- The first number of its block. -/
  firstGid : Gid
  /-- How many numbers its block has. -/
  size : Nat
  deriving Inhabited

def Contributor.coordinate (c : Contributor) : Coordinate := c.graph.coordinate

/-- What a contributor declares about a type. -/
def Contributor.typeDecl? (c : Contributor) (type : String) : Option TypeDecl :=
  c.graph.hierarchy.bind (·.get? type)

structure Universe where
  /-- The contributors, the base first. -/
  contributors : List Contributor := []
  /-- Their methods; the number of each is its place. -/
  symbols : SymbolIndex := {}
  /-- The graphs that were left out. -/
  skipped : List Degradation := []
  deriving Inhabited

/-- The type that declares a method, empty when the text is no URI. -/
def owningType (uri : String) : String :=
  match MethodUri.ofText uri with
  | .ok parsed => parsed.typeUri
  | .error _ => ""

namespace Universe

/-- Registers a method of an artifact under the next free number. -/
def addMethod (owner : Coordinate) (index : SymbolIndex) (localUri : String) : SymbolIndex :=
  index.insert ⟨MethodUri.qualify owner localUri, localUri, index.size⟩

/-- The problem with a second graph of one coordinate. -/
def duplicate (c : Coordinate) : Degradation :=
  ⟨.mergeInputMalformed, c.text, "duplicate coordinate in merge input, contribution skipped"⟩

/-- Takes a graph in, unless its coordinate already takes part. -/
def add (u : Universe) (g : PartialGraph) : Universe :=
  if u.contributors.any fun c => c.coordinate == g.coordinate then
    { u with skipped := u.skipped ++ [duplicate g.coordinate] }
  else
    let symbols := g.internalNodes.foldl (addMethod g.coordinate) u.symbols
    let block := ⟨g, u.symbols.size, symbols.size - u.symbols.size⟩
    { u with contributors := u.contributors ++ [block], symbols }

/-- The dependencies in the order of their coordinates. -/
def ordered (dependencies : List PartialGraph) : List PartialGraph :=
  dependencies.mergeSort fun a b => a.coordinate.atMost b.coordinate

/-- The universe of a base and its dependencies. -/
def build (base : PartialGraph) (dependencies : List PartialGraph) : Universe :=
  (base :: ordered dependencies).foldl add {}

/-- The node of a registered method. -/
def node (s : Symbol) : Node := ⟨s.uri, owningType s.localUri, true⟩

/-- The methods of all contributors, in the order of their numbers. -/
def nodes (u : Universe) : List Node := u.symbols.symbols.map node

/-- The number of a contributor's own method. -/
def method? (u : Universe) (block : Nat) (localUri : String) : Option Gid := do
  u.symbols.lookup (MethodUri.qualify (← u.contributors[block]?).coordinate localUri)

/-- The contributors that declare a type. -/
def declaring (u : Universe) (type : String) : List Nat :=
  (u.contributors.zipIdx.filter fun p => (p.1.typeDecl? type).isSome).map (·.2)

/-- The contributor whose declaration of a type counts for calls of a block:
the block itself if it declares the type, or else the first that does. -/
def owner? (u : Universe) (type : String) (block : Nat) : Option Nat :=
  let owners := u.declaring type
  if owners.contains block then some block else owners.head?

/-- The declaration of a type that counts for calls of a block, and whose it is. -/
def declaration? (u : Universe) (type : String) (block : Nat) : Option (Nat × TypeDecl) := do
  let owner ← u.owner? type block
  return (owner, ← (← u.contributors[owner]?).typeDecl? type)

/-- The types that name a type as a direct supertype. -/
def subtypes (u : Universe) (type : String) : List String :=
  distinct <| u.contributors.flatMap fun c =>
    (c.graph.hierarchy.elim [] (·.entries)).filterMap fun (name, decl) =>
      if decl.supertypes.contains type then some name else none

/-- All types that are declared, or named as a supertype. -/
def types (u : Universe) : List String :=
  u.contributors.flatMap fun c =>
    (c.graph.hierarchy.elim [] (·.entries)).flatMap fun (name, decl) => name :: decl.supertypes

/-- Whether a contributor creates instances of a type. -/
def isInstantiated (u : Universe) (type : String) : Bool :=
  u.contributors.any fun c => c.graph.instantiatedTypes.any (·.contains type)

end Universe

end Stitch
