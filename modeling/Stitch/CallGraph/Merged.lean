/-
Merged call graphs.

A merged graph is a table of nodes, whose numbers are their places in it, the
links between them, and a table of calls: for each pair of nodes the kinds of the
calls between them.  A node is internal when one of the merged artifacts defines
the method; all other nodes are placeholders, and no call starts at them.

A number names the node at the place that its low 32 bits give.  Links are between
places, and from them come the neighbours of a node and the count of edges.  The
table of calls keeps the numbers as they were given, so that two of its pairs may
have one link.  A call is written to both.

* `addNode` and `addCall` are the operations that build a graph;
* `ofDocument` checks the tables of a document and `toDocument` gives them
  back: nodes in order, pairs in order, kinds in order.
-/
import Stitch.CallGraph.Kind
import Stitch.CallGraph.SymbolIndex
import Stitch.Distinct
import Stitch.SortedMap

namespace Stitch

/-- A method in a merged graph. -/
structure Node where
  /-- The global URI of an internal node; the reference that a placeholder
  stands for. -/
  uri : String
  /-- The declaring type, empty when it is not known. -/
  owningType : String
  isInternal : Bool
  deriving DecidableEq, Repr, Inhabited

/-- A pair of nodes between which there is a call. -/
structure Edge where
  source : Gid
  target : Gid
  deriving DecidableEq, Repr, Inhabited

namespace Edge

/-- Pairs compare by source, then by target. -/
instance : Ord Edge := ⟨compareLex (compareOn source) (compareOn target)⟩

instance : Std.TransOrd Edge :=
  inferInstanceAs (Std.TransCmp (compareLex (compareOn source) (compareOn target)))

instance : Std.LawfulEqOrd Edge where
  eq_of_compare {a b} h := by
    obtain ⟨hs, ht⟩ := Ordering.then_eq_eq.1 (h : (compareOn source a b).then _ = .eq)
    cases a; cases b
    congr
    · exact Std.LawfulEqOrd.eq_of_compare hs
    · exact Std.LawfulEqOrd.eq_of_compare ht

end Edge

/-- Why a node or a call does not fit into a graph. -/
inductive GraphError where
  | unknownNode (gid : Gid)
  | externalSource (gid : Gid)
  | sparseGids (expected found : Gid)
  deriving DecidableEq, Repr, Inhabited

def GraphError.message : GraphError → String
  | unknownNode gid => s!"unknown node {gid}"
  | externalSource gid => s!"external node {gid} cannot be the source of an edge"
  | sparseGids expected found =>
    s!"node table is not dense: expected gid {expected}, found {found}"

/-- The place in the node table that a number names. -/
def MergedGraph.place (gid : Gid) : Nat := gid % 4294967296

/-- The places that the numbers of a pair name. -/
def Edge.placed (e : Edge) : Edge := ⟨MergedGraph.place e.source, MergedGraph.place e.target⟩

structure MergedGraph where
  nodes : List Node := []
  /-- The pairs of places between which there are calls.  In which order they were made is
  not kept, and no operation asks for it. -/
  links : SortedMap Edge Unit := {}
  /-- The kinds of the calls between each pair. -/
  calls : SortedMap Edge (List CallKind) := {}
  deriving DecidableEq, Inhabited

namespace MergedGraph

def node? (g : MergedGraph) (gid : Gid) : Option Node := g.nodes[place gid]?

def nodeCount (g : MergedGraph) : Nat := g.nodes.length

def internalCount (g : MergedGraph) : Nat := g.nodes.countP (·.isInternal)

/-- The nodes with their numbers, in order. -/
def numbered (g : MergedGraph) : List (Gid × Node) := g.nodes.zipIdx.map fun p => (p.2, p.1)

/-- The placeholders. -/
def externalNodes (g : MergedGraph) : List Gid :=
  (g.numbered.filter fun p => !p.2.isInternal).map (·.1)

/-- The first node with a URI. -/
def findUri? (g : MergedGraph) (uri : String) : Option Gid :=
  (g.numbered.find? fun p => p.2.uri == uri).map (·.1)

/-- The pairs between which there are calls, in order. -/
def edges (g : MergedGraph) : List Edge := g.calls.keys

def hasEdge (g : MergedGraph) (e : Edge) : Bool := g.calls.contains e

/-- The kinds of the calls between a pair. -/
def kinds? (g : MergedGraph) (e : Edge) : Option (List CallKind) := g.calls.get? e

/-- The number of links. -/
def edgeCount (g : MergedGraph) : Nat := g.links.size

/-- The links that begin at a place. -/
def outgoing (g : MergedGraph) (i : Nat) : List Edge := g.links.keys.filter fun l => l.source == i

/-- The links that end at a place. -/
def incoming (g : MergedGraph) (i : Nat) : List Edge := g.links.keys.filter fun l => l.target == i

/-- The nodes that a node calls, in ascending order. -/
def successors (g : MergedGraph) (gid : Gid) : List Gid :=
  if (g.node? gid).isNone then []
  else distinct ((g.outgoing (place gid)).map (·.target)).mergeSort

/-- The nodes that call a node, in ascending order. -/
def predecessors (g : MergedGraph) (gid : Gid) : List Gid :=
  if (g.node? gid).isNone then []
  else distinct ((g.incoming (place gid)).map (·.source)).mergeSort

/-- The graph with one more node, whose number is the node count before it. -/
def addNode (g : MergedGraph) (n : Node) : MergedGraph := { g with nodes := g.nodes ++ [n] }

/-- Records calls of some kinds between a pair.  They start at an internal node
and end at a node. -/
def addCalls (g : MergedGraph) (e : Edge) (kinds : List CallKind) :
    Except GraphError MergedGraph :=
  match g.node? e.source with
  | none => .error (.unknownNode e.source)
  | some source =>
    if !source.isInternal then .error (.externalSource e.source)
    else if (g.node? e.target).isNone then .error (.unknownNode e.target)
    else
      .ok { g with
        links := g.links.insert e.placed ()
        calls := g.calls.alter e fun old => CallKind.normalized (old.getD [] ++ kinds) }

/-- Records a call between a pair. -/
def addCall (g : MergedGraph) (e : Edge) (kind : CallKind) : Except GraphError MergedGraph :=
  g.addCalls e [kind]

/-- A line about the size of a graph. -/
def summary (g : MergedGraph) : String :=
  s!"MergedCallGraph \x7b node_count: {g.nodeCount}, edge_count: {g.edgeCount} \x7d"

end MergedGraph

end Stitch
