/-
Checks of merged graphs.

* `UriCheck.ofGraph` looks for URIs that several nodes carry;
* `missingCalls` lists the calls between methods of one graph that another
  graph does not have.
-/
import Stitch.CallGraph.Merged

namespace Stitch

/-- The result of looking for repeated URIs. -/
structure UriCheck where
  /-- How many nodes were looked at. -/
  total : Nat
  /-- The URIs that more than one node carries, with how many do. -/
  duplicates : SortedMap String Nat
  deriving DecidableEq, Inhabited

namespace UriCheck

def isClean (c : UriCheck) : Bool := c.duplicates.entries.isEmpty

/-- How many nodes carry a URI. -/
def occurrences (g : MergedGraph) (uri : String) : Nat := g.nodes.countP fun n => n.uri == uri

def ofGraph (g : MergedGraph) : UriCheck where
  total := g.nodeCount
  duplicates := .ofList <|
    (g.nodes.map fun n => (n.uri, occurrences g n.uri)).filter fun p => 1 < p.2

def toJson (c : UriCheck) : Json :=
  .object [("total", .nat c.total),
    ("duplicates", .object (c.duplicates.entries.map fun e => (e.1, .nat e.2)))]

end UriCheck

namespace MergedGraph

/-- The nodes at the two ends of a pair. -/
def ends? (g : MergedGraph) (e : Edge) : Option (Node × Node) := do
  return (← g.node? e.source, ← g.node? e.target)

/-- The calls of a graph by the URIs of their ends. -/
def uriPairs (g : MergedGraph) : List (String × String) :=
  (g.edges.filterMap g.ends?).map fun (source, target) => (source.uri, target.uri)

/-- The calls between internal nodes of a graph, by URI. -/
def internalUriPairs (g : MergedGraph) : List (String × String) :=
  ((g.edges.filterMap g.ends?).filter fun (source, target) =>
    source.isInternal && target.isInternal).map fun (source, target) => (source.uri, target.uri)

end MergedGraph

/-- The calls between internal nodes of a graph that another graph lacks.  Each
call that an artifact resolves on its own should survive a merge. -/
def missingCalls (reference merged : MergedGraph) : List (String × String) :=
  let present := merged.uriPairs
  reference.internalUriPairs.filter fun pair => !present.contains pair

end Stitch
