/-
The documents of merged graphs: a table of nodes and a table of edges.

* `MergedGraph.toDocument` and `ofDocument` go between graphs and tables;
* tables are written and read as JSON and in the binary layout.
-/
import Stitch.Binary.Reader
import Stitch.CallGraph.Merged

namespace Stitch

structure NodeRecord where
  gid : Gid
  node : Node
  deriving DecidableEq, Repr, Inhabited

structure EdgeRecord where
  edge : Edge
  kinds : List CallKind
  deriving DecidableEq, Repr, Inhabited

structure GraphDocument where
  nodes : List NodeRecord
  edges : List EdgeRecord
  deriving DecidableEq, Repr, Inhabited

namespace Node

/-- A node as a document, without its number. -/
def toJson (n : Node) : Json :=
  .object [("uri", .string n.uri), ("owningType", .string n.owningType),
    ("internal", .bool n.isInternal)]

end Node

namespace NodeRecord

def toJson (r : NodeRecord) : Json :=
  .object [("gid", .nat r.gid), ("uri", .string r.node.uri),
    ("owningType", .string r.node.owningType), ("internal", .bool r.node.isInternal)]

def ofJson? (v : Json) : Option NodeRecord := do
  let [gid, uri, owningType, isInternal] ←
    v.fields? ["gid", "uri", "owningType", "internal"] | none
  return ⟨← Json.required Json.nat64? gid,
    ⟨← Json.required Json.string? uri, ← Json.orElse "" Json.string? owningType,
      ← Json.required Json.bool? isInternal⟩⟩

def toBytes (r : NodeRecord) : List UInt8 :=
  Binary.nat64 r.gid ++ Binary.string r.node.uri ++ Binary.string r.node.owningType ++
    Binary.bool r.node.isInternal

def ofBytes : Binary.Reader NodeRecord := do
  return ⟨← Binary.Reader.nat64,
    ⟨← Binary.Reader.string, ← Binary.Reader.string, ← Binary.Reader.bool⟩⟩

end NodeRecord

namespace EdgeRecord

def toJson (r : EdgeRecord) : Json :=
  .object [("source", .nat r.edge.source), ("target", .nat r.edge.target),
    ("kinds", .array (r.kinds.map CallKind.toJson))]

def ofJson? (v : Json) : Option EdgeRecord := do
  let [source, target, kinds] ← v.fields? ["source", "target", "kinds"] | none
  return ⟨⟨← Json.required Json.nat64? source, ← Json.required Json.nat64? target⟩,
    ← Json.orElse [] (Json.list? CallKind.ofJson?) kinds⟩

def toBytes (r : EdgeRecord) : List UInt8 :=
  Binary.nat64 r.edge.source ++ Binary.nat64 r.edge.target ++
    Binary.list (fun kind => Binary.nat32 kind.index) r.kinds

def ofBytes : Binary.Reader EdgeRecord := do
  return ⟨⟨← Binary.Reader.nat64, ← Binary.Reader.nat64⟩,
    ← Binary.Reader.list (Binary.Reader.case CallKind.all)⟩

end EdgeRecord

namespace GraphDocument

def toJson (d : GraphDocument) : Json :=
  .object [("nodes", .array (d.nodes.map NodeRecord.toJson)),
    ("edges", .array (d.edges.map EdgeRecord.toJson))]

def ofJson? (v : Json) : Option GraphDocument := do
  let [nodes, edges] ← v.fields? ["nodes", "edges"] | none
  return ⟨← Json.required (Json.list? NodeRecord.ofJson?) nodes,
    ← Json.required (Json.list? EdgeRecord.ofJson?) edges⟩

def toBytes (d : GraphDocument) : List UInt8 :=
  Binary.list NodeRecord.toBytes d.nodes ++ Binary.list EdgeRecord.toBytes d.edges

def ofBytes : Binary.Reader GraphDocument := do
  return ⟨← Binary.Reader.list NodeRecord.ofBytes, ← Binary.Reader.list EdgeRecord.ofBytes⟩

end GraphDocument

namespace MergedGraph

/-- The tables of a graph, each in order. -/
def toDocument (g : MergedGraph) : GraphDocument where
  nodes := g.numbered.map fun p => ⟨p.1, p.2⟩
  edges := g.calls.entries.map fun e => ⟨e.1, e.2⟩

/-- The nodes of records that are numbered without a gap from a number on. -/
def denseNodes : Gid → List NodeRecord → Except GraphError (List Node)
  | _, [] => .ok []
  | expected, r :: rs =>
    if r.gid = expected then (r.node :: ·) <$> denseNodes (expected + 1) rs
    else .error (.sparseGids expected r.gid)

/-- The graph with these tables.  The nodes may come in any order, but their
numbers leave no gap; the edges are added one after the other. -/
def ofDocument (d : GraphDocument) : Except GraphError MergedGraph := do
  let nodes ← denseNodes 0 (d.nodes.mergeSort fun a b => a.gid ≤ b.gid)
  d.edges.foldlM (fun g r => g.addCalls r.edge r.kinds) { nodes }

def toJson (g : MergedGraph) : Json := g.toDocument.toJson

/-- Reads a graph from its tables, `none` also when they do not fit together. -/
def ofJson? (v : Json) : Option MergedGraph :=
  GraphDocument.ofJson? v >>= fun d => (ofDocument d).toOption

end MergedGraph

end Stitch
