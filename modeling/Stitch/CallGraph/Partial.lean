/-
Partial call graphs: what the analysis of one artifact hands over.

A partial graph holds the methods that the artifact defines, those it refers to
but does not define, its class hierarchy and its call sites.  All URIs in it
are local to the artifact.

* `problems` lists what would make a merge of the graph less than complete;
* `ofText` and `text` read and write the document.
-/
import Stitch.CallGraph.Hierarchy
import Stitch.CallGraph.Kind
import Stitch.Json.Parser
import Stitch.Json.Printer
import Stitch.MethodUri

namespace Stitch

/-- One call in the body of a method. -/
structure CallSite where
  /-- The calling method, which has to be an internal node. -/
  caller : String
  /-- The method called.  For virtual and interface calls its type is the
  static type of the receiver; for dynamic calls it need not be a URI. -/
  callee : String
  kind : CallKind
  deriving DecidableEq, Repr, Inhabited

namespace CallSite

def toJson (c : CallSite) : Json :=
  .object [("caller", .string c.caller), ("calleeRef", .string c.callee),
    ("kind", c.kind.toJson)]

def ofJson? (v : Json) : Option CallSite := do
  let [caller, callee, kind] ← v.fields? ["caller", "calleeRef", "kind"] | none
  return ⟨← Json.required Json.string? caller, ← Json.required Json.string? callee,
    ← Json.required CallKind.ofJson? kind⟩

end CallSite

/-- What is wrong with a partial graph. -/
inductive PartialGraphProblem where
  | missingHierarchy
  | malformedNode (uri : String)
  | unknownCaller (uri : String)
  | malformedCallee (reference : String)
  deriving DecidableEq, Repr, Inhabited

def PartialGraphProblem.message : PartialGraphProblem → String
  | missingHierarchy => "virtual or interface calls without a class hierarchy"
  | malformedNode uri => s!"malformed internal node URI {uri}"
  | unknownCaller uri => s!"caller {uri} is not an internal node"
  | malformedCallee reference => s!"malformed callee reference {reference}"

/-- The call graph of one artifact on its own. -/
structure PartialGraph where
  revision : Revision
  hierarchy : Option ClassHierarchy := some {}
  /-- The methods that the artifact defines. -/
  internalNodes : List String := []
  /-- The methods that it refers to and does not define. -/
  externalReferences : List String := []
  /-- The types that it creates instances of, when the analysis found them. -/
  instantiatedTypes : Option (List String) := none
  calls : List CallSite := []
  deriving DecidableEq, Inhabited

namespace PartialGraph

def coordinate (g : PartialGraph) : Coordinate := g.revision.coordinate

/-- Whether a call of the graph is resolved along the class hierarchy. -/
def hasDispatchedCalls (g : PartialGraph) : Bool := g.calls.any (·.kind.isDispatched)

def isUri (text : String) : Bool := (MethodUri.ofText text).toBool

/-- What is wrong with one call site. -/
def callProblems (g : PartialGraph) (call : CallSite) : List PartialGraphProblem :=
  (if g.internalNodes.contains call.caller then [] else [.unknownCaller call.caller]) ++
  (if call.kind = .dynamic || isUri call.callee then [] else [.malformedCallee call.callee])

/-- What is wrong with the graph: first the hierarchy, then the nodes, then the
calls, each in the order of the document. -/
def problems (g : PartialGraph) : List PartialGraphProblem :=
  (if g.hierarchy.isNone && g.hasDispatchedCalls then [.missingHierarchy] else []) ++
  (g.internalNodes.filter fun uri => !isUri uri).map .malformedNode ++
  g.calls.flatMap g.callProblems

/-- A graph as a document.  A hierarchy and instantiated types that were not
computed are left out. -/
def toJson (g : PartialGraph) : Json :=
  .object <|
    [("revision", g.revision.toJson)] ++
    (g.hierarchy.toList.map fun h => ("classHierarchy", ClassHierarchy.toJson h)) ++
    [("internalNodes", .strings g.internalNodes),
      ("externalNodeReferences", .strings g.externalReferences)] ++
    (g.instantiatedTypes.toList.map fun types => ("instantiatedTypes", .strings types)) ++
    [("callEdges", .array (g.calls.map CallSite.toJson))]

def ofJson? (v : Json) : Option PartialGraph := do
  let [revision, hierarchy, internalNodes, externalReferences, instantiatedTypes, calls] ←
    v.fields? ["revision", "classHierarchy", "internalNodes", "externalNodeReferences",
      "instantiatedTypes", "callEdges"] | none
  return {
    revision := ← Json.required Revision.ofJson? revision
    hierarchy := ← Json.optional ClassHierarchy.ofJson? hierarchy
    internalNodes := ← Json.orElse [] Json.strings? internalNodes
    externalReferences := ← Json.orElse [] Json.strings? externalReferences
    instantiatedTypes := ← Json.optional Json.strings? instantiatedTypes
    calls := ← Json.orElse [] (Json.list? CallSite.ofJson?) calls }

/-- Reads the document of a graph. -/
def ofText? (text : String) : Option PartialGraph := Json.parse? text >>= ofJson?

/-- The document of a graph, indented. -/
def text (g : PartialGraph) : String := g.toJson.pretty

end PartialGraph

end Stitch
