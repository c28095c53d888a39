/-
Merging: one graph from a base and its dependencies.

The universe gives the internal nodes.  The calls of the base, and in a deep
merge those of every contributor, are resolved against it.  A call that reaches
no method goes to a placeholder for its callee reference, one for each
reference; an internal node of that name takes the place of the placeholder.

* `merge` does it all and reports what happened;
* `calls` lists what is resolved, `connect` adds the outcome of one call.
-/
import Stitch.Failure
import Stitch.Merge.Dispatch
import Stitch.Merge.Report

namespace Stitch

structure MergeOptions where
  strategy : Strategy := .cha
  /-- Whether the calls of the dependencies are resolved too. -/
  deep : Bool := false
  deriving DecidableEq, Repr, Inhabited

/-- A merged graph and the report about it. -/
structure Merged where
  graph : MergedGraph
  report : MergeReport
  deriving Inhabited

/-- A call with the contributor that makes it and where it goes. -/
structure CallOutcome where
  block : Nat
  call : CallSite
  resolution : CallResolution
  deriving DecidableEq, Repr, Inhabited

namespace Merge

/-- The contributors whose calls are resolved, numbered. -/
def resolvedBlocks (o : MergeOptions) (u : Universe) : List (Contributor × Nat) :=
  if o.deep then u.contributors.zipIdx else u.contributors.zipIdx.take 1

/-- The calls that are resolved, with where they go. -/
def calls (o : MergeOptions) (u : Universe) : List CallOutcome :=
  (resolvedBlocks o u).flatMap fun (c, block) =>
    c.graph.calls.map fun call =>
      ⟨block, call,
        u.resolve block call c.graph.hierarchy.isSome (o.strategy.forContributor c)⟩

/-- The failure of a merge whose graph does not fit together. -/
def failure (reason : GraphError) : Failure :=
  .naming "inconsistent merged graph" reason.message

/-- The placeholder of a reference, if the graph has one. -/
def placeholder? (g : MergedGraph) (reference : String) : Option Gid :=
  (g.numbered.find? fun p => !p.2.isInternal && p.2.uri == reference).map (·.1)

/-- The node that stands for a reference, and the graph with it. -/
def standIn (u : Universe) (g : MergedGraph) (reference : String) : MergedGraph × Gid :=
  match (u.symbols.lookup reference).or (placeholder? g reference) with
  | some gid => (g, gid)
  | none => (g.addNode ⟨reference, owningType reference, false⟩, g.nodeCount)

/-- Adds the outcome of a call to the graph. -/
def connect (u : Universe) (g : MergedGraph) (o : CallOutcome) :
    Except GraphError MergedGraph :=
  match o.resolution with
  | .dropped => .ok g
  | .resolved caller targets =>
    targets.foldlM (fun g target => g.addCall ⟨caller, target⟩ o.call.kind) g
  | .unresolved caller =>
    let (g, target) := standIn u g o.call.callee
    g.addCall ⟨caller, target⟩ o.call.kind

/-- The coordinate of a contributor, as reports show it. -/
def blockText (u : Universe) (block : Nat) : String :=
  (u.contributors[block]?).elim "" (·.coordinate.text)

/-- The problem with a contributor that has no hierarchy but calls that need one. -/
def hierarchyProblem? (c : Contributor) : Option Degradation :=
  if c.graph.hierarchy.isNone && c.graph.hasDispatchedCalls then
    some ⟨.mergeInputMalformed, c.coordinate.text,
      "missing class hierarchy, virtual and interface calls left unresolved"⟩
  else none

/-- The problem with a call that is dropped. -/
def droppedProblem? (u : Universe) (o : CallOutcome) : Option Degradation :=
  if o.resolution = .dropped then
    some ⟨.mergeInputMalformed, blockText u o.block,
      s!"caller {o.call.caller} is not an internal node"⟩
  else none

/-- The report about a merge. -/
def report (o : MergeOptions) (base : PartialGraph) (u : Universe)
    (outcomes : List CallOutcome) (g : MergedGraph) : MergeReport :=
  let blocks := (resolvedBlocks o u).map (·.1)
  let dynamic (c : CallOutcome) : Bool := c.call.kind = .dynamic
  { base := base.coordinate.text
    strategy := o.strategy.name
    contributors := u.contributors.map (·.coordinate.text)
    internalNodes := u.nodes.length
    placeholderNodes := g.externalNodes.length
    edges := g.edgeCount
    resolvedCalls := outcomes.countP fun c => c.resolution.isResolved
    unresolvedCalls := outcomes.countP fun c => c.resolution.isUnresolved && !dynamic c
    dynamicCalls := outcomes.countP fun c => c.resolution.isUnresolved && dynamic c
    droppedCalls := outcomes.countP fun c => c.resolution = .dropped
    rtaFallbacks :=
      (blocks.filter fun c => o.strategy.forContributor c ≠ o.strategy).map (·.coordinate.text)
    degraded :=
      u.skipped ++ blocks.filterMap hierarchyProblem? ++ outcomes.filterMap (droppedProblem? u) }

end Merge

/-- Merges a base with its dependencies. -/
def merge (o : MergeOptions) (base : PartialGraph) (dependencies : List PartialGraph) :
    Except GraphError Merged := do
  let u := Universe.build base dependencies
  let outcomes := Merge.calls o u
  let graph ← outcomes.foldlM (Merge.connect u) { nodes := u.nodes }
  return ⟨graph, Merge.report o base u outcomes graph⟩

end Stitch
