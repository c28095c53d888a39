/-
The analysis pipeline: requests are handled one after the other, and each has
one outcome.

For a request the graph of its input is read, its dependencies are resolved and
those of them that have a graph are merged with it; the merged graph goes to a
store.  A revision that the store has is not analysed again, and one that the
dependency graph does not know is merged alone.
-/
import Stitch.Analysis.Outcome
import Stitch.Dependency.Mediation
import Stitch.Merge.Assembly

namespace Stitch

structure AnalysisPipeline (m : Type → Type) where
  graph : DependencyGraph
  resolveOptions : ResolveOptions := {}
  mergeOptions : MergeOptions := {}
  /-- The partial graph of an input. -/
  load : GraphInput → ExceptT StoreError m PartialGraph
  /-- The partial graphs that there are of some coordinates, and the coordinates
  that have none. -/
  loadAvailable : List Coordinate → ExceptT StoreError m (List PartialGraph × List Coordinate)
  store : GraphStore m

namespace AnalysisPipeline

variable {m : Type → Type} [Monad m]

/-- A pipeline that reads from a repository. -/
def ofRepository [FileSystem m] (repository : Repository) (graph : DependencyGraph)
    (resolveOptions : ResolveOptions) (mergeOptions : MergeOptions) (store : GraphStore m) :
    AnalysisPipeline m where
  graph
  resolveOptions
  mergeOptions
  load := repository.loadInput
  loadAvailable := repository.loadAvailable
  store

/-- The dependencies to merge a revision with, and what could not be resolved. -/
def dependencies (p : AnalysisPipeline m) (c : Coordinate) (asOf : Option Int) :
    Except ResolveError (List Coordinate × List Degradation) :=
  match p.graph.resolveDependencies p.resolveOptions c asOf true with
  | .ok resolution => .ok (resolution.coordinates, resolution.degraded)
  | .error (.unknownRevision _) =>
    .ok ([], [⟨.missingRevision, c.text,
      "revision unknown to the dependency graph, no dependencies merged"⟩])
  | .error e => .error e

/-- Merges a graph with its dependencies and stores the result. -/
def analyse (p : AnalysisPipeline m) (base : PartialGraph) (asOf : Option Int) :
    ExceptT Failure m AnalysisStatus := do
  let c := base.coordinate
  if ← Failure.during "querying graph store"
    (Failure.telling StoreError.failure (p.store.contains c)) then return .alreadyStored
  let (dependencies, resolution) ← Failure.told (.ofMessage ∘ ResolveError.message)
    (p.dependencies c asOf)
  let (graphs, missing) ← Failure.during "loading dependency call graphs"
    (Failure.telling StoreError.failure (p.loadAvailable dependencies))
  let merged ← Failure.told Merge.failure (merge p.mergeOptions base graphs)
  Failure.during s!"storing merged graph of {c.text}"
    (Failure.telling StoreError.failure (p.store.put c merged.graph))
  return .stored merged.report missing resolution

/-- Handles a request. -/
def process (p : AnalysisPipeline m) (r : AnalysisRequest) : m AnalysisOutcome := do
  let outcome (coordinate : Option Coordinate) (status : AnalysisStatus) : AnalysisOutcome :=
    { id := r.id, input := r.input.text, coordinate, status }
  match ← (p.load r.input).run with
  | .error e =>
    return outcome none
      (.failed (e.failure.within s!"loading partial call graph of {r.input.text}"))
  | .ok base =>
    match ← (p.analyse base r.asOf).run with
    | .ok status => return outcome (some base.coordinate) status
    | .error failure => return outcome (some base.coordinate) (.failed failure)

/-- Handles requests one after the other. -/
def run (p : AnalysisPipeline m) (requests : List AnalysisRequest) : m (List AnalysisOutcome) :=
  requests.mapM p.process

end AnalysisPipeline

end Stitch
