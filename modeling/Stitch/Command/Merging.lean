/-
The commands on call graphs: merging, analysis, conversion and checks.
-/
import Stitch.Analysis.Pipeline
import Stitch.CallGraph.Jcg
import Stitch.Command.Session
import Stitch.Merge.Consistency
import Stitch.Store.Integrity

namespace Stitch.Session

variable {m : Type → Type} [Monad m] [FileSystem m]

/-- The graphs that a base is merged with: those that are named, or those of its
resolved dependencies that the repository has.  Without a dependency graph there
are none. -/
def dependencyGraphs (settings : Settings) (a : MergeArguments) (repository : Repository)
    (base : PartialGraph) : Session m (List PartialGraph) := do
  if !a.dependencies.isEmpty then
    a.dependencies.mapM fun path => lift StoreError.failure (Repository.readFile path)
  else
    let some graph ← openGraph settings a.graph | return []
    let resolution ← told (.ofMessage ∘ ResolveError.message) <|
      graph.resolveDependencies (resolveOptions settings a.graph) base.coordinate a.asOf true
    let (graphs, _) ←
      lift StoreError.failure (repository.loadAvailable resolution.coordinates)
    return graphs

/-- Merges a graph with its dependencies. -/
def mergeGraphs (settings : Settings) (a : MergeArguments) : Session m Unit := do
  let options ← mergeOptions settings a.strategy
  let options := { options with deep := options.deep || a.deep }
  let repository : Repository := ⟨a.repository.getD settings.repository⟩
  let input ← graphInput a.input
  let base ← lift StoreError.failure (repository.loadInput input)
  let dependencies ← dependencyGraphs settings a repository base
  let merged ← told Merge.failure (merge options base dependencies)
  let document := if a.jcg then merged.graph.toJcg.toJson else merged.graph.toJson
  write a.output document.pretty

/-- Analyses inputs one after the other into the graph store. -/
def analyse (settings : Settings) (a : AnalysisArguments) : Session m Unit := do
  let options ← mergeOptions settings a.strategy
  let inputs ← a.inputs.mapM graphInput
  let graph := (← openGraph settings a.graph).getD (.ofParts [] [])
  let store ← lift StoreError.failure (DirectoryStore.openAt (a.store.getD settings.store))
  let pipeline : AnalysisPipeline m :=
    .ofRepository ⟨a.repository.getD settings.repository⟩ graph (resolveOptions settings a.graph)
      options store.store
  let requests := inputs.zipIdx.map fun p =>
    ({ id := p.2, input := p.1, asOf := a.asOf } : AnalysisRequest)
  let outcomes ← (pipeline.run requests : m _)
  outcomes.forM fun o => printLine o.toJson.compact
  let failed := outcomes.countP fun o => o.status.isFailed
  if 0 < failed then fail s!"{failed} of {outcomes.length} analyses failed"

/-- The merged graph of a document. -/
def readMergedGraph (path : Path) : Session m MergedGraph := do
  let text ← attemptFor s!"reading {path.text}" (FileSystem.readText path)
  match Json.parse? text >>= MergedGraph.ofJson? with
  | some graph => return graph
  | none => fail s!"parsing merged graph {path.text}"

/-- Converts merged graphs to one JCG document. -/
def convert (inputs : List Path) (output : Option Path) : Session m Unit := do
  let graphs ← inputs.mapM readMergedGraph
  write output (JcgDocument.concat (graphs.map MergedGraph.toJcg)).toJson.pretty

/-- Prints the URIs that more than one node of a merged graph has, and says how
many there are. -/
def checkGraphUris (path : Path) : Session m Nat := do
  let check := UriCheck.ofGraph (← readMergedGraph path)
  printLine s!"{path.text}: {check.total} URIs, {check.duplicates.size} duplicated"
  check.duplicates.entries.forM fun e => printLine s!"  {e.1} x{e.2}"
  return check.duplicates.size

def checkUris (inputs : List Path) : Session m Unit := do
  let duplicated := (← inputs.mapM checkGraphUris).foldl (· + ·) 0
  if 0 < duplicated then fail s!"{duplicated} duplicated URIs found"

/-- Checks the graphs of a store. -/
def checkStore (settings : Settings) (root : Option Path) : Session m Unit := do
  let store ← lift StoreError.failure (DirectoryStore.openAt (root.getD settings.store))
  let report ← lift StoreError.failure store.check
  printLine report.toJson.pretty
  if !report.isHealthy then
    fail s!"{report.problems.length} problems in graph store {store.root.text}"

end Stitch.Session
