/-
A merge and an analysis of one input agree.

`MergeSteps` are what a merge that succeeds goes through, `AnalysisSteps` what an analysis of
the same input does with an empty store.  Both open the same dependency graph, ask it the same
query and load the same graphs; an analysis without a dependency graph asks an empty one, which
knows no revision (`FindsGraphs.exists_dependencies`).

* `exists_mergeSteps`: a merge that succeeds went through its steps, and none of them changes
  the tree before the document is written.
* `OpensEmpty` is a store that is empty once it is open.  The folders that are made for it take
  nothing away, and where they bring nothing within the repository's reach either, all is loaded
  as before (`MergeSteps.analysisSteps`).
* `AnalysisSteps.outcome_analyse_cases`: the graph is stored, or a name is too long.
* **`analyse_agrees_with_merge`** puts these together, and `analyse_differs_from_merge` shows
  that it needs both conditions.
-/
import Stitch.Command.Run
import Stitch.Proofs.Analysis.Run
import Stitch.Proofs.Command.Session
import Stitch.Proofs.Dependency.Snapshot
import Stitch.Proofs.Store.Directory
import Stitch.Proofs.Store.Repository

namespace Stitch

/-! ### Merged graphs -/

namespace Merge

theorem isSound_of_connect {u : Universe} {g g' : MergedGraph} {o : CallOutcome} (h : g.IsSound)
    (hconnect : connect u g o = .ok g') : g'.IsSound := by
  rw [connect] at hconnect
  split at hconnect
  next =>
    cases hconnect
    exact h
  next caller targets _ =>
    exact foldlM_preserves (fun g target g' _ hg hcall => MergedGraph.isSound_addCalls hg hcall) h
      hconnect
  next caller _ =>
    have hstand : (standIn u g o.call.callee).1.IsSound := by
      rw [standIn]
      split
      · exact h
      · exact MergedGraph.isSound_addNode h _
    exact MergedGraph.isSound_addCalls hstand hconnect

/-- The graph of a merge can be stored. -/
theorem isSound_of_merge {o : MergeOptions} {base : PartialGraph} {dependencies : List PartialGraph}
    {m : Merged} (h : merge o base dependencies = .ok m) : m.graph.IsSound :=
  foldlM_preserves (fun _ _ _ _ hg hconnect => isSound_of_connect hg hconnect)
    (MergedGraph.isSound_nodes _) (merge_eq_ok_iff.1 h).1

end Merge

namespace Session

variable {settings : Settings} {a : MergeArguments} {t t' : FileTree}

/-! ### The steps of a merge -/

/-- The repository of a merge. -/
def mergeRepository (settings : Settings) (a : MergeArguments) : Repository :=
  ⟨a.repository.getD settings.repository⟩

/-- What a base is merged with: the available graphs of what its query comes to, and nothing
without a dependency graph. -/
inductive FindsGraphs (repository : Repository) (t : FileTree) (o : ResolveOptions)
    (c : Coordinate) (asOf : Option Int) : Option DependencyGraph → List PartialGraph → Prop
  | alone : FindsGraphs repository t o c asOf none []
  | resolved {graph : DependencyGraph} {res : Resolution} {found : List PartialGraph}
    {missing : List Coordinate}
    (hquery : graph.resolveDependencies o c asOf true = .ok res)
    (hload : FileTree.outcome (repository.loadAvailable res.coordinates) t =
      (.ok (found, missing), t)) :
    FindsGraphs repository t o c asOf (some graph) found

/-- The steps of a merge that names no dependencies. -/
structure MergeSteps (settings : Settings) (a : MergeArguments) (t : FileTree)
    (options : MergeOptions) (input : GraphInput) (base : PartialGraph)
    (graph : Option DependencyGraph) (found : List PartialGraph) (merged : Merged) : Prop where
  hasOptions : outcome (mergeOptions settings a.strategy) "" t = ((.ok options, ""), t)
  hasInput : outcome (graphInput a.input) "" t = ((.ok input, ""), t)
  loadsBase : FileTree.outcome ((mergeRepository settings a).loadInput input) t = (.ok base, t)
  opensGraph : outcome (openGraph settings a.graph) "" t = ((.ok graph, ""), t)
  findsGraphs : FindsGraphs (mergeRepository settings a) t (resolveOptions settings a.graph)
    base.coordinate a.asOf graph found
  merges : merge { options with deep := options.deep || a.deep } base found = .ok merged

/-- The text of the document that a merge prints. -/
def mergeDocument (a : MergeArguments) (merged : Merged) : String :=
  (if a.jcg then merged.graph.toJcg.toJson else merged.graph.toJson).pretty

theorem outcome_write_none (text : String) (t : FileTree) :
    outcome (write none text) "" t = ((.ok (), text ++ "\n"), t) := by
  rw [write, outcome_printLine, String.empty_append]

theorem outcome_dependencyGraphs {repository : Repository} {base : PartialGraph}
    {graph : Option DependencyGraph} {found : List PartialGraph} (hnone : a.dependencies = [])
    (hgraph : outcome (openGraph settings a.graph) "" t = ((.ok graph, ""), t))
    (hfound : FindsGraphs repository t (resolveOptions settings a.graph) base.coordinate a.asOf
      graph found) :
    outcome (dependencyGraphs settings a repository base) "" t = ((.ok found, ""), t) := by
  rw [dependencyGraphs, hnone]
  refine (outcome_bind_ok hgraph).trans ?_
  cases hfound with
  | alone => rfl
  | resolved hquery hload =>
    dsimp only
    rw [hquery]
    refine (outcome_bind_ok (outcome_told _ _)).trans ?_
    exact outcome_bind_ok (outcome_lift _ hload)

theorem isReading_dependencyGraphs (repository : Repository) (base : PartialGraph)
    (hnone : a.dependencies = []) :
    IsReading (dependencyGraphs settings a repository base : Session (StateM FileTree) _) := by
  rw [dependencyGraphs, hnone]
  refine (isReading_openGraph settings a.graph).bind fun graph => ?_
  split
  · refine (isReading_told _ _).bind fun res => ?_
    exact (isReading_lift _ (repository.isReading_loadAvailable _)).bind fun _ => isReading_pure _
  · exact isReading_pure _

theorem exists_findsGraphs {repository : Repository} {base : PartialGraph}
    {found : List PartialGraph} (hnone : a.dependencies = [])
    (h : outcome (dependencyGraphs settings a repository base) "" t = ((.ok found, ""), t)) :
    ∃ graph, outcome (openGraph settings a.graph) "" t = ((.ok graph, ""), t) ∧
      FindsGraphs repository t (resolveOptions settings a.graph) base.coordinate a.asOf
        graph found := by
  rw [dependencyGraphs, hnone] at h
  obtain ⟨graph, hgraph, hrest⟩ :=
    (isReading_openGraph settings a.graph).exists_of_bind_eq_ok h
  refine ⟨graph, hgraph, ?_⟩
  cases graph with
  | none =>
    cases hrest
    exact .alone
  | some graph =>
    obtain ⟨res, hquery, hrest⟩ := (isReading_told _ _).exists_of_bind_eq_ok hrest
    obtain ⟨loaded, hload, hrest⟩ := (isReading_lift _
      (repository.isReading_loadAvailable res.coordinates)).exists_of_bind_eq_ok hrest
    cases hrest
    exact .resolved (eq_ok_of_outcome_told hquery) (eq_ok_of_outcome_lift hload)

/-- A merge writes its document. -/
theorem MergeSteps.outcome_mergeGraphs {options : MergeOptions} {input : GraphInput}
    {base : PartialGraph} {graph : Option DependencyGraph} {found : List PartialGraph}
    {merged : Merged} (h : MergeSteps settings a t options input base graph found merged)
    (hnone : a.dependencies = []) :
    outcome (mergeGraphs settings a) "" t =
      outcome (write a.output (mergeDocument a merged)) "" t := by
  have hfound := outcome_dependencyGraphs hnone h.opensGraph h.findsGraphs
  rw [mergeGraphs, outcome_bind_ok h.hasOptions]
  dsimp only
  rw [← mergeRepository, outcome_bind_ok h.hasInput, outcome_bind_ok (outcome_lift _ h.loadsBase),
    outcome_bind_ok hfound, h.merges, outcome_bind_ok (outcome_told _ _)]
  rfl

/-- A merge that succeeds went through its steps. -/
theorem exists_mergeSteps {printed : String} (hnone : a.dependencies = [])
    (h : outcome (mergeGraphs settings a) "" t = ((.ok (), printed), t')) :
    ∃ options input base graph found merged,
      MergeSteps settings a t options input base graph found merged := by
  rw [mergeGraphs] at h
  obtain ⟨options, hoptions, h₁⟩ :=
    (isReading_mergeOptions settings a.strategy).exists_of_bind_eq_ok h
  obtain ⟨input, hinput, h₂⟩ := (isReading_graphInput a.input).exists_of_bind_eq_ok h₁
  obtain ⟨base, hbase, h₃⟩ := (isReading_lift _
    ((mergeRepository settings a).isReading_loadInput input)).exists_of_bind_eq_ok h₂
  obtain ⟨found, hfound, h₄⟩ :=
    (isReading_dependencyGraphs (mergeRepository settings a) base hnone).exists_of_bind_eq_ok h₃
  obtain ⟨merged, hmerged, -⟩ := (isReading_told _ _).exists_of_bind_eq_ok h₄
  obtain ⟨graph, hgraph, hfinds⟩ := exists_findsGraphs hnone hfound
  exact ⟨options, input, base, graph, found, merged, hoptions, hinput,
    eq_ok_of_outcome_lift hbase, hgraph, hfinds, eq_ok_of_outcome_told hmerged⟩

theorem FindsGraphs.unique {repository : Repository} {o : ResolveOptions} {c : Coordinate}
    {asOf : Option Int} {graph : Option DependencyGraph} {found found' : List PartialGraph}
    (h : FindsGraphs repository t o c asOf graph found)
    (h' : FindsGraphs repository t o c asOf graph found') : found = found' := by
  cases h with
  | alone =>
    cases h'
    rfl
  | resolved hquery hload =>
    cases h' with
    | resolved hquery' hload' =>
      cases hquery.symm.trans hquery'
      cases hload.symm.trans hload'
      rfl

/-- A merge has one base and one result. -/
theorem MergeSteps.unique {options options' : MergeOptions} {input input' : GraphInput}
    {base base' : PartialGraph} {graph graph' : Option DependencyGraph}
    {found found' : List PartialGraph} {merged merged' : Merged}
    (h : MergeSteps settings a t options input base graph found merged)
    (h' : MergeSteps settings a t options' input' base' graph' found' merged') :
    base = base' ∧ merged = merged' := by
  cases h.hasOptions.symm.trans h'.hasOptions
  cases h.hasInput.symm.trans h'.hasInput
  cases h.loadsBase.symm.trans h'.loadsBase
  cases h.opensGraph.symm.trans h'.opensGraph
  cases h.findsGraphs.unique h'.findsGraphs
  cases h.merges.symm.trans h'.merges
  exact ⟨rfl, rfl⟩

/-! ### Stores that are opened -/

/-- A store is opened where it is empty.  The folders that are made for it, if any, bring no
more files within reach of the repository. -/
structure OpensEmpty (root : Path) (repository : Repository) (t t' : FileTree) : Prop where
  opens : FileTree.outcome (DirectoryStore.openAt root) t = (.ok ⟨root⟩, t')
  empty : t'.list root = .ok []
  reaches : ∀ c bytes, t'.find (repository.pathOf c) = .ok (.file bytes) →
    t.find (repository.pathOf c) = .ok (.file bytes)

/-- A folder that is there and empty is such a store. -/
theorem opensEmpty_of_list {root : Path} (repository : Repository) (h : t.list root = .ok []) :
    OpensEmpty root repository t t where
  opens := by
    obtain ⟨place, hfolder, -⟩ := FileTree.exists_isFolder_of_list_eq_ok h
    have hcreate := FileTree.run_createFolders_of_isFolder hfolder
    rw [DirectoryStore.openAt, FileTree.outcome_bind_ok (FileTree.outcome_attempt_ok hcreate)]
    rfl
  empty := h
  reaches _ _ hfile := hfile

section Opened

variable {root : Path} {repository : Repository}

theorem OpensEmpty.addsFolders (h : OpensEmpty root repository t t') :
    FileTree.AddsFolders t t' := by
  have hmakes := FileTree.makesFolders_createFolders root t
  have hopens := h.opens
  rw [DirectoryStore.openAt] at hopens
  obtain ⟨u, t₁, hfolders, hpure⟩ := FileTree.exists_of_outcome_bind_eq_ok hopens
  rw [FileTree.run_of_outcome_attempt hfolders] at hmakes
  cases hpure
  exact hmakes

theorem OpensEmpty.outcome_load (h : OpensEmpty root repository t t') (c : Coordinate) :
    (FileTree.outcome (repository.load c) t').1 = (FileTree.outcome (repository.load c) t).1 :=
  Repository.outcome_load_congr fun bytes =>
    ⟨h.reaches c bytes, fun hfile => h.addsFolders.find_file hfile⟩

theorem OpensEmpty.outcome_loadInput (h : OpensEmpty root repository t t') {input : GraphInput}
    {base : PartialGraph}
    (hbase : FileTree.outcome (repository.loadInput input) t = (.ok base, t)) :
    FileTree.outcome (repository.loadInput input) t' = (.ok base, t') := by
  rw [(repository.isReading_loadInput input).outcome_eq t', Prod.mk.injEq, and_iff_left rfl]
  cases input with
  | file path =>
    have hread : (FileTree.outcome (Repository.readFile path) t).1 = .ok base :=
      congrArg Prod.fst hbase
    obtain ⟨bytes, hfile⟩ := Repository.exists_find_of_readFile hread
    have hfile' := h.addsFolders.find_file hfile
    exact (Repository.outcome_readFile_congr
      (by rw [FileTree.read, FileTree.read, hfile, hfile'])).trans hread
  | coordinate c => exact (h.outcome_load c).trans (congrArg Prod.fst hbase)

theorem OpensEmpty.outcome_loadAvailable (h : OpensEmpty root repository t t')
    {cs missing : List Coordinate} {found : List PartialGraph}
    (hload : FileTree.outcome (repository.loadAvailable cs) t = (.ok (found, missing), t)) :
    FileTree.outcome (repository.loadAvailable cs) t' = (.ok (found, missing), t') := by
  rw [(repository.isReading_loadAvailable cs).outcome_eq t',
    Repository.outcome_loadAvailable_congr fun c _ => h.outcome_load c, hload]

theorem OpensEmpty.findsGraphs (h : OpensEmpty root repository t t') {o : ResolveOptions}
    {c : Coordinate} {asOf : Option Int} {graph : Option DependencyGraph}
    {found : List PartialGraph} (hfound : FindsGraphs repository t o c asOf graph found) :
    FindsGraphs repository t' o c asOf graph found := by
  cases hfound with
  | alone => exact .alone
  | resolved hquery hload => exact .resolved hquery (h.outcome_loadAvailable hload)

end Opened

/-! ### The analysis -/

/-- The arguments of an analysis of the input of a merge. -/
def analysisOf (a : MergeArguments) (store : Option Path) : AnalysisArguments where
  inputs := [a.input]
  asOf := a.asOf
  strategy := a.strategy
  repository := a.repository
  store
  graph := a.graph

/-- The pipeline of an analysis. -/
def analysisPipeline (settings : Settings) (a : MergeArguments) (options : MergeOptions)
    (graph : Option DependencyGraph) (root : Path) : AnalysisPipeline (StateM FileTree) :=
  .ofRepository (mergeRepository settings a) (graph.getD (.ofParts [] []))
    (resolveOptions settings a.graph) options (DirectoryStore.store ⟨root⟩)

/-- The outcome of the input is printed, and the analysis fails if it is a failure. -/
theorem outcome_analyse {options : MergeOptions} {input : GraphInput}
    {graph : Option DependencyGraph} {store : Option Path} {o : AnalysisOutcome} {t'' : FileTree}
    (hoptions : outcome (mergeOptions settings a.strategy) "" t = ((.ok options, ""), t))
    (hinput : outcome (graphInput a.input) "" t = ((.ok input, ""), t))
    (hgraph : outcome (openGraph settings a.graph) "" t = ((.ok graph, ""), t))
    (hopen : FileTree.outcome (DirectoryStore.openAt (store.getD settings.store)) t =
      (.ok ⟨store.getD settings.store⟩, t'))
    (hprocess : ((analysisPipeline settings a options graph (store.getD settings.store)).process
      { id := 0, input, asOf := a.asOf }).run t' = (o, t'')) :
    outcome (analyse settings (analysisOf a store)) "" t =
      ((if o.status.isFailed then .error ⟨"1 of 1 analyses failed", []⟩ else .ok (),
        o.toJson.compact ++ "\n"), t'') := by
  have hinputs : outcome ([a.input].mapM graphInput : Session (StateM FileTree) _) "" t =
      ((.ok [input], ""), t) := by
    rw [List.mapM_cons, outcome_bind_ok hinput]
    rfl
  have hrun := AnalysisPipeline.run_singleton hprocess
  rw [analyse]
  refine (outcome_bind_ok hoptions).trans ((outcome_bind_ok hinputs).trans
    ((outcome_bind_ok hgraph).trans ((outcome_bind_ok (outcome_lift _ hopen)).trans
      ((outcome_bind_ok (outcome_liftM hrun)).trans ?_))))
  have hlines : outcome ([o].forM fun o => printLine o.toJson.compact : Session (StateM FileTree) _)
      "" t'' = ((.ok (), o.toJson.compact ++ "\n"), t'') := by
    refine (outcome_bind_ok (outcome_printLine o.toJson.compact)).trans ?_
    rw [String.empty_append]
    rfl
  have hmessage : s!"{1} of {1} analyses failed" = "1 of 1 analyses failed" := by decide +kernel
  refine (outcome_bind_ok hlines).trans ?_
  rw [← hmessage]
  simp only [List.countP_singleton]
  cases o.status.isFailed <;> rfl

/-- The steps of an analysis of one input into an empty store. -/
structure AnalysisSteps (settings : Settings) (a : MergeArguments) (store : Option Path)
    (t t' : FileTree) (options : MergeOptions) (input : GraphInput) (base : PartialGraph)
    (graph : Option DependencyGraph) (found : List PartialGraph) (merged : Merged) : Prop where
  hasOptions : outcome (mergeOptions settings a.strategy) "" t = ((.ok options, ""), t)
  hasInput : outcome (graphInput a.input) "" t = ((.ok input, ""), t)
  opensGraph : outcome (openGraph settings a.graph) "" t = ((.ok graph, ""), t)
  opensStore : FileTree.outcome (DirectoryStore.openAt (store.getD settings.store)) t =
    (.ok ⟨store.getD settings.store⟩, t')
  isEmpty : t'.list (store.getD settings.store) = .ok []
  loadsBase : FileTree.outcome ((mergeRepository settings a).loadInput input) t' = (.ok base, t')
  findsGraphs : FindsGraphs (mergeRepository settings a) t' (resolveOptions settings a.graph)
    base.coordinate a.asOf graph found
  merges : merge options base found = .ok merged

section Analysis

variable {store : Option Path} {options : MergeOptions} {input : GraphInput} {base : PartialGraph}
  {graph : Option DependencyGraph} {found : List PartialGraph} {merged : Merged}

/-- What the pipeline resolves and loads: without a dependency graph it has an empty one, which
does not know the base. -/
theorem FindsGraphs.exists_dependencies {c : Coordinate}
    (h : FindsGraphs (mergeRepository settings a) t (resolveOptions settings a.graph) c a.asOf
      graph found) (options : MergeOptions) (root : Path) :
    ∃ dependencies degraded missing,
      (analysisPipeline settings a options graph root).dependencies c a.asOf =
        .ok (dependencies, degraded) ∧
      FileTree.outcome ((mergeRepository settings a).loadAvailable dependencies) t =
        (.ok (found, missing), t) := by
  cases h with
  | alone =>
    have hunknown := DependencyGraph.revision?_ofParts_nil [] c
    have hdependencies : ∃ degraded, (analysisPipeline settings a options none root).dependencies c
        a.asOf = .ok ([], degraded) := by
      rw [AnalysisPipeline.dependencies]
      simp only [analysisPipeline, AnalysisPipeline.ofRepository, Option.getD_none]
      rw [DependencyGraph.resolveDependencies_of_revision?_eq_none hunknown]
      exact ⟨_, rfl⟩
    obtain ⟨degraded, hdependencies⟩ := hdependencies
    exact ⟨[], degraded, [], hdependencies, rfl⟩
  | @resolved _ res _ missing hquery hload =>
    refine ⟨res.coordinates, res.degraded, missing, ?_, hload⟩
    rw [AnalysisPipeline.dependencies]
    simp only [analysisPipeline, AnalysisPipeline.ofRepository, Option.getD_some]
    rw [hquery]

/-- The graph is stored if the store can have its files. -/
theorem AnalysisSteps.outcome_analyse_cases
    (h : AnalysisSteps settings a store t t' options input base graph found merged) :
    (¬DirectoryStore.HasShortNames base.coordinate ∧ ∃ e line t'',
        outcome (analyse settings (analysisOf a store)) "" t = ((.error e, line), t'')) ∨
      (DirectoryStore.HasShortNames base.coordinate ∧ ∃ line t'',
        outcome (analyse settings (analysisOf a store)) "" t = ((.ok (), line), t'') ∧
        (merged.graph.Fits → FileTree.outcome
          (DirectoryStore.get ⟨store.getD settings.store⟩ base.coordinate) t'' =
            (.ok merged.graph, t''))) := by
  obtain ⟨place, hholds⟩ := DirectoryStore.exists_holds_of_list_eq_nil
    (s := ⟨store.getD settings.store⟩) h.isEmpty
  have hnew : firstPut [] base.coordinate = none := rfl
  obtain ⟨dependencies, degraded, missing, hdependencies, hload⟩ :=
    h.findsGraphs.exists_dependencies options (store.getD settings.store)
  have hcontains := hholds.outcome_contains base.coordinate
  have hput := hholds.outcome_put_of_none (g := merged.graph) hnew
  rcases DirectoryStore.outcome_writeFiles (g := merged.graph) hholds.isFolder
    fun _ => hholds.entryIn_of_none hnew with
      ⟨hlong, path, t'', hwrite⟩ | ⟨t'', hwrite, hgains⟩
  · refine .inl ⟨hlong, _, _, t'', outcome_analyse h.hasOptions h.hasInput h.opensGraph
      h.opensStore (AnalysisPipeline.run_process_of_analyse_error h.loadsBase
        (AnalysisPipeline.run_analyse_of_put_error hcontains hdependencies hload h.merges
          (hput.trans hwrite)))⟩
  · refine .inr ⟨hgains.short, _, t'', outcome_analyse h.hasOptions h.hasInput h.opensGraph
      h.opensStore (AnalysisPipeline.run_process_of_analyse_ok h.loadsBase
        (AnalysisPipeline.run_analyse_of_put hcontains hdependencies hload h.merges
          (hput.trans hwrite))), fun hfits => ?_⟩
    have hstored := hholds.put hnew hgains (Merge.isSound_of_merge h.merges) hfits
    rw [hstored.outcome_get, StoreCall.after_put_self hnew]

/-- The steps of a merge are those of an analysis into an empty store. -/
theorem MergeSteps.analysisSteps
    (h : MergeSteps settings a t options input base graph found merged) (hdeep : a.deep = false)
    (hopens : OpensEmpty (store.getD settings.store) (mergeRepository settings a) t t') :
    AnalysisSteps settings a store t t' options input base graph found merged where
  hasOptions := h.hasOptions
  hasInput := h.hasInput
  opensGraph := h.opensGraph
  opensStore := hopens.opens
  isEmpty := hopens.empty
  loadsBase := hopens.outcome_loadInput h.loadsBase
  findsGraphs := hopens.findsGraphs h.findsGraphs
  merges := by
    have hmerges := h.merges
    rwa [hdeep, Bool.or_false] at hmerges

/-- **An analysis agrees with a merge.**  When a merge succeeds that names no dependencies and
is not deep, the analysis of the same input with the same settings and an empty store stores
the graph whose document the merge writes.  It fails exactly if the names of the base's files
in the store are too long. -/
theorem analyse_agrees_with_merge {printed : String} {t₁ : FileTree} (hnone : a.dependencies = [])
    (hdeep : a.deep = false)
    (hmerge : outcome (Command.run settings (.merge a)) "" t = ((.ok (), printed), t₁))
    (hopens : OpensEmpty (store.getD settings.store) (mergeRepository settings a) t t') :
    ∃ options input base graph found merged,
      MergeSteps settings a t options input base graph found merged ∧
      outcome (write a.output (mergeDocument a merged)) "" t = ((.ok (), printed), t₁) ∧
      (a.output = none → printed = mergeDocument a merged ++ "\n") ∧
      ∃ result line t'',
        outcome (Command.run settings (.analyse (analysisOf a store))) "" t =
          ((result, line), t'') ∧
        (result = .ok () ↔ DirectoryStore.HasShortNames base.coordinate) ∧
        (result = .ok () → merged.graph.Fits → FileTree.outcome
          (DirectoryStore.get ⟨store.getD settings.store⟩ base.coordinate) t'' =
            (.ok merged.graph, t'')) := by
  obtain ⟨options, input, base, graph, found, merged, hsteps⟩ := exists_mergeSteps hnone hmerge
  have hwritten := (hsteps.outcome_mergeGraphs hnone).symm.trans hmerge
  refine ⟨options, input, base, graph, found, merged, hsteps, hwritten, fun houtput => ?_, ?_⟩
  · rw [houtput, outcome_write_none] at hwritten
    cases hwritten
    rfl
  · rcases (hsteps.analysisSteps hdeep hopens).outcome_analyse_cases with
      ⟨hlong, e, line, t'', hrun⟩ | ⟨hshort, line, t'', hrun, hstored⟩
    · exact ⟨_, line, t'', hrun, iff_of_false nofun hlong, nofun⟩
    · exact ⟨_, line, t'', hrun, iff_of_true rfl hshort, fun _ => hstored⟩

end Analysis

/-! ### Merges of a file -/

/-- A partial graph in a file, beside an empty folder. -/
def fileTree (g : PartialGraph) : FileTree where
  entries := SortedMap.ofList
    [(["base.json"], .file (Text.Utf8.bytes g.text)), (["store"], .folder)]

/-- The merge of that file without a dependency graph. -/
def fileArguments : MergeArguments where
  input := "base.json"
  strategy := none
  deep := false
  asOf := none
  repository := none
  dependencies := []
  output := none
  jcg := false
  graph := ⟨none, none, false⟩

theorem list_fileTree (g : PartialGraph) : (fileTree g).list ⟨"store"⟩ = .ok [] := rfl

theorem opensEmpty_fileTree (g : PartialGraph) :
    OpensEmpty ((some ⟨"store"⟩ : Option Path).getD ({} : Settings).store)
      (mergeRepository {} fileArguments) (fileTree g) (fileTree g) :=
  opensEmpty_of_list _ (list_fileTree g)

theorem exists_mergeSteps_fileTree {g : PartialGraph} (hfits : g.revision.Fits) : ∃ merged,
    MergeSteps {} fileArguments (fileTree g) {} (.file ⟨"base.json"⟩) g none [] merged := by
  obtain ⟨merged, hmerge, -⟩ := Merge.exists_merge_ok {} g []
  have hread : (fileTree g).read ⟨"base.json"⟩ = .ok (Text.Utf8.bytes g.text) := rfl
  exact ⟨merged, rfl, rfl, Repository.outcome_readFile hread hfits, rfl, .alone, hmerge⟩

/-- The graph of a file is merged alone and stored. -/
theorem analyse_agrees_with_merge_fileTree : ∃ merged line t'',
    outcome (Command.run {} (.merge fileArguments)) "" (fileTree Merge.strayCaller) =
      ((.ok (), mergeDocument fileArguments merged ++ "\n"), fileTree Merge.strayCaller) ∧
    outcome (Command.run {} (.analyse (analysisOf fileArguments (some ⟨"store"⟩)))) ""
      (fileTree Merge.strayCaller) = ((.ok (), line), t'') ∧
    FileTree.outcome (DirectoryStore.get ⟨⟨"store"⟩⟩ Merge.strayCaller.coordinate) t'' =
      (.ok merged.graph, t'') := by
  obtain ⟨merged, hsteps⟩ := exists_mergeSteps_fileTree (g := Merge.strayCaller)
    ⟨by decide, by decide⟩
  have hmerge : outcome (Command.run {} (.merge fileArguments)) "" (fileTree Merge.strayCaller) =
      ((.ok (), mergeDocument fileArguments merged ++ "\n"), fileTree Merge.strayCaller) :=
    (hsteps.outcome_mergeGraphs rfl).trans (outcome_write_none _ _)
  obtain ⟨_, _, base, _, _, merged', hsteps', -, -, result, line, t'', hrun, hresult, hstored⟩ :=
    analyse_agrees_with_merge rfl rfl hmerge (opensEmpty_fileTree _)
  obtain ⟨rfl, rfl⟩ := hsteps.unique hsteps'
  have hshort : DirectoryStore.HasShortNames Merge.strayCaller.coordinate := by decide +kernel
  have hfits : ∀ m ∈ (merge {} Merge.strayCaller []).toOption, m.graph.Fits := by decide +kernel
  obtain rfl := hresult.2 hshort
  refine ⟨merged, line, t'', hmerge, hrun, hstored rfl (hfits merged ?_)⟩
  rw [show merge {} Merge.strayCaller [] = .ok merged from hsteps.merges]
  rfl

/-! ### Analyses that differ -/

/-- A graph whose version is longer than the name of a file may be. -/
def longNamed : PartialGraph where
  revision := ⟨⟨"mvn", ⟨"org", "app"⟩, String.ofList (List.replicate 300 '1')⟩, 1⟩

/-- What `Merge.strayCaller` needs. -/
def library : PartialGraph where
  revision := ⟨⟨"mvn", ⟨"org", "lib"⟩, "1"⟩, 1⟩
  internalNodes := ["/org/Log.write()V"]

def libraryNeeds : DependencyGraph where
  revisions := [Merge.strayCaller.revision, library.revision]
  constraints := [{ source := Merge.strayCaller.coordinate, target := library.revision.artifact }]

theorem ofSnapshot_libraryNeeds :
    DependencyGraph.ofSnapshot libraryNeeds.toSnapshot = .ok libraryNeeds := by
  have hparsed : ∀ c ∈ libraryNeeds.constraints, c.IsParsed := by
    intro c hc
    rw [List.mem_singleton.1 hc]
    exact ⟨by simp, by simp⟩
  have hfits : libraryNeeds.Fits := by constructor <;> decide +kernel
  have hsorted : Revision.sorted libraryNeeds.revisions = libraryNeeds.revisions :=
    List.mergeSort_of_pairwise (by decide +kernel)
  have hdistinct : distinctBy Revision.same libraryNeeds.revisions = libraryNeeds.revisions := by
    decide +kernel
  have hread := DependencyGraph.ofSnapshot_append hparsed hfits []
  rw [List.append_nil, DependencyGraph.ofParts, hdistinct, hsorted] at hread
  exact hread

/-- A partial graph, a snapshot, and a repository with a dependency. -/
def libraryTree : FileTree where
  entries := SortedMap.ofList [
    (["base.json"], .file (Text.Utf8.bytes Merge.strayCaller.text)),
    (["graph.bin"], .file libraryNeeds.toSnapshot), (["repo"], .folder),
    (["repo", "l"], .folder), (["repo", "l", "lib"], .folder),
    (["repo", "l", "lib", "lib_org_1.json"], .file (Text.Utf8.bytes library.text))]

/-- The path of the repository leads through the folder of the store. -/
def detourArguments : MergeArguments :=
  { fileArguments with
    repository := some ⟨"store/../repo"⟩
    graph := ⟨none, some ⟨"graph.bin"⟩, false⟩ }

theorem outcome_openGraph_libraryTree :
    outcome (openGraph {} detourArguments.graph) "" libraryTree =
      ((.ok (some libraryNeeds), ""), libraryTree) := by
  have htold : outcome (openGraph {} detourArguments.graph) "" libraryTree =
      outcome (some <$> told (.ofMessage ∘ SnapshotFault.message)
        (DependencyGraph.ofSnapshot libraryNeeds.toSnapshot)) "" libraryTree := rfl
  rw [htold, ofSnapshot_libraryNeeds]
  rfl

theorem exists_resolution_libraryNeeds : ∃ res : Resolution,
    libraryNeeds.resolveDependencies (resolveOptions {} detourArguments.graph)
        Merge.strayCaller.coordinate none true = .ok res ∧
      res.coordinates = [library.coordinate] := by
  have hcoordinates : (libraryNeeds.resolveDependencies (resolveOptions {} detourArguments.graph)
      Merge.strayCaller.coordinate none true).toOption.map Resolution.coordinates =
        some [library.coordinate] := by decide +kernel
  cases hquery : libraryNeeds.resolveDependencies (resolveOptions {} detourArguments.graph)
      Merge.strayCaller.coordinate none true with
  | error e =>
    rw [hquery] at hcoordinates
    cases hcoordinates
  | ok res =>
    rw [hquery] at hcoordinates
    exact ⟨res, rfl, Option.some.inj hcoordinates⟩

theorem exists_mergeSteps_libraryTree : ∃ merged,
    MergeSteps {} detourArguments libraryTree {} (.file ⟨"base.json"⟩) Merge.strayCaller
      (some libraryNeeds) [] merged := by
  obtain ⟨merged, hmerge, -⟩ := Merge.exists_merge_ok {} Merge.strayCaller []
  obtain ⟨res, hquery, hcoordinates⟩ := exists_resolution_libraryNeeds
  have hread : libraryTree.read ⟨"base.json"⟩ = .ok (Text.Utf8.bytes Merge.strayCaller.text) := rfl
  have hload : FileTree.outcome ((mergeRepository {} detourArguments).loadAvailable
      res.coordinates) libraryTree = (.ok ([], [library.coordinate]), libraryTree) := by
    rw [hcoordinates]
    rfl
  exact ⟨merged, rfl, rfl, Repository.outcome_readFile hread ⟨by decide, by decide⟩,
    outcome_openGraph_libraryTree, .resolved hquery hload, hmerge⟩

theorem exists_analysisSteps_libraryTree : ∃ t' merged,
    AnalysisSteps {} detourArguments (some ⟨"store"⟩) libraryTree t' {} (.file ⟨"base.json"⟩)
      Merge.strayCaller (some libraryNeeds) [library] merged := by
  obtain ⟨merged, hmerge, -⟩ := Merge.exists_merge_ok {} Merge.strayCaller [library]
  obtain ⟨res, hquery, hcoordinates⟩ := exists_resolution_libraryNeeds
  let t' := libraryTree.setEntry ["store"] .folder
  have hread : t'.read ⟨"base.json"⟩ = .ok (Text.Utf8.bytes Merge.strayCaller.text) := rfl
  have hfile : t'.read ((mergeRepository {} detourArguments).pathOf library.coordinate) =
      .ok (Text.Utf8.bytes library.text) := rfl
  have hlibrary : FileTree.outcome ((mergeRepository {} detourArguments).load
      library.coordinate) t' = (.ok library, t') :=
    (Repository.outcome_load_eq _ _ _).trans
      (Repository.outcome_readFile hfile ⟨by decide, by decide⟩)
  have hload : FileTree.outcome ((mergeRepository {} detourArguments).loadAvailable
      res.coordinates) t' = (.ok ([library], []), t') := by
    rw [hcoordinates, Repository.loadAvailable]
    exact FileTree.outcome_bind_ok (FileTree.outcome_lift hlibrary)
  exact ⟨t', merged, rfl, rfl, outcome_openGraph_libraryTree, rfl, rfl,
    Repository.outcome_readFile hread ⟨by decide, by decide⟩, .resolved hquery hload, hmerge⟩

/-- A merge may succeed where the store cannot have a file of that name.  And the folder that
is made for a store can bring a dependency within reach, so that another graph is stored than
the merge prints. -/
theorem analyse_differs_from_merge :
    (∃ printed e line t'',
      (fileTree longNamed).list ⟨"store"⟩ = .ok [] ∧
      outcome (Command.run {} (.merge fileArguments)) "" (fileTree longNamed) =
        ((.ok (), printed), fileTree longNamed) ∧
      outcome (Command.run {} (.analyse (analysisOf fileArguments (some ⟨"store"⟩)))) ""
        (fileTree longNamed) = ((.error e, line), t'')) ∧
    ∃ merged stored line t'',
      libraryTree.find ⟨"store"⟩ = .error .notFound ∧
      outcome (Command.run {} (.merge detourArguments)) "" libraryTree =
        ((.ok (), mergeDocument detourArguments merged ++ "\n"), libraryTree) ∧
      outcome (Command.run {} (.analyse (analysisOf detourArguments (some ⟨"store"⟩)))) ""
        libraryTree = ((.ok (), line), t'') ∧
      FileTree.outcome (DirectoryStore.get ⟨⟨"store"⟩⟩ Merge.strayCaller.coordinate) t'' =
        (.ok stored, t'') ∧
      stored ≠ merged.graph := by
  constructor
  · obtain ⟨merged, hsteps⟩ := exists_mergeSteps_fileTree (g := longNamed)
      ⟨by decide +kernel, by decide +kernel⟩
    have hlong : ¬DirectoryStore.HasShortNames longNamed.coordinate := by decide +kernel
    rcases (hsteps.analysisSteps rfl (opensEmpty_fileTree _)).outcome_analyse_cases with
      ⟨-, e, line, t'', hrun⟩ | ⟨hshort, -⟩
    · exact ⟨_, e, line, t'', list_fileTree _, (hsteps.outcome_mergeGraphs rfl).trans
        (outcome_write_none _ _), hrun⟩
    · exact absurd hshort hlong
  · obtain ⟨merged, hsteps⟩ := exists_mergeSteps_libraryTree
    obtain ⟨t', stored, hanalysis⟩ := exists_analysisSteps_libraryTree
    have hshort : DirectoryStore.HasShortNames Merge.strayCaller.coordinate := by decide +kernel
    -- The library's method is a node of the stored graph only.
    have hstored : ∀ m ∈ (merge {} Merge.strayCaller [library]).toOption,
        m.graph.Fits ∧ m.graph.nodeCount = 3 := by decide +kernel
    have hprinted : ∀ m ∈ (merge {} Merge.strayCaller []).toOption, m.graph.nodeCount = 2 := by
      decide +kernel
    obtain ⟨hfits, hthree⟩ := hstored stored (by rw [hanalysis.merges]; rfl)
    have htwo := hprinted merged
      (by rw [show merge {} Merge.strayCaller [] = .ok merged from hsteps.merges]; rfl)
    rcases hanalysis.outcome_analyse_cases with ⟨hlong, -⟩ | ⟨-, line, t'', hrun, hget⟩
    · exact absurd hshort hlong
    · refine ⟨merged, stored.graph, line, t'', rfl, (hsteps.outcome_mergeGraphs rfl).trans
        (outcome_write_none _ _), hrun, hget hfits, fun heq => ?_⟩
      rw [heq, htwo] at hthree
      cases hthree

end Session

end Stitch
