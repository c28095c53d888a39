/-
Runs of the analysis pipeline.

`Handles` says what becomes of one request, by what the repository has (`RepositoryContent`)
and by the graphs that the store has at that moment.  Its cases are those of `process` and
`analyse`, in their order: each ends the request, and only the last one stores a graph.
`Serves` are the pipelines that this is said of: their repository does not change, and their
store is a map that only grows.

* `Serves.exists_handles`: every request is handled.
* `Handles.stores_or_keeps` is the step of a run: a request either leaves the store as it is
  or adds a graph for a revision that had none.
* **`Serves.run_fills_store`** is what comes of a whole run.
* `Shelf.serves_pipeline`: a pipeline from any files to a list of graphs is one of these.
-/
import Stitch.Analysis.Pipeline
import Stitch.Proofs.CallGraph.Partial
import Stitch.Proofs.Dependency.Levels
import Stitch.Proofs.Files.Program
import Stitch.Proofs.Merge.Assembly
import Stitch.Proofs.Store.Calls

namespace Stitch

/-! ### Content of a repository -/

/-- The partial graph of every input, or why there is none. -/
abbrev RepositoryContent := GraphInput → Except StoreError PartialGraph

namespace RepositoryContent

variable {content : RepositoryContent} {c : Coordinate} {cs missing : List Coordinate}
  {g : PartialGraph} {found : List PartialGraph}

def graph? (content : RepositoryContent) (c : Coordinate) : Option PartialGraph :=
  (content (.coordinate c)).toOption

/-- Whether there is no graph of a coordinate, not even one that cannot be read. -/
def lacks (content : RepositoryContent) (c : Coordinate) : Bool :=
  match content (.coordinate c) with
  | .error (.notFound _) => true
  | _ => false

/-- What is loaded for coordinates: the graphs that there are and the coordinates that have
none, or the error of a graph that cannot be read. -/
inductive Loads (content : RepositoryContent) (cs : List Coordinate) :
    Except StoreError (List PartialGraph × List Coordinate) → Prop
  | available (h : ∀ c ∈ cs, (content.graph? c).isSome ∨ content.lacks c) :
    Loads content cs (.ok (cs.filterMap content.graph?, cs.filter content.lacks))
  | unreadable {c : Coordinate} {e : StoreError} (hc : c ∈ cs)
    (h : content (.coordinate c) = .error e) (hlacks : content.lacks c = false) :
    Loads content cs (.error e)

theorem Loads.cons_graph (hg : content (.coordinate c) = .ok g)
    (h : content.Loads cs (.ok (found, missing))) :
    content.Loads (c :: cs) (.ok (g :: found, missing)) := by
  have hgraph : content.graph? c = some g := by rw [graph?, hg]; rfl
  have hlacks : content.lacks c = false := by rw [lacks, hg]
  cases h with
  | available h =>
    rw [← List.filterMap_cons_some hgraph,
      ← List.filter_cons_of_neg (p := content.lacks) (a := c) (by simp [hlacks])]
    exact .available (List.forall_mem_cons.2 ⟨.inl (Option.isSome_of_eq_some hgraph), h⟩)

theorem Loads.cons_missing {subject : String}
    (hc : content (.coordinate c) = .error (.notFound subject))
    (h : content.Loads cs (.ok (found, missing))) :
    content.Loads (c :: cs) (.ok (found, c :: missing)) := by
  have hgraph : content.graph? c = none := by rw [graph?, hc]; rfl
  have hlacks : content.lacks c = true := by rw [lacks, hc]
  cases h with
  | available h =>
    rw [← List.filterMap_cons_none hgraph, ← List.filter_cons_of_pos hlacks]
    exact .available (List.forall_mem_cons.2 ⟨.inr hlacks, h⟩)

theorem Loads.cons_error {e : StoreError} (h : content.Loads cs (.error e)) :
    content.Loads (c :: cs) (.error e) := by
  cases h with
  | unreadable hc h hlacks => exact .unreadable (List.mem_cons_of_mem _ hc) h hlacks

end RepositoryContent

/-- The coordinate whose graph an outcome stored. -/
def AnalysisOutcome.storedAt? (o : AnalysisOutcome) : Option Coordinate :=
  if o.status.isStored then o.coordinate else none

namespace AnalysisPipeline

/-! ### What becomes of a request -/

section Handling

variable {m : Type → Type}

/-- The dependencies that a revision is merged with, and what is said of them: what its query
comes to, and none for a revision that the dependency graph does not know. -/
inductive HasDependencies (p : AnalysisPipeline m) (c : Coordinate) (asOf : Option Int) :
    List Coordinate → List Degradation → Prop
  | known {res : Resolution}
    (h : p.graph.resolveDependencies p.resolveOptions c asOf true = .ok res) :
    HasDependencies p c asOf res.coordinates res.degraded
  | unknown (h : p.graph.revision? c = none) :
    HasDependencies p c asOf [] [⟨.missingRevision, c.text,
      "revision unknown to the dependency graph, no dependencies merged"⟩]

/-- The outcome of a request for a store with some graphs, and the graphs after it. -/
inductive Handles (p : AnalysisPipeline m) (content : RepositoryContent)
    (stored : Coordinate → Option MergedGraph) (r : AnalysisRequest) :
    AnalysisOutcome → (Coordinate → Option MergedGraph) → Prop
  | unread {e : StoreError} (hbase : content r.input = .error e) :
    Handles p content stored r ⟨r.id, r.input.text, none,
      .failed (e.failure.within s!"loading partial call graph of {r.input.text}")⟩ stored
  | held {base : PartialGraph} (hbase : content r.input = .ok base)
    (hheld : (stored base.coordinate).isSome) :
    Handles p content stored r ⟨r.id, r.input.text, some base.coordinate, .alreadyStored⟩ stored
  | unresolved {base : PartialGraph} {e : ResolveError} (hbase : content r.input = .ok base)
    (hnew : stored base.coordinate = none) (hknown : (p.graph.revision? base.coordinate).isSome)
    (hquery : p.graph.resolveDependencies p.resolveOptions base.coordinate r.asOf true =
      .error e) :
    Handles p content stored r
      ⟨r.id, r.input.text, some base.coordinate, .failed (.ofMessage e.message)⟩ stored
  | unavailable {base : PartialGraph} {dependencies : List Coordinate}
    {degraded : List Degradation} {e : StoreError} (hbase : content r.input = .ok base)
    (hnew : stored base.coordinate = none)
    (hdependencies : p.HasDependencies base.coordinate r.asOf dependencies degraded)
    (hloads : content.Loads dependencies (.error e)) :
    Handles p content stored r ⟨r.id, r.input.text, some base.coordinate,
      .failed (e.failure.within "loading dependency call graphs")⟩ stored
  | merged {base : PartialGraph} {dependencies missing : List Coordinate}
    {degraded : List Degradation} {found : List PartialGraph} {result : Merged}
    (hbase : content r.input = .ok base) (hnew : stored base.coordinate = none)
    (hdependencies : p.HasDependencies base.coordinate r.asOf dependencies degraded)
    (hloads : content.Loads dependencies (.ok (found, missing)))
    (hmerge : merge p.mergeOptions base found = .ok result) :
    Handles p content stored r ⟨r.id, r.input.text, some base.coordinate,
        .stored result.report missing degraded⟩
      ((StoreCall.put base.coordinate result.graph).after stored)

variable {p : AnalysisPipeline m} {c : Coordinate} {asOf : Option Int}

theorem hasDependencies_of_eq_ok {dependencies : List Coordinate} {degraded : List Degradation}
    (h : p.dependencies c asOf = .ok (dependencies, degraded)) :
    p.HasDependencies c asOf dependencies degraded := by
  rw [AnalysisPipeline.dependencies] at h
  split at h
  next res hres =>
    cases h
    exact .known hres
  next hunknown =>
    cases h
    cases hr : p.graph.revision? c with
    | none => exact .unknown hr
    | some r =>
      obtain ⟨_, _, heq⟩ := DependencyGraph.exists_missing_of_resolveDependencies hr hunknown
      cases heq
  next => cases h

/-- Only the query of a known revision can fail. -/
theorem isSome_revision?_of_dependencies_eq_error {e : ResolveError}
    (h : p.dependencies c asOf = .error e) : (p.graph.revision? c).isSome ∧
      p.graph.resolveDependencies p.resolveOptions c asOf true = .error e := by
  rw [AnalysisPipeline.dependencies] at h
  split at h
  next => cases h
  next => cases h
  next e' hne hquery =>
    cases h
    refine ⟨?_, hquery⟩
    cases hr : p.graph.revision? c with
    | none =>
      rw [DependencyGraph.resolveDependencies_of_revision?_eq_none hr] at hquery
      cases hquery
      exact absurd rfl (hne c)
    | some r => rfl

end Handling

/-! ### The steps of a request -/

section Steps

variable {σ : Type} {p : AnalysisPipeline (StateM σ)} {r : AnalysisRequest} {base : PartialGraph}
  {asOf : Option Int} {dependencies missing : List Coordinate} {degraded : List Degradation}
  {found : List PartialGraph} {result : Merged} {s s₁ s₂ s₃ : σ}

theorem run_told {ε α : Type} (tell : ε → Failure) (x : Except ε α) (s : σ) :
    (Failure.told tell x : ExceptT Failure (StateM σ) α).run.run s = (x.mapError tell, s) := rfl

/-- Work of a store or a repository, as part of something larger. -/
theorem run_during {α : Type} (message : String) {x : ExceptT StoreError (StateM σ) α}
    {result : Except StoreError α} (h : x.run.run s = (result, s₁)) :
    (Failure.during message (Failure.telling StoreError.failure x)).run.run s =
      (result.mapError fun e => e.failure.within message, s₁) := by
  rw [Failure.during, Failure.telling, run_adapt _ (run_adapt _ h)]
  cases result <;> rfl

theorem run_analyse_of_contains
    (hcontains : (p.store.contains base.coordinate).run.run s = (.ok true, s₁)) :
    (p.analyse base asOf).run.run s = (.ok .alreadyStored, s₁) := by
  rw [analyse, run_bind_ok (run_during _ hcontains)]
  rfl

theorem run_analyse_of_dependencies_error {e : ResolveError}
    (hcontains : (p.store.contains base.coordinate).run.run s = (.ok false, s₁))
    (hdependencies : p.dependencies base.coordinate asOf = .error e) :
    (p.analyse base asOf).run.run s = (.error (.ofMessage e.message), s₁) := by
  rw [analyse, run_bind_ok (run_during _ hcontains), hdependencies]
  exact run_bind_error (run_told _ _ s₁)

theorem run_analyse_of_loadAvailable_error {e : StoreError}
    (hcontains : (p.store.contains base.coordinate).run.run s = (.ok false, s₁))
    (hdependencies : p.dependencies base.coordinate asOf = .ok (dependencies, degraded))
    (hload : (p.loadAvailable dependencies).run.run s₁ = (.error e, s₂)) :
    (p.analyse base asOf).run.run s =
      (.error (e.failure.within "loading dependency call graphs"), s₂) := by
  rw [analyse, run_bind_ok (run_during _ hcontains), hdependencies]
  exact (run_bind_ok (run_told _ _ s₁)).trans (run_bind_error (run_during _ hload))

theorem run_analyse_of_put
    (hcontains : (p.store.contains base.coordinate).run.run s = (.ok false, s₁))
    (hdependencies : p.dependencies base.coordinate asOf = .ok (dependencies, degraded))
    (hload : (p.loadAvailable dependencies).run.run s₁ = (.ok (found, missing), s₂))
    (hmerge : merge p.mergeOptions base found = .ok result)
    (hput : (p.store.put base.coordinate result.graph).run.run s₂ = (.ok (), s₃)) :
    (p.analyse base asOf).run.run s = (.ok (.stored result.report missing degraded), s₃) := by
  rw [analyse, run_bind_ok (run_during _ hcontains), hdependencies]
  refine (run_bind_ok (run_told _ _ s₁)).trans ((run_bind_ok (run_during _ hload)).trans ?_)
  dsimp only
  rw [hmerge]
  exact (run_bind_ok (run_told _ _ s₂)).trans (run_bind_ok (run_during _ hput))

theorem run_analyse_of_put_error {e : StoreError}
    (hcontains : (p.store.contains base.coordinate).run.run s = (.ok false, s₁))
    (hdependencies : p.dependencies base.coordinate asOf = .ok (dependencies, degraded))
    (hload : (p.loadAvailable dependencies).run.run s₁ = (.ok (found, missing), s₂))
    (hmerge : merge p.mergeOptions base found = .ok result)
    (hput : (p.store.put base.coordinate result.graph).run.run s₂ = (.error e, s₃)) :
    (p.analyse base asOf).run.run s =
      (.error (e.failure.within s!"storing merged graph of {base.coordinate.text}"), s₃) := by
  rw [analyse, run_bind_ok (run_during _ hcontains), hdependencies]
  refine (run_bind_ok (run_told _ _ s₁)).trans ((run_bind_ok (run_during _ hload)).trans ?_)
  dsimp only
  rw [hmerge]
  exact (run_bind_ok (run_told _ _ s₂)).trans (run_bind_error (run_during _ hput))

theorem run_process_of_load_error {e : StoreError}
    (hload : (p.load r.input).run.run s = (.error e, s₁)) :
    (p.process r).run s = (⟨r.id, r.input.text, none,
      .failed (e.failure.within s!"loading partial call graph of {r.input.text}")⟩, s₁) := by
  rw [process, run_bind hload]
  rfl

theorem run_process_of_analyse_ok {status : AnalysisStatus}
    (hload : (p.load r.input).run.run s = (.ok base, s₁))
    (hanalyse : (p.analyse base r.asOf).run.run s₁ = (.ok status, s₂)) :
    (p.process r).run s = (⟨r.id, r.input.text, some base.coordinate, status⟩, s₂) := by
  rw [process, run_bind hload]
  exact run_bind hanalyse

theorem run_process_of_analyse_error {failure : Failure}
    (hload : (p.load r.input).run.run s = (.ok base, s₁))
    (hanalyse : (p.analyse base r.asOf).run.run s₁ = (.error failure, s₂)) :
    (p.process r).run s =
      (⟨r.id, r.input.text, some base.coordinate, .failed failure⟩, s₂) := by
  rw [process, run_bind hload]
  exact run_bind hanalyse

end Steps

/-! ### A store that only grows -/

section Serves

variable {σ : Type} [FileSystem (StateM σ)]

/-- A pipeline whose repository has a fixed content, and whose store is a map that only
grows: `graphs` is what the store has in a state.  The states that come up are `IsSound`. -/
structure Serves (p : AnalysisPipeline (StateM σ)) (repository : Repository)
    (content : RepositoryContent) (IsSound : σ → Prop)
    (graphs : σ → Coordinate → Option MergedGraph) : Prop where
  eq_ofRepository :
    p = .ofRepository repository p.graph p.resolveOptions p.mergeOptions p.store
  load {s : σ} (hs : IsSound s) (input : GraphInput) :
    ∃ s', (p.load input).run.run s = (content input, s') ∧ IsSound s' ∧ graphs s' = graphs s
  contains {s : σ} (hs : IsSound s) (c : Coordinate) :
    ∃ s', (p.store.contains c).run.run s = (.ok (graphs s c).isSome, s') ∧ IsSound s' ∧
      graphs s' = graphs s
  put {s : σ} (hs : IsSound s) (c : Coordinate) (g : MergedGraph) :
    ∃ s', (p.store.put c g).run.run s =
        (if (graphs s c).isSome then .error (.alreadyStored c.text) else .ok (), s') ∧
      IsSound s' ∧ graphs s' = (StoreCall.put c g).after (graphs s)

variable {p : AnalysisPipeline (StateM σ)} {repository : Repository}
  {content : RepositoryContent} {IsSound : σ → Prop} {graphs : σ → Coordinate → Option MergedGraph}
  {s : σ}

theorem Serves.exists_loads (h : p.Serves repository content IsSound graphs) (hs : IsSound s)
    (cs : List Coordinate) : ∃ loaded s', (p.loadAvailable cs).run.run s = (loaded, s') ∧
      content.Loads cs loaded ∧ IsSound s' ∧ graphs s' = graphs s := by
  have hload : p.load = repository.loadInput := by rw [h.eq_ofRepository]; rfl
  have hloadAvailable : p.loadAvailable = repository.loadAvailable := by
    rw [h.eq_ofRepository]; rfl
  induction cs generalizing s with
  | nil =>
    rw [hloadAvailable]
    exact ⟨_, s, rfl, .available (fun _ hc => by cases hc), hs, rfl⟩
  | cons c cs ih =>
    obtain ⟨s₁, hload₁, hs₁, hgraphs₁⟩ := h.load hs (.coordinate c)
    obtain ⟨loaded, s₂, hrest, hloads, hs₂, hgraphs₂⟩ := ih hs₁
    have hgraphs := hgraphs₂.trans hgraphs₁
    rw [hload, Repository.loadInput] at hload₁
    rw [hloadAvailable] at hrest ⊢
    rw [Repository.loadAvailable, run_bind_ok (run_lift hload₁)]
    dsimp only
    split
    next g hc =>
      cases loaded with
      | ok found =>
        rw [run_bind_ok hrest]
        exact ⟨_, s₂, rfl, hloads.cons_graph hc, hs₂, hgraphs⟩
      | error e => exact ⟨_, s₂, run_bind_error hrest, hloads.cons_error, hs₂, hgraphs⟩
    next subject hc =>
      cases loaded with
      | ok found =>
        rw [run_bind_ok hrest]
        exact ⟨_, s₂, rfl, hloads.cons_missing hc, hs₂, hgraphs⟩
      | error e => exact ⟨_, s₂, run_bind_error hrest, hloads.cons_error, hs₂, hgraphs⟩
    next e hne hc =>
      refine ⟨_, s₁, rfl, .unreadable List.mem_cons_self hc ?_, hs₁, hgraphs₁⟩
      rw [RepositoryContent.lacks, hc]
      split
      next subject heq =>
        cases heq
        exact absurd rfl (hne subject)
      next => rfl

/-- Every request is handled. -/
theorem Serves.exists_handles (h : p.Serves repository content IsSound graphs) (hs : IsSound s)
    (r : AnalysisRequest) : ∃ o s', (p.process r).run s = (o, s') ∧
      p.Handles content (graphs s) r o (graphs s') ∧ IsSound s' := by
  obtain ⟨s₁, hload, hs₁, hgraphs₁⟩ := h.load hs r.input
  cases hbase : content r.input with
  | error e =>
    rw [hbase] at hload
    exact ⟨_, s₁, run_process_of_load_error hload, hgraphs₁ ▸ .unread hbase, hs₁⟩
  | ok base =>
    rw [hbase] at hload
    obtain ⟨s₂, hcontains, hs₂, hgraphs₂⟩ := h.contains hs₁ base.coordinate
    rw [hgraphs₁] at hcontains hgraphs₂
    cases hstored : graphs s base.coordinate with
    | some g =>
      rw [hstored] at hcontains
      refine ⟨_, s₂, run_process_of_analyse_ok hload (run_analyse_of_contains hcontains), ?_, hs₂⟩
      rw [hgraphs₂]
      exact .held hbase (Option.isSome_of_eq_some hstored)
    | none =>
      rw [hstored] at hcontains
      cases hdependencies : p.dependencies base.coordinate r.asOf with
      | error e =>
        obtain ⟨hknown, hquery⟩ := isSome_revision?_of_dependencies_eq_error hdependencies
        refine ⟨_, s₂, run_process_of_analyse_error hload
          (run_analyse_of_dependencies_error hcontains hdependencies), ?_, hs₂⟩
        rw [hgraphs₂]
        exact .unresolved hbase hstored hknown hquery
      | ok resolved =>
        obtain ⟨dependencies, degraded⟩ := resolved
        have hhas := hasDependencies_of_eq_ok hdependencies
        obtain ⟨loaded, s₃, hloaded, hloads, hs₃, hgraphs₃⟩ := h.exists_loads hs₂ dependencies
        rw [hgraphs₂] at hgraphs₃
        cases loaded with
        | error e =>
          refine ⟨_, s₃, run_process_of_analyse_error hload
            (run_analyse_of_loadAvailable_error hcontains hdependencies hloaded), ?_, hs₃⟩
          rw [hgraphs₃]
          exact .unavailable hbase hstored hhas hloads
        | ok loaded =>
          obtain ⟨found, missing⟩ := loaded
          obtain ⟨result, hmerge, -⟩ := Merge.exists_merge_ok p.mergeOptions base found
          obtain ⟨s₄, hput, hs₄, hgraphs₄⟩ := h.put hs₃ base.coordinate result.graph
          rw [hgraphs₃] at hput hgraphs₄
          rw [hstored] at hput
          refine ⟨_, s₄, run_process_of_analyse_ok hload
            (run_analyse_of_put hcontains hdependencies hloaded hmerge hput), ?_, hs₄⟩
          rw [hgraphs₄]
          exact .merged hbase hstored hhas hloads hmerge

end Serves

/-! ### Runs -/

section Runs

variable {m : Type → Type} {p : AnalysisPipeline m} {content : RepositoryContent}
  {stored next final : Coordinate → Option MergedGraph} {r : AnalysisRequest} {o : AnalysisOutcome}
  {outcomes : List AnalysisOutcome}

theorem Handles.id_eq (h : p.Handles content stored r o next) : o.id = r.id := by
  cases h <;> rfl

theorem Handles.alreadyStored_iff (h : p.Handles content stored r o next) :
    o.status = .alreadyStored ↔
      ∃ base, content r.input = .ok base ∧ (stored base.coordinate).isSome := by
  have hnot {base : PartialGraph} (hbase : content r.input = .ok base)
      (hnew : stored base.coordinate = none) :
      ¬∃ base, content r.input = .ok base ∧ (stored base.coordinate).isSome := by
    rintro ⟨base', hbase', hheld⟩
    cases hbase.symm.trans hbase'
    simp [hnew] at hheld
  cases h with
  | unread hbase => simp [hbase]
  | held hbase hheld => exact iff_of_true rfl ⟨_, hbase, hheld⟩
  | unresolved hbase hnew => exact iff_of_false nofun (hnot hbase hnew)
  | unavailable hbase hnew => exact iff_of_false nofun (hnot hbase hnew)
  | merged hbase hnew => exact iff_of_false nofun (hnot hbase hnew)

theorem Handles.eq_of_isFailed (h : p.Handles content stored r o next)
    (hfailed : o.status.isFailed) : next = stored := by
  cases h with
  | unread | held | unresolved | unavailable => rfl
  | merged => cases hfailed

/-- The coordinates whose graphs some outcomes stored, in their order. -/
def storedCoordinates (outcomes : List AnalysisOutcome) : List Coordinate :=
  outcomes.filterMap AnalysisOutcome.storedAt?

/-- A request adds a graph where there was none, or leaves all as it is. -/
theorem Handles.stores_or_keeps (h : p.Handles content stored r o next) :
    o.storedAt? = none ∧ next = stored ∨
      ∃ c g, o.storedAt? = some c ∧ stored c = none ∧ next = (StoreCall.put c g).after stored := by
  cases h with
  | unread | held | unresolved | unavailable => exact .inl ⟨rfl, rfl⟩
  | merged hbase hnew => exact .inr ⟨_, _, rfl, hnew, rfl⟩

/-- A graph is stored only as the merge of what was loaded for the request. -/
theorem Handles.exists_merge {report : MergeReport} {missing : List Coordinate}
    {degraded : List Degradation} (h : p.Handles content stored r o next)
    (ho : o.status = .stored report missing degraded) :
    ∃ base dependencies merged, content r.input = .ok base ∧
      p.HasDependencies base.coordinate r.asOf dependencies degraded ∧
      merge p.mergeOptions base (dependencies.filterMap content.graph?) = .ok merged ∧
      report = merged.report ∧ missing = dependencies.filter content.lacks ∧
      next base.coordinate = some merged.graph := by
  cases h with
  | unread | held | unresolved | unavailable => cases ho
  | merged hbase hnew hdependencies hloads hmerge =>
    cases ho
    cases hloads with
    | available =>
      exact ⟨_, _, _, hbase, hdependencies, hmerge, rfl, rfl, StoreCall.after_put_self hnew⟩

/-- What a store has after some outcomes: what it had before, and a graph for each outcome that
stored one. -/
structure Fills (stored : Coordinate → Option MergedGraph) (outcomes : List AnalysisOutcome)
    (final : Coordinate → Option MergedGraph) : Prop where
  nodup : (storedCoordinates outcomes).Nodup
  new : ∀ c ∈ storedCoordinates outcomes, stored c = none
  isSome_iff : ∀ c, (final c).isSome ↔ (stored c).isSome ∨ c ∈ storedCoordinates outcomes
  kept : ∀ c g, stored c = some g → final c = some g

theorem fills_nil : Fills stored [] stored where
  nodup := List.nodup_nil
  new _ hc := by cases hc
  isSome_iff c := by simp [storedCoordinates]
  kept _ _ h := h

theorem Fills.cons (hstep : p.Handles content stored r o next) (h : Fills next outcomes final) :
    Fills stored (o :: outcomes) final := by
  rcases hstep.stores_or_keeps with ⟨ho, rfl⟩ | ⟨c, g, ho, hnew, rfl⟩
  · have hsame : storedCoordinates (o :: outcomes) = storedCoordinates outcomes :=
      List.filterMap_cons_none ho
    exact ⟨hsame ▸ h.nodup, hsame ▸ h.new, hsame ▸ h.isSome_iff, h.kept⟩
  · have hcons : storedCoordinates (o :: outcomes) = c :: storedCoordinates outcomes :=
      List.filterMap_cons_some ho
    have hself : (StoreCall.put c g).after stored c = some g := StoreCall.after_put_self hnew
    refine ⟨?_, ?_, fun c' => ?_, fun c' g' hc' => h.kept c' g' (StoreCall.after_eq_some hc')⟩
    · rw [hcons, List.nodup_cons]
      refine ⟨fun hc => ?_, h.nodup⟩
      rw [h.new c hc] at hself
      cases hself
    · rw [hcons]
      refine List.forall_mem_cons.2 ⟨hnew, fun c' hc' => ?_⟩
      have hnone := h.new c' hc'
      rw [StoreCall.after, Option.or_eq_none_iff] at hnone
      exact hnone.1
    · rw [h.isSome_iff, StoreCall.isSome_after_put_iff, hcons, List.mem_cons, or_assoc]

end Runs

section Run

variable {σ : Type} [FileSystem (StateM σ)] {p : AnalysisPipeline (StateM σ)}
  {repository : Repository} {content : RepositoryContent} {IsSound : σ → Prop}
  {graphs : σ → Coordinate → Option MergedGraph} {s s₁ s₂ : σ}

omit [FileSystem (StateM σ)] in
theorem run_cons {r : AnalysisRequest} {o : AnalysisOutcome} {requests : List AnalysisRequest}
    {outcomes : List AnalysisOutcome} (hstep : (p.process r).run s = (o, s₁))
    (hrest : (p.run requests).run s₁ = (outcomes, s₂)) :
    (p.run (r :: requests)).run s = (o :: outcomes, s₂) := by
  rw [run] at hrest
  rw [run, List.mapM_cons, run_bind hstep, run_bind hrest]
  rfl

omit [FileSystem (StateM σ)] in
theorem run_singleton {r : AnalysisRequest} {o : AnalysisOutcome}
    (h : (p.process r).run s = (o, s₁)) : (p.run [r]).run s = ([o], s₁) :=
  run_cons h rfl

omit [FileSystem (StateM σ)] in
theorem run_append {earlier later : List AnalysisRequest}
    {outcomes outcomes' : List AnalysisOutcome} (hearlier : (p.run earlier).run s = (outcomes, s₁))
    (hlater : (p.run later).run s₁ = (outcomes', s₂)) :
    (p.run (earlier ++ later)).run s = (outcomes ++ outcomes', s₂) := by
  rw [run] at hearlier hlater
  rw [run, List.mapM_append, run_bind hearlier, run_bind hlater]
  rfl

/-- Requests fill the store one after the other. -/
theorem Serves.exists_run (h : p.Serves repository content IsSound graphs) (hs : IsSound s)
    (requests : List AnalysisRequest) : ∃ outcomes last, (p.run requests).run s = (outcomes, last) ∧
      outcomes.map (·.id) = requests.map (·.id) ∧ Fills (graphs s) outcomes (graphs last) ∧
      IsSound last := by
  induction requests generalizing s with
  | nil => exact ⟨[], s, rfl, rfl, fills_nil, hs⟩
  | cons r requests ih =>
    obtain ⟨o, s₁, hstep, hhandles, hs₁⟩ := h.exists_handles hs r
    obtain ⟨outcomes, last, hrun, hids, hfills, hlast⟩ := ih hs₁
    refine ⟨o :: outcomes, last, run_cons hstep hrun, ?_, hfills.cons hhandles, hlast⟩
    rw [List.map_cons, List.map_cons, hhandles.id_eq, hids]

/-- **A run fills the store.**  Every request has one outcome, and the store has in the end
what it had in the beginning and a graph for each outcome that stored one; no graph is stored
twice for a coordinate, and none takes the place of another.

Each request is handled by what the store has at that moment. -/
theorem Serves.run_fills_store (h : p.Serves repository content IsSound graphs)
    (hs : IsSound s) (requests : List AnalysisRequest) :
    ∃ outcomes last, (p.run requests).run s = (outcomes, last) ∧
      outcomes.map (·.id) = requests.map (·.id) ∧ Fills (graphs s) outcomes (graphs last) ∧
      ∀ earlier r later, requests = earlier ++ r :: later →
        ∃ before o after, (p.run earlier).run s = (outcomes.take earlier.length, before) ∧
          (p.process r).run before = (o, after) ∧ outcomes[earlier.length]? = some o ∧
          p.Handles content (graphs before) r o (graphs after) ∧
          (o.status = .alreadyStored ↔
            ∃ base, content r.input = .ok base ∧ (graphs before base.coordinate).isSome) ∧
          (o.status.isFailed → graphs after = graphs before) ∧
          ∀ report missing degraded, o.status = .stored report missing degraded →
            ∃ base dependencies merged, content r.input = .ok base ∧
              p.HasDependencies base.coordinate r.asOf dependencies degraded ∧
              merge p.mergeOptions base (dependencies.filterMap content.graph?) = .ok merged ∧
              report = merged.report ∧ missing = dependencies.filter content.lacks ∧
              graphs last base.coordinate = some merged.graph := by
  obtain ⟨outcomes, last, hrun, hids, hfills, -⟩ := h.exists_run hs requests
  refine ⟨outcomes, last, hrun, hids, hfills, ?_⟩
  rintro earlier r later rfl
  obtain ⟨outcomes₁, before, hearlier, hids₁, -, hbefore⟩ := h.exists_run hs earlier
  obtain ⟨o, after, hstep, hhandles, hafter⟩ := h.exists_handles hbefore r
  obtain ⟨outcomes₂, last', hlater, -, hfills₂, -⟩ := h.exists_run hafter later
  -- The run in three parts is the whole run.
  have hwhole := run_append hearlier (run_cons hstep hlater)
  rw [hrun] at hwhole
  cases hwhole
  have hlength : earlier.length = outcomes₁.length := by
    simpa using (congrArg List.length hids₁).symm
  refine ⟨before, o, after, ?_, hstep, ?_, hhandles, hhandles.alreadyStored_iff,
    hhandles.eq_of_isFailed, fun report missing degraded ho => ?_⟩
  · rw [hlength, List.take_left, hearlier]
  · rw [hlength, List.getElem?_append_right (Nat.le_refl _), Nat.sub_self]
    rfl
  · obtain ⟨base, dependencies, merged, hbase, hdependencies, hmerge, hreport, hmissing, hgraph⟩ :=
      hhandles.exists_merge ho
    exact ⟨base, dependencies, merged, hbase, hdependencies, hmerge, hreport, hmissing,
      hfills₂.kept _ _ hgraph⟩

end Run

end AnalysisPipeline

/-! ### A shelf beside files -/

/-- Files, and graphs with their coordinates in the order in which they came. -/
structure Shelf where
  files : FileTree
  entries : List (Coordinate × MergedGraph) := []

namespace Shelf

/-- The graph of a coordinate. -/
def graphs (s : Shelf) (c : Coordinate) : Option MergedGraph :=
  (s.entries.find? fun e => e.1 = c).map (·.2)

/-- The shelf as a store. -/
def store : GraphStore (StateM Shelf) where
  put c g := ExceptT.mk fun s =>
    if (s.graphs c).isSome then (.error (.alreadyStored c.text), s)
    else (.ok (), { s with entries := s.entries ++ [(c, g)] })
  get c := ExceptT.mk fun s => ((s.graphs c).elim (.error (.notFound c.text)) .ok, s)
  contains c := ExceptT.mk fun s => (.ok (s.graphs c).isSome, s)
  list := ExceptT.mk fun s =>
    (.ok (StoredGraph.sorted (s.entries.map fun e => .ofGraph e.1 e.2 s.files.now)), s)

instance : MonadLift (StateM FileTree) (StateM Shelf) where
  monadLift x := fun s => ((x s.files).1, { s with files := (x s.files).2 })

/-- A pipeline from a repository in the files to the shelf. -/
def pipeline (repository : Repository) (graph : DependencyGraph) (resolveOptions : ResolveOptions)
    (mergeOptions : MergeOptions) : AnalysisPipeline (StateM Shelf) :=
  .ofRepository repository graph resolveOptions mergeOptions store

variable {files : FileTree} {repository : Repository} {graph : DependencyGraph}
  {resolveOptions : ResolveOptions} {mergeOptions : MergeOptions}

theorem run_read (s : Shelf) (path : Path) :
    (FileSystem.read path : StateM Shelf _).run s = (s.files.read path, s) := rfl

theorem exists_run_readText (files : FileTree) (path : Path) : ∃ text, ∀ entries,
    (FileSystem.readText path : StateM Shelf _).run ⟨files, entries⟩ =
      (text, ⟨files, entries⟩) := by
  simp only [FileSystem.readText, run_bind (run_read _ _)]
  cases files.read path with
  | error fault => exact ⟨_, fun entries => rfl⟩
  | ok bytes =>
    dsimp only
    cases Text.Utf8.text? bytes with
    | none => exact ⟨_, fun entries => rfl⟩
    | some text => exact ⟨_, fun entries => rfl⟩

theorem exists_run_readFile (files : FileTree) (path : Path) : ∃ loaded, ∀ entries,
    (Repository.readFile path : ExceptT StoreError (StateM Shelf) _).run.run ⟨files, entries⟩ =
      (loaded, ⟨files, entries⟩) := by
  obtain ⟨text, htext⟩ := exists_run_readText files path
  simp only [Repository.readFile, run_bind_ok (run_lift (htext _))]
  split
  next => exact ⟨_, fun entries => rfl⟩
  next => exact ⟨_, fun entries => rfl⟩
  next text =>
    cases PartialGraph.ofText? text with
    | none => exact ⟨_, fun entries => rfl⟩
    | some g => exact ⟨_, fun entries => rfl⟩

/-- What a repository in the files has. -/
def content (files : FileTree) (repository : Repository) : RepositoryContent := fun input =>
  ((repository.loadInput input : ExceptT StoreError (StateM Shelf) _).run.run ⟨files, []⟩).1

theorem run_loadInput (files : FileTree) (repository : Repository) (input : GraphInput)
    (entries : List (Coordinate × MergedGraph)) :
    (repository.loadInput input : ExceptT StoreError (StateM Shelf) _).run.run ⟨files, entries⟩ =
      (content files repository input, ⟨files, entries⟩) := by
  suffices ∃ loaded, ∀ entries,
      (repository.loadInput input : ExceptT StoreError (StateM Shelf) _).run.run
        ⟨files, entries⟩ = (loaded, ⟨files, entries⟩) by
    obtain ⟨loaded, h⟩ := this
    rw [content, h, h]
  cases input with
  | file path => exact exists_run_readFile files path
  | coordinate c =>
    obtain ⟨loaded, h⟩ := exists_run_readFile files (repository.pathOf c)
    have hcontains (entries : List (Coordinate × MergedGraph)) :
        (repository.contains c : StateM Shelf _).run ⟨files, entries⟩ =
          (((files.find (repository.pathOf c)).map FileEntry.kind).toOption == some .file,
            ⟨files, entries⟩) := rfl
    simp only [Repository.loadInput, Repository.load, run_bind_ok (run_lift (hcontains _))]
    split
    · exact ⟨loaded, h⟩
    · exact ⟨_, fun entries => rfl⟩

theorem serves_pipeline (files : FileTree) :
    (pipeline repository graph resolveOptions mergeOptions).Serves repository
      (content files repository) (fun s => s.files = files) graphs where
  eq_ofRepository := rfl
  load {s} hs input := by
    subst hs
    exact ⟨s, run_loadInput s.files repository input s.entries, rfl, rfl⟩
  contains {s} hs c := ⟨s, rfl, hs, rfl⟩
  put {s} hs c g := by
    show ∃ s', (if (s.graphs c).isSome then (.error (.alreadyStored c.text), s)
      else (.ok (), { s with entries := s.entries ++ [(c, g)] }) :
        Except StoreError Unit × Shelf) = _ ∧ _
    cases hc : (s.graphs c).isSome with
    | true => exact ⟨s, rfl, hs, (StoreCall.after_put_of_isSome hc).symm⟩
    | false =>
      refine ⟨_, rfl, hs, funext fun c' => ?_⟩
      rw [graphs, List.find?_append, StoreCall.after, graphs, StoreCall.put?]
      cases s.entries.find? fun e => e.1 = c' with
      | some e => rfl
      | none => by_cases heq : c = c' <;> simp [heq]

theorem content_file {path : Path} {g : PartialGraph}
    (h : files.read path = .ok (Text.Utf8.bytes g.text)) (hfits : g.revision.Fits) :
    content files repository (.file path) = .ok g := by
  have htext : (FileSystem.readText path : StateM Shelf _).run ⟨files, []⟩ =
      (.ok g.text, ⟨files, []⟩) := by
    rw [FileSystem.readText, run_bind (run_read _ _), h]
    dsimp only
    rw [Text.Utf8.text?_bytes]
    rfl
  rw [content, Repository.loadInput, Repository.readFile, run_bind_ok (run_lift htext)]
  dsimp only
  rw [PartialGraph.ofText?_text hfits]
  rfl

def sampleShelf : Shelf where
  files := FileTree.setEntry {} ["base.json"] (.file (Text.Utf8.bytes Merge.strayCaller.text))

theorem read_setEntry_base (bytes : List UInt8) :
    (FileTree.setEntry {} ["base.json"] (.file bytes)).read ⟨"base.json"⟩ = .ok bytes := rfl

def sampleRequests : List AnalysisRequest :=
  [{ id := 7, input := .file ⟨"base.json"⟩ }, { id := 8, input := .file ⟨"none.json"⟩ },
    { id := 9, input := .file ⟨"base.json"⟩ }]

/-- The dependency graph does not know the base, so that it is merged alone. -/
theorem run_fills_store_sample : ∃ outcomes last,
    ((pipeline ⟨⟨"repo"⟩⟩ (.ofParts [] []) {} {}).run sampleRequests).run sampleShelf =
        (outcomes, last) ∧
      outcomes.map (·.id) = [7, 8, 9] ∧ (AnalysisPipeline.storedCoordinates outcomes).Nodup ∧
      ∃ merged, merge {} Merge.strayCaller [] = .ok merged ∧
        last.graphs Merge.strayCaller.coordinate = some merged.graph := by
  obtain ⟨outcomes, last, hrun, hids, hfills, hmoments⟩ :=
    (serves_pipeline sampleShelf.files).run_fills_store (s := sampleShelf) rfl sampleRequests
  refine ⟨outcomes, last, hrun, hids, hfills.nodup, ?_⟩
  obtain ⟨before, o, after, hbefore, -, -, hhandles, -, -, hmerged⟩ := hmoments [] _ _ rfl
  obtain rfl : sampleShelf = before := congrArg Prod.snd hbefore
  have hbase : content sampleShelf.files ⟨⟨"repo"⟩⟩ (.file ⟨"base.json"⟩) = .ok Merge.strayCaller :=
    content_file (read_setEntry_base _) ⟨by decide, by decide⟩
  have hunknown := DependencyGraph.revision?_ofParts_nil [] Merge.strayCaller.coordinate
  have hquery {res : Resolution} : DependencyGraph.resolveDependencies (.ofParts [] []) {}
      Merge.strayCaller.coordinate none true ≠ .ok res := by
    rw [DependencyGraph.resolveDependencies_of_revision?_eq_none hunknown]
    exact nofun
  generalize graphs after = next at hhandles
  cases hhandles with
  | unread h => cases hbase.symm.trans h
  | held h hheld => cases hheld
  | unresolved h _ hknown =>
    cases hbase.symm.trans h
    simp [pipeline, AnalysisPipeline.ofRepository, hunknown] at hknown
  | unavailable h _ hdependencies hloads =>
    cases hbase.symm.trans h
    cases hdependencies with
    | known h => exact absurd h hquery
    | unknown =>
      cases hloads with
      | unreadable hc => cases hc
  | merged h _ _ _ hmerge =>
    obtain ⟨base, dependencies, merged, h', hdependencies, hmerge, -, -, hgraph⟩ :=
      hmerged _ _ _ rfl
    cases hbase.symm.trans h'
    cases hdependencies with
    | known h => exact absurd h hquery
    | unknown => exact ⟨merged, hmerge, hgraph⟩

end Shelf
end Stitch
