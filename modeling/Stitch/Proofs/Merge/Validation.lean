/-
Graphs without problems merge without degrading.

* `problems_eq_nil_iff` says what a graph without problems is: it has the hierarchy that its
  calls need, its methods are URIs, and its calls start at its methods and go to URIs.
* A degradation of a merge is a duplicate, or it comes from a problem of a graph whose calls
  are resolved (`exists_problem_of_mem_degraded`).  A lacking hierarchy is the same test in
  both places.  A call is dropped if its caller is not found in the index of all methods,
  and every method of the caller's own graph is found there.
* The other way round, a problem of the base that a merge meets (`Meets`) is reported
  (`exists_degradation_of_meets`).
* Graphs of different coordinates are no duplicates (`skipped_build_of_nodup`).

**`merge_not_degraded`** puts these together.
-/
import Stitch.Proofs.Merge.Numbering
import Stitch.Proofs.Merge.Survival

namespace Stitch

namespace PartialGraph

variable {g : PartialGraph}

theorem callProblems_eq_nil_iff {call : CallSite} : g.callProblems call = [] ↔
    call.caller ∈ g.internalNodes ∧ (call.kind = .dynamic ∨ isUri call.callee) := by
  simp [callProblems, Classical.or_iff_not_imp_left]

theorem problems_eq_nil_iff : g.problems = [] ↔
    (g.hierarchy = none → g.hasDispatchedCalls = false) ∧
      (∀ uri ∈ g.internalNodes, isUri uri) ∧
      ∀ call ∈ g.calls, call.caller ∈ g.internalNodes ∧
        (call.kind = .dynamic ∨ isUri call.callee) := by
  simp [problems, callProblems_eq_nil_iff]

theorem missingHierarchy_mem_problems_iff : .missingHierarchy ∈ g.problems ↔
    (g.hierarchy.isNone && g.hasDispatchedCalls) = true := by
  simp [problems, callProblems]

theorem unknownCaller_mem_problems_iff {caller : String} : .unknownCaller caller ∈ g.problems ↔
    (∃ call ∈ g.calls, call.caller = caller) ∧ caller ∉ g.internalNodes := by
  simp only [problems, callProblems, List.mem_append, List.mem_flatMap, List.mem_map]
  grind

end PartialGraph

namespace Universe

/-- Graphs of different coordinates are all taken in. -/
theorem skipped_build_of_nodup {base : PartialGraph} {dependencies : List PartialGraph}
    (h : ((base :: dependencies).map (·.coordinate)).Nodup) :
    (build base dependencies).skipped = [] := by
  have hnodup := ((perm_ordered base dependencies).map (·.coordinate)).nodup_iff.2 h
  exact (foldl_add_of_nodup (by simpa [coordinates] using hnodup)).2

theorem graph_mem_of_mem_contributors {base : PartialGraph} {dependencies : List PartialGraph}
    {c : Contributor} (h : c ∈ (build base dependencies).contributors) :
    c.graph ∈ base :: dependencies := by
  have hgraph := List.mem_map_of_mem (f := (·.graph)) h
  rw [map_graph_build, ← participants_eq] at hgraph
  exact (perm_ordered base dependencies).mem_iff.1 ((sublist_distinctBy _ _).subset hgraph)

end Universe

namespace Merge

variable {o : MergeOptions} {base : PartialGraph} {dependencies : List PartialGraph}

/-- The graphs whose calls are resolved: the base, and the dependencies too if the merge is
deep. -/
theorem graph_of_mem_resolvedBlocks {p : Contributor × Nat}
    (h : p ∈ resolvedBlocks o (Universe.build base dependencies)) :
    p.1.graph = base ∨ o.deep = true ∧ p.1.graph ∈ dependencies := by
  obtain ⟨size, rest, hfirst⟩ := Universe.exists_contributors_build base dependencies
  have hc := getElem?_of_mem_resolvedBlocks h
  by_cases hdeep : o.deep = true
  · rcases List.mem_cons.1 (Universe.graph_mem_of_mem_contributors (List.mem_of_getElem? hc)) with
      hbase | hdependency
    · exact .inl hbase
    · exact .inr ⟨hdeep, hdependency⟩
  -- Only the first contributor is left, which is the base.
  · rw [resolvedBlocks, if_neg hdeep, hfirst] at h
    simp only [List.zipIdx_cons, List.take_succ_cons, List.take_zero, List.mem_singleton] at h
    exact .inl (by rw [h])

theorem problems_ne_nil_of_hierarchyProblem {c : Contributor} {d : Degradation}
    (h : hierarchyProblem? c = some d) : c.graph.problems ≠ [] := by
  rw [hierarchyProblem?, Option.ite_none_right_eq_some] at h
  exact List.ne_nil_of_mem (PartialGraph.missingHierarchy_mem_problems_iff.2 h.1)

/-- A call that is dropped is a problem of the graph that makes it. -/
theorem exists_problem_of_dropped {outcome : CallOutcome}
    (h : outcome ∈ calls o (Universe.build base dependencies))
    (hdropped : outcome.resolution = .dropped) :
    ∃ p ∈ resolvedBlocks o (Universe.build base dependencies), p.1.graph.problems ≠ [] := by
  have hnone := (resolution_eq_dropped_iff h).1 hdropped
  obtain ⟨p, hp, h⟩ := List.mem_flatMap.1 h
  obtain ⟨call, hcall, rfl⟩ := List.mem_map.1 h
  have hc := getElem?_of_mem_resolvedBlocks hp
  refine ⟨p, hp, fun hvalid => ?_⟩
  -- The caller is a method of its own graph, which is registered under the URI that is looked up.
  have hmethod := ((PartialGraph.problems_eq_nil_iff.1 hvalid).2.2 call hcall).1
  have hfound := (Universe.isSome_method?_iff (Universe.isBlocked_build base dependencies) hc).2
    ⟨p.1, List.mem_of_getElem? hc, call.caller, hmethod, rfl⟩
  rw [hnone] at hfound
  exact Bool.false_ne_true hfound

/-- What a report tells of, duplicates apart, is a problem of a graph whose calls are
resolved. -/
theorem exists_problem_of_mem_degraded {g : MergedGraph} {d : Degradation}
    (h : d ∈ (report o base (Universe.build base dependencies)
      (calls o (Universe.build base dependencies)) g).degraded) :
    d ∈ (Universe.build base dependencies).skipped ∨
      ∃ p ∈ resolvedBlocks o (Universe.build base dependencies), p.1.graph.problems ≠ [] := by
  simp only [report, List.mem_append, List.mem_filterMap, List.mem_map] at h
  rcases h with (hskipped | ⟨_, ⟨p, hp, rfl⟩, hd⟩) | ⟨outcome, houtcome, hd⟩
  · exact .inl hskipped
  · exact .inr ⟨p, hp, problems_ne_nil_of_hierarchyProblem hd⟩
  · rw [droppedProblem?, Option.ite_none_right_eq_some] at hd
    exact .inr (exists_problem_of_dropped houtcome hd.1)

theorem isDuplicate_of_mem_skipped {d : Degradation}
    (h : d ∈ (Universe.build base dependencies).skipped) : isDuplicate d = true := by
  obtain ⟨c, rfl⟩ := (Universe.exists_of_mem_skipped h).resolve_left List.not_mem_nil
  rfl

/-! ### Problems that are met -/

/-- The problems of a base that a merge meets: it lacks the hierarchy that its calls need, or no
method that takes part has the global URI of a caller.  Texts that are no URIs are not among
them. -/
inductive Meets (base : PartialGraph) (u : Universe) : PartialGraphProblem → Prop
  | missingHierarchy : Meets base u .missingHierarchy
  | unknownCaller {caller : String} (h : ∀ c ∈ u.contributors, ∀ method ∈ c.graph.internalNodes,
      MethodUri.qualify c.coordinate method ≠ MethodUri.qualify base.coordinate caller) :
      Meets base u (.unknownCaller caller)

theorem exists_degradation_of_missingHierarchy {outcomes : List CallOutcome} {g : MergedGraph}
    (h : .missingHierarchy ∈ base.problems) :
    ∃ d ∈ (report o base (Universe.build base dependencies) outcomes g).degraded,
      isDuplicate d = false := by
  obtain ⟨size, rest, hfirst⟩ := Universe.exists_contributors_build base dependencies
  have hblock : ⟨base, 0, size⟩ ∈
      (resolvedBlocks o (Universe.build base dependencies)).map (·.1) := by
    rw [resolvedBlocks, hfirst]
    split <;> simp
  rw [PartialGraph.missingHierarchy_mem_problems_iff] at h
  have hproblem : hierarchyProblem? ⟨base, 0, size⟩ = some _ := if_pos h
  refine ⟨_, ?_, isDuplicate_hierarchyProblem hproblem⟩
  exact List.mem_append_left _
    (List.mem_append_right _ (List.mem_filterMap.2 ⟨_, hblock, hproblem⟩))

theorem exists_degradation_of_unknownCaller {caller : String} {g : MergedGraph}
    (hproblem : .unknownCaller caller ∈ base.problems)
    (h : ∀ c ∈ (Universe.build base dependencies).contributors, ∀ method ∈ c.graph.internalNodes,
      MethodUri.qualify c.coordinate method ≠ MethodUri.qualify base.coordinate caller) :
    ∃ d ∈ (report o base (Universe.build base dependencies)
      (calls o (Universe.build base dependencies)) g).degraded, isDuplicate d = false := by
  obtain ⟨⟨call, hcall, rfl⟩, -⟩ := PartialGraph.unknownCaller_mem_problems_iff.1 hproblem
  obtain ⟨size, rest, hfirst⟩ := Universe.exists_contributors_build base dependencies
  have hc : (Universe.build base dependencies).contributors[0]? = some ⟨base, 0, size⟩ := by
    rw [hfirst]
    rfl
  have hnone : (Universe.build base dependencies).method? 0 call.caller = none := by
    rw [← Option.not_isSome_iff_eq_none,
      Universe.isSome_method?_iff (Universe.isBlocked_build base dependencies) hc]
    rintro ⟨d, hd, method, hmethod, huri⟩
    exact h d hd method hmethod huri
  have houtcome : _ ∈ calls o (Universe.build base dependencies) := mem_calls_of_mem_base hcall
  have hdropped : droppedProblem? (Universe.build base dependencies) _ = some _ :=
    if_pos ((resolution_eq_dropped_iff houtcome).2 hnone)
  refine ⟨_, ?_, isDuplicate_droppedProblem hdropped⟩
  exact List.mem_append_right _ (List.mem_filterMap.2 ⟨_, houtcome, hdropped⟩)

theorem exists_degradation_of_meets {problem : PartialGraphProblem} {g : MergedGraph}
    (hproblem : problem ∈ base.problems)
    (h : Meets base (Universe.build base dependencies) problem) :
    ∃ d ∈ (report o base (Universe.build base dependencies)
      (calls o (Universe.build base dependencies)) g).degraded, isDuplicate d = false := by
  cases h with
  | missingHierarchy => exact exists_degradation_of_missingHierarchy hproblem
  | unknownCaller h => exact exists_degradation_of_unknownCaller hproblem h

/-- **Graphs without problems merge without degrading.**  If the coordinates differ and the
base has no problems, nor the dependencies where the merge is deep, the report has no
degradations and no dropped calls.  If a merge that is not deep reports a degradation other
than a duplicate, the base has problems; and the problems of the base that any merge meets are
reported. -/
theorem merge_not_degraded (o : MergeOptions) (base : PartialGraph)
    (dependencies : List PartialGraph) :
    ∃ m, merge o base dependencies = .ok m ∧
      (((base :: dependencies).map (·.coordinate)).Nodup → base.problems = [] →
        (o.deep = true → ∀ g ∈ dependencies, g.problems = []) →
        m.report.degraded = [] ∧ m.report.droppedCalls = 0) ∧
      (o.deep = false → (∃ d ∈ m.report.degraded, isDuplicate d = false) →
        base.problems ≠ []) ∧
      ((∃ problem ∈ base.problems, Meets base (Universe.build base dependencies) problem) →
        ∃ d ∈ m.report.degraded, isDuplicate d = false) := by
  obtain ⟨m, hm, -⟩ := exists_merge_ok o base dependencies
  have hreport := (merge_eq_ok_iff.1 hm).2
  refine ⟨m, hm, fun hnodup hbase hdependencies => ?_, fun hshallow ⟨d, hd, hother⟩ => ?_,
    fun ⟨problem, hproblem, hmeets⟩ => ?_⟩
  · have hnone : ¬∃ p ∈ resolvedBlocks o (Universe.build base dependencies),
        p.1.graph.problems ≠ [] := by
      rintro ⟨p, hp, hproblems⟩
      rcases graph_of_mem_resolvedBlocks hp with hgraph | ⟨hdeep, hgraph⟩
      · exact hproblems (hgraph ▸ hbase)
      · exact hproblems (hdependencies hdeep _ hgraph)
    rw [hreport]
    refine ⟨List.eq_nil_iff_forall_not_mem.2 fun d hd => ?_, List.countP_eq_zero.2 fun c hc => ?_⟩
    · rcases exists_problem_of_mem_degraded hd with hskipped | hproblem
      · simp [Universe.skipped_build_of_nodup hnodup] at hskipped
      · exact hnone hproblem
    · rw [decide_eq_true_eq]
      exact fun hdropped => hnone (exists_problem_of_dropped hc hdropped)
  · rw [hreport] at hd
    rcases exists_problem_of_mem_degraded hd with hskipped | ⟨p, hp, hproblems⟩
    · rw [isDuplicate_of_mem_skipped hskipped] at hother
      exact absurd hother (by decide)
    · rcases graph_of_mem_resolvedBlocks hp with hgraph | ⟨hdeep, -⟩
      · rwa [hgraph] at hproblems
      · rw [hshallow] at hdeep
        exact absurd hdeep (by decide)
  · rw [hreport]
    exact exists_degradation_of_meets hproblem hmeets

/-- A graph with a virtual call, a call of another artifact and a dynamic call. -/
def dispatching : PartialGraph where
  revision := ⟨⟨"mvn", ⟨"org", "tool"⟩, "2"⟩, 3⟩
  internalNodes := ["/org/Tool.start()V", "/org/Tool.stop()V"]
  calls := [⟨"/org/Tool.start()V", "/org/Tool.stop()V", .virtual⟩,
    ⟨"/org/Tool.stop()V", "/org/App.run()V", .static⟩,
    ⟨"/org/Tool.stop()V", "lambda", .dynamic⟩]

/-- A deep merge of two graphs without problems, and a merge whose base calls from a method that
only its later version has. -/
theorem merge_not_degraded_dispatching :
    (∃ m, merge ⟨.rtaLike, true⟩ dispatching [strayCaller] = .ok m ∧
      m.report.degraded = [] ∧ m.report.droppedCalls = 0) ∧
    (∃ m, merge {} firstVersion [laterVersion] = .ok m ∧
      ∃ d ∈ m.report.degraded, isDuplicate d = false) ∧ firstVersion.problems ≠ [] := by
  obtain ⟨m, hm, hvalid, -⟩ := merge_not_degraded ⟨.rtaLike, true⟩ dispatching [strayCaller]
  obtain ⟨m', hm', -, hshallow, hmet⟩ := merge_not_degraded {} firstVersion [laterVersion]
  have hmeets : Meets firstVersion (Universe.build firstVersion [laterVersion])
      (.unknownCaller "/org/App.stop()V") := by
    refine .unknownCaller ?_
    rw [contributors_versions]
    decide +kernel
  have hdegraded := hmet ⟨_, by decide +kernel, hmeets⟩
  exact ⟨⟨m, hm, hvalid (by decide) (by decide +kernel) (by decide +kernel)⟩,
    ⟨m', hm', hdegraded⟩, hshallow rfl hdegraded⟩

end Merge

end Stitch
