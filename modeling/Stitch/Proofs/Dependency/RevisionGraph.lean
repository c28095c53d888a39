/-
The revision graph has a path to whatever a query can find.

A search for dependencies follows its constraints through versions, exclusions, optional
flags and times, and an artifact has one revision in it.  The revision graph knows none of
this, only which revision satisfies which constraint.  What carries over is one level: the
constraint that won a selection is an edge from the selection that declares it
(`LeadsTo.of_selectionsAt`), so that a distance is the length of a path.

* `mem_backwardBall_iff` and `mem_forwardClosure_iff` say what the visits of the graph find.
* `exists_depth` is the distance that an answer gives to a revision, also where artifacts
  share a text.
* **`revisionGraph_covers_queries`** puts these together for dependencies and dependents.
-/
import Stitch.Dependency.RevisionGraph
import Stitch.Proofs.Dependency.Dependents
import Stitch.Proofs.Dependency.Termination
import Stitch.Proofs.Search.Distance

namespace Stitch

namespace RevisionGraph

/-- So many edges lead from a revision to another. -/
inductive LeadsTo (g : RevisionGraph) (r : Revision) : Nat → Revision → Prop
  | refl : LeadsTo g r 0 r
  | step {n : Nat} {s t : Revision} (h : LeadsTo g r n s) (hedge : (s, t) ∈ g.edges) :
    LeadsTo g r (n + 1) t

variable {g : RevisionGraph} {r s t : Revision} {c : Coordinate} {n radius : Nat}

theorem mem_successors_iff : t ∈ g.successors s ↔ (s, t) ∈ g.edges := by
  simp [successors]

theorem mem_predecessors_iff : s ∈ g.predecessors t ↔ (s, t) ∈ g.edges := by
  simp [predecessors]

/-! ### Visits -/

theorem mem_backwardBall_iff {seeds : List Coordinate} :
    r ∈ g.backwardBall seeds radius ↔ ∃ n ≤ radius,
      Search.Reaches g.revisions g.predecessors (g.seedRevisions seeds) n r := by
  simp only [backwardBall, Revision.sorted, List.mem_mergeSort, List.mem_map, List.mem_filter,
    decide_eq_true_eq]
  constructor
  · rintro ⟨⟨_, n⟩, ⟨hfound, hn⟩, rfl⟩
    exact ⟨n, hn, (Search.mem_breadthFirst_iff.1 hfound).1⟩
  · rintro ⟨n, hn, hreaches⟩
    obtain ⟨m, hm, hfound⟩ := Search.exists_mem_breadthFirst_le hreaches
    exact ⟨(r, m), ⟨hfound, Nat.le_trans hm hn⟩, rfl⟩

theorem mem_forwardClosure_iff {seeds : List Coordinate} :
    r ∈ g.forwardClosure seeds ↔ ∃ n,
      Search.Reaches g.revisions g.successors (g.seedRevisions seeds) n r :=
  Search.mem_map_breadthFirst_iff_reaches

theorem seedRevisions_singleton (h : g.revision? c = some r) : g.seedRevisions [c] = [r] := by
  simp [seedRevisions, h]

section Paths

variable (hends : ∀ e ∈ g.edges, e.1 ∈ g.revisions ∧ e.2 ∈ g.revisions)
include hends

/-- A path is gone forwards from its first revision. -/
theorem LeadsTo.reaches_successors {starts : List Revision} (h : g.LeadsTo r n s)
    (hr : r ∈ starts) : Search.Reaches g.revisions g.successors starts n s := by
  induction h with
  | refl => exact .start hr
  | step _ hedge ih => exact ih.step ⟨mem_successors_iff.2 hedge, (hends _ hedge).2⟩

/-- A path is gone backwards from its last revision.  The induction takes the edges from the
end, so what was gone already stands before it. -/
theorem LeadsTo.reaches_predecessors {starts : List Revision} {m : Nat} (h : g.LeadsTo r n s)
    (hs : Search.Reaches g.revisions g.predecessors starts m s) :
    Search.Reaches g.revisions g.predecessors starts (m + n) r := by
  induction h generalizing m with
  | refl => exact hs
  | @step n s t _ hedge ih =>
    have hback := hs.step ⟨mem_predecessors_iff.2 hedge, (hends _ hedge).1⟩
    rw [Nat.add_comm n 1, ← Nat.add_assoc]
    exact ih hback

theorem LeadsTo.mem_backwardBall (h : g.LeadsTo r n s) (hs : g.revision? c = some s)
    (hn : n ≤ radius) : r ∈ g.backwardBall [c] radius := by
  refine mem_backwardBall_iff.2 ⟨n, hn, ?_⟩
  rw [seedRevisions_singleton hs]
  have hback := h.reaches_predecessors hends (.start (List.mem_singleton_self s))
  rwa [Nat.zero_add] at hback

theorem LeadsTo.mem_forwardClosure (h : g.LeadsTo r n s) (hr : g.revision? c = some r) :
    s ∈ g.forwardClosure [c] := by
  refine mem_forwardClosure_iff.2 ⟨n, ?_⟩
  rw [seedRevisions_singleton hr]
  exact h.reaches_successors hends (List.mem_singleton_self r)

end Paths

end RevisionGraph

namespace DependencyGraph

open Mediation RevisionGraph

variable {g : DependencyGraph} {o : ResolveOptions} {asOf : Option Int} {r s t x : Revision}
  {ls : List Level} {scopes : List Scope}

/-- An edge is a constraint in a wanted scope and a known revision that satisfies it. -/
theorem mem_edges_ofGraph_iff : (s, t) ∈ (RevisionGraph.ofGraph g scopes).edges ↔
    s ∈ g.revisions ∧ ∃ c ∈ g.constraintsOf s.coordinate, c.scope ∈ scopes ∧
      t ∈ g.revisionsOf c.target ∧ c.isSatisfiedBy t.coordinate.parsedVersion = true := by
  simp only [RevisionGraph.ofGraph, targetsOf, List.mem_flatMap, List.mem_map, mem_distinct,
    List.mem_filter, List.contains_iff_mem, Prod.mk.injEq]
  constructor
  · rintro ⟨s, hs, t, ⟨c, ⟨hc, hscope⟩, ht, hsatisfied⟩, rfl, rfl⟩
    exact ⟨hs, c, hc, hscope, ht, hsatisfied⟩
  · rintro ⟨hs, c, hc, hscope, ht, hsatisfied⟩
    exact ⟨s, hs, t, ⟨c, ⟨hc, hscope⟩, ht, hsatisfied⟩, rfl, rfl⟩

theorem mem_revisions_of_mem_edges : ∀ e ∈ (RevisionGraph.ofGraph g scopes).edges,
    e.1 ∈ (RevisionGraph.ofGraph g scopes).revisions ∧
      e.2 ∈ (RevisionGraph.ofGraph g scopes).revisions := by
  intro e he
  obtain ⟨hs, c, -, -, ht, -⟩ := mem_edges_ofGraph_iff.1 he
  exact ⟨hs, (mem_revisionsOf.1 ht).1⟩

theorem nodup_edges_ofGraph (hg : g.revisions.Nodup) :
    (RevisionGraph.ofGraph g scopes).edges.Nodup := by
  refine List.nodup_flatMap.2 ⟨fun r _ => (nodup_distinct _).map (Prod.mk_right_injective r), ?_⟩
  refine hg.pairwise_of_forall_ne fun r _ s _ hne => ?_
  intro e hr hs
  obtain ⟨t, -, rfl⟩ := List.mem_map.1 hr
  obtain ⟨u, -, heq⟩ := List.mem_map.1 hs
  exact hne (congrArg Prod.fst heq).symm

/-! ### Dependencies -/

/-- What is selected at a distance is as many edges away.  The constraint that won is the last
of them; whether it was optional, excluded or allowed in time does not matter. -/
theorem LeadsTo.of_selectionsAt (hr : r ∈ g.revisions)
    (h : g.queryLevels o r asOf true = .ok ls) {d : Nat} {n : Selection}
    (hn : n ∈ selectionsAt (root r) ls d) :
    n.revision ∈ g.revisions ∧
      (RevisionGraph.ofGraph g o.scopes).LeadsTo r d n.revision := by
  induction d generalizing n with
  | zero =>
    obtain rfl := List.mem_singleton.1 hn
    exact ⟨hr, .refl⟩
  | succ d ih =>
    obtain ⟨l, a, hl, hselected⟩ := mem_selectionsAt_succ.1 hn
    obtain ⟨f, hf, hsel⟩ := exists_followed_of_mem_selected (level_of_queryLevels h hl) hselected
    obtain ⟨hnode, hdeclared, hfollows, -, -⟩ := mem_followed_iff.1 hf
    obtain ⟨hcandidate, -, -⟩ := selection?_eq_some_iff.1 hsel
    obtain ⟨hknown, hallows⟩ := mem_of_candidate?_eq_some hcandidate
    obtain ⟨hsource, hpath⟩ := ih hnode
    exact ⟨(mem_revisionsOf.1 hknown).1, hpath.step (mem_edges_ofGraph_iff.2
      ⟨hsource, f.constraint, hdeclared, (follows_iff.1 hfollows).1, hknown, hallows.1⟩)⟩

/-- A revision's artifact has a distance in the answer, and the revision was selected there or
nearer: of artifacts with one text the farthest counts. -/
theorem exists_depth (h : g.queryLevels o r asOf true = .ok ls)
    (hs : s ∈ (resolution ls).revisions) : ∃ i d, i ≤ d ∧
      (resolution ls).depth.get? s.artifact.text = some d ∧
      ∃ n ∈ selectionsAt (root r) ls i, n.revision = s := by
  obtain ⟨i, n, hn, rfl⟩ := (@mem_revisions_resolution (root r) _ _).1 hs
  obtain ⟨l, a, hl, hselected⟩ := mem_selectionsAt_succ.1 hn
  have hartifact := artifact_eq_of_levels h (List.mem_of_getElem? hl) hselected
  have hmem : (n.revision.artifact.text, i + 1) ∈ distances ls :=
    mem_distances.2 ⟨i, l, hl, a, List.mem_map_of_mem hselected, congrArg _ hartifact.symm, rfl⟩
  obtain ⟨d, hd, hget⟩ := SortedMap.exists_get?_ofList_of_pairwise (pairwise_distances ls) hmem
  exact ⟨i + 1, d, hd, hget, n, hn, rfl⟩

/-- The queried revision and its answer are different revisions, all of them in its closure. -/
theorem length_revisions_lt (hr : r ∈ g.revisions) (hroot : g.revision? r.coordinate = some r)
    (h : g.queryLevels o r asOf true = .ok ls) :
    (resolution ls).revisions.length <
      ((RevisionGraph.ofGraph g o.scopes).forwardClosure [r.coordinate]).length := by
  have hanswer := isMediated_resolution h
  have hnodup : (r :: (resolution ls).revisions).Nodup := by
    refine List.nodup_cons.2 ⟨fun hmem => hanswer.artifact_not_mem ?_, hanswer.nodup.of_map⟩
    exact List.mem_map_of_mem (f := Revision.artifact) hmem
  have hsub : r :: (resolution ls).revisions ⊆
      (RevisionGraph.ofGraph g o.scopes).forwardClosure [r.coordinate] := by
    intro s hs
    rcases List.mem_cons.1 hs with rfl | hs
    · exact LeadsTo.refl.mem_forwardClosure mem_revisions_of_mem_edges hroot
    · obtain ⟨d, n, hn, rfl⟩ := (@mem_revisions_resolution (root r) _ _).1 hs
      exact (LeadsTo.of_selectionsAt hr h hn).2.mem_forwardClosure mem_revisions_of_mem_edges hroot
  exact (hnodup.subperm hsub).length_le

/-! ### Dependents -/

/-- A step of the search for dependents goes back along an edge. -/
theorem mem_predecessors_of_step {limit : Option Int} (hs : s ∈ g.revisions)
    (h : Search.Step g.revisions (g.possibleDependents o limit) s t) :
    Search.Step g.revisions (RevisionGraph.ofGraph g o.scopes).predecessors s t := by
  obtain ⟨hnext, ht⟩ := h
  obtain ⟨c, hc, htarget, hsource, hscope, hsatisfied, -, -⟩ := mem_possibleDependents.1 hnext
  refine ⟨mem_predecessors_iff.2 (mem_edges_ofGraph_iff.2 ⟨ht, c, ?_, hscope, ?_, hsatisfied⟩), ht⟩
  · exact mem_constraintsOf.2 ⟨hc, (mem_of_revision?_eq_some hsource).2.symm⟩
  · exact mem_revisionsOf.2 ⟨hs, htarget.symm⟩

theorem reaches_predecessors_of_possibleDependents {limit : Option Int} (hx : x ∈ g.revisions)
    {n : Nat} (h : Search.Reaches g.revisions (g.possibleDependents o limit) [x] n s) :
    s ∈ g.revisions ∧
      Search.Reaches g.revisions (RevisionGraph.ofGraph g o.scopes).predecessors [x] n s := by
  induction h with
  | start ha => exact ⟨List.mem_singleton.1 ha ▸ hx, .start ha⟩
  | step _ hstep ih =>
    obtain ⟨hs, hreaches⟩ := ih
    exact ⟨hstep.2, hreaches.step (mem_predecessors_of_step hs hstep)⟩

/-- A dependent is no farther away than there are revisions. -/
theorem mem_backwardBall_of_mem_dependentCandidates {limit : Option Int} {transitive : Bool}
    (hx : g.revision? x.coordinate = some x) {n : Nat}
    (h : (s, n) ∈ g.dependentCandidates o limit x transitive) :
    s ∈ (RevisionGraph.ofGraph g o.scopes).backwardBall [x.coordinate] g.revisions.length := by
  have hknown := (mem_of_revision?_eq_some hx).1
  have hfound := (mem_dependentCandidates.1 h).1
  have hstarts : [x] ⊆ g.revisions := fun s hs => List.mem_singleton.1 hs ▸ hknown
  have hseeds : (RevisionGraph.ofGraph g o.scopes).seedRevisions [x.coordinate] = [x] :=
    seedRevisions_singleton hx
  refine mem_backwardBall_iff.2
    ⟨n, Nat.le_of_lt (Search.lt_length_of_mem_breadthFirst hstarts hfound), ?_⟩
  rw [hseeds]
  exact (reaches_predecessors_of_possibleDependents hknown
    (Search.mem_breadthFirst_iff.1 hfound).1).2

/-- **The revision graph covers all queries** of a graph that knows every coordinate once, as
graphs that are made of parts do, whatever the options and the time.  Each dependency is at
most as many edges away as its distance says, so that the queried revision is in the ball
around it; together with the queried revision the dependencies are no more than its closure;
and the dependents are in the ball around it whose radius is the number of revisions. -/
theorem revisionGraph_covers_queries {g : DependencyGraph}
    (hg : (g.revisions.map (·.coordinate)).Nodup) (o : ResolveOptions) (asOf : Option Int)
    {c : Coordinate} {r : Revision} (hr : g.revision? c = some r) :
    (∀ res, g.resolveDependencies o c asOf true = .ok res →
      (∀ s ∈ res.revisions, ∃ d, res.depth.get? s.artifact.text = some d ∧
        (∃ n ≤ d, (RevisionGraph.ofGraph g o.scopes).LeadsTo r n s) ∧
        r ∈ (RevisionGraph.ofGraph g o.scopes).backwardBall [s.coordinate] d) ∧
      res.revisions.length + 1 ≤ ((RevisionGraph.ofGraph g o.scopes).forwardClosure [c]).length) ∧
    ∀ transitive, ∃ res, g.resolveDependents o c asOf transitive = .ok res ∧
      ∀ s ∈ res.revisions, s ∈ (RevisionGraph.ofGraph g o.scopes).backwardBall [c]
        (RevisionGraph.ofGraph g o.scopes).revisions.length := by
  obtain ⟨hknown, rfl⟩ := mem_of_revision?_eq_some hr
  refine ⟨fun res hres => ?_, fun transitive => ?_⟩
  · obtain ⟨_, ls, hroot, hls, rfl⟩ := resolveDependencies_eq_ok_iff.1 hres
    cases hr.symm.trans hroot
    refine ⟨fun s hs => ?_, length_revisions_lt hknown hr hls⟩
    obtain ⟨i, d, hi, hget, n, hn, rfl⟩ := exists_depth hls hs
    obtain ⟨hmem, hpath⟩ := LeadsTo.of_selectionsAt hknown hls hn
    have hfound : g.revision? n.revision.coordinate = some n.revision :=
      (find?_eq_some_iff_of_nodup hg).2 ⟨hmem, rfl⟩
    exact ⟨d, hget, ⟨i, hi, hpath⟩, hpath.mem_backwardBall mem_revisions_of_mem_edges hfound hi⟩
  · obtain ⟨res, hres, hmem⟩ := @exists_resolveDependents_ok g o asOf transitive _ _ hr
    refine ⟨res, hres, fun s hs => ?_⟩
    obtain ⟨n, hn⟩ := ((hmem s).1 hs).1
    exact mem_backwardBall_of_mem_dependentCandidates hr hn

/-- What the application needed before it was released itself. -/
theorem revisionGraph_covers_queries_sample :
    let rg := RevisionGraph.ofGraph sample Scope.followed
    ∃ res, sample.resolveDependencies {} ⟨"mvn", ⟨"org", "app"⟩, "1"⟩ (some 3) true = .ok res ∧
      (∀ s ∈ res.revisions, ∃ d, res.depth.get? s.artifact.text = some d ∧
        ⟨⟨"mvn", ⟨"org", "app"⟩, "1"⟩, 9⟩ ∈ rg.backwardBall [s.coordinate] d) ∧
      res.revisions.length + 1 ≤ (rg.forwardClosure [⟨"mvn", ⟨"org", "app"⟩, "1"⟩]).length := by
  intro rg
  obtain ⟨res, h⟩ : ∃ res, sample.resolveDependencies {} ⟨"mvn", ⟨"org", "app"⟩, "1"⟩ (some 3)
      true = .ok res :=
    exists_resolveDependencies_ok revision?_sample fun _ => revisionsOf_sample_ne_nil
  obtain ⟨hdependencies, -⟩ :=
    revisionGraph_covers_queries (coordinates_nodup _ _) {} (some 3) revision?_sample
  obtain ⟨hdepths, hlength⟩ := hdependencies res h
  refine ⟨res, h, fun s hs => ?_, hlength⟩
  obtain ⟨d, hget, -, hball⟩ := hdepths s hs
  exact ⟨d, hget, hball⟩

end DependencyGraph

end Stitch
