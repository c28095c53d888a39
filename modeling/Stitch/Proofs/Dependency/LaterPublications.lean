/-
Answers as of a time do not depend on what is published later.

A graph is extended after a time (`IsExtendedAfter`) by revisions that were
released after it, of artifacts that were known before, and by constraints that
these revisions declare.  A query as of that time reads the larger tables, but
each of its views either does not show the additions or throws them out again:

* constraints of known revisions, and whether an artifact is known, are the same;
* the highest revision that a constraint allows is the same (`candidate?_eq`),
  because the additions are too late wherever they stand in the order;
* the search for dependents goes the same steps (`stepsFrom_eq`).

So every level is the same (`level_eq`), and by induction every search:

* **`resolve_eq_of_isExtendedAfter`**: both queries have the same answers.
-/
import Stitch.Proofs.Dependency.Dependents

namespace Stitch.DependencyGraph

open Mediation

/-- `g'` is `g` with what was published after a time: new revisions of artifacts
that are known in `g`, and constraints that new revisions declare. -/
structure IsExtendedAfter (t : Int) (g g' : DependencyGraph) : Prop where
  mem_revisions : ∀ r ∈ g.revisions, r ∈ g'.revisions
  released_later : ∀ r ∈ g'.revisions, r ∉ g.revisions → t < r.released
  artifact_known : ∀ r ∈ g'.revisions, g.revisionsOf r.artifact ≠ []
  /-- The constraints of the revisions of `g` are those of `g`, in the same order. -/
  constraints_eq : g'.constraints.filter (fun c => g.contains c.source) = g.constraints

variable {revisions revisions' : List Revision} {constraints constraints' : List Constraint}
  {g g' : DependencyGraph} {t : Int} {o : ResolveOptions}

/-! ### Views of the larger graph -/

section Views

variable (hg : g = ofParts revisions constraints) (hg' : g' = ofParts revisions' constraints')
  (h : IsExtendedAfter t g g')

include h in
theorem mem_revisionsOf_of_isExtendedAfter {a : Artifact} {r : Revision}
    (hr : r ∈ g.revisionsOf a) : r ∈ g'.revisionsOf a :=
  mem_revisionsOf.2 ⟨h.mem_revisions r (mem_revisionsOf.1 hr).1, (mem_revisionsOf.1 hr).2⟩

include h in
theorem isOrdered_of_isExtendedAfter (hordered : g'.IsOrdered) : g.IsOrdered :=
  fun a r hr s hs u hu => hordered a r (mem_revisionsOf_of_isExtendedAfter h hr) s
    (mem_revisionsOf_of_isExtendedAfter h hs) u (mem_revisionsOf_of_isExtendedAfter h hu)

include hg hg' h in
/-- The known revisions stand in the larger graph in their own order. -/
theorem filter_revisions_eq (hordered : g'.IsOrdered) :
    g'.revisions.filter (fun r => decide (r ∈ g.revisions)) = g.revisions := by
  have hordered₀ := isOrdered_of_isExtendedAfter h hordered
  have hnodup : ∀ {revisions constraints}, (ofParts revisions constraints).revisions.Nodup :=
    fun {revisions constraints} => (coordinates_nodup revisions constraints).of_map _
  have hmem := h.mem_revisions
  subst hg hg'
  refine List.Perm.eq_of_pairwise ?_
    ((pairwise_revisions hordered).sublist List.filter_sublist) (pairwise_revisions hordered₀) ?_
  · intro r s hr hs hrs hsr
    have hr' := (List.mem_filter.1 hr).2
    exact eq_of_coordinate_eq (of_decide_eq_true hr') hs (Coordinate.atMost_antisymm hrs hsr)
  · refine (List.perm_ext_iff_of_nodup (hnodup.filter _) hnodup).2 fun r => ?_
    rw [List.mem_filter, decide_eq_true_eq]
    exact ⟨And.right, fun hr => ⟨hmem r hr, hr⟩⟩

include hg hg' h in
theorem filter_revisionsOf_eq (hordered : g'.IsOrdered) (a : Artifact) :
    (g'.revisionsOf a).filter (fun r => decide (r ∈ g.revisions)) = g.revisionsOf a := by
  rw [revisionsOf, revisionsOf, List.filter_reverse, List.filter_filter]
  conv_rhs => rw [← filter_revisions_eq hg hg' h hordered, List.filter_filter]
  simp only [Bool.and_comm]

include hg hg' h in
theorem revision?_eq_of_isExtendedAfter {c : Coordinate} (hc : g.contains c = true) :
    g'.revision? c = g.revision? c := by
  obtain ⟨r, hr, rfl⟩ := contains_iff.1 hc
  have hr' := h.mem_revisions r hr
  subst hg hg'
  rw [revision?_eq_some_iff.2 ⟨hr, rfl⟩, revision?_eq_some_iff.2 ⟨hr', rfl⟩]

include h in
theorem constraintsOf_eq {c : Coordinate} (hc : g.contains c = true) :
    g'.constraintsOf c = g.constraintsOf c := by
  rw [constraintsOf, constraintsOf, ← h.constraints_eq, List.filter_filter]
  refine List.filter_congr fun d _ => ?_
  by_cases hd : d.source = c
  · simp [hd, hc]
  · simp [hd]

include h in
theorem isMissing_eq : isMissing g' = isMissing g := by
  funext c
  rw [Bool.eq_iff_iff, isMissing_iff, isMissing_iff]
  constructor
  · intro hnone
    refine List.eq_nil_iff_forall_not_mem.2 fun r hr => ?_
    have := mem_revisionsOf_of_isExtendedAfter h hr
    rw [hnone] at this
    cases this
  · intro hnone
    refine List.eq_nil_iff_forall_not_mem.2 fun r hr => ?_
    obtain ⟨hr, hartifact⟩ := mem_revisionsOf.1 hr
    exact h.artifact_known r hr (hartifact ▸ hnone)

include hg hg' h in
/-- The highest revision that a constraint allows was there before. -/
theorem candidate?_eq (hordered : g'.IsOrdered) :
    candidate? g' (some t) = candidate? g (some t) := by
  funext c
  rw [candidate?, candidate?, ← filter_revisionsOf_eq hg hg' h hordered, ← List.head?_filter,
    ← List.head?_filter, List.filter_filter]
  refine congrArg List.head? (List.filter_congr fun r hr => ?_)
  by_cases hknown : r ∈ g.revisions
  · simp [hknown]
  · have hlate := h.released_later r (mem_revisionsOf.1 hr).1 hknown
    simp [hknown, Int.not_le.2 hlate]

/-! ### Dependencies -/

include hg hg' h in
theorem level_eq (hordered : g'.IsOrdered) (visited : List Artifact) (depth : Nat)
    {frontier : List Selection}
    (hfrontier : ∀ n ∈ frontier, g.contains n.revision.coordinate = true) :
    level g' o (some t) visited depth frontier = level g o (some t) visited depth frontier := by
  have hfollowed : frontier.flatMap (followedFrom g' o visited depth) =
      frontier.flatMap (followedFrom g o visited depth) :=
    List.flatMap_congr fun n hn => by
      rw [followedFrom, followedFrom, constraintsOf_eq h (hfrontier n hn)]
  have hcandidate := candidate?_eq hg hg' h hordered
  have hselection : selection? g' (some t) = selection? g (some t) := by
    funext f
    rw [selection?, selection?, hcandidate]
  have hproblem : problem? g' (some t) = problem? g (some t) := by
    funext f
    rw [problem?, problem?, hcandidate, isMissing_eq h]
  rw [level, level, hfollowed, hselection, hproblem, isMissing_eq h]

include hg hg' h in
theorem levels_eq (hordered : g'.IsOrdered) {limit : Option Int} (hlimit : limit = some t)
    (visited : List Artifact) (depth : Nat) (frontier : List Selection)
    (hfrontier : ∀ n ∈ frontier, g.contains n.revision.coordinate = true) :
    levels g' o limit visited depth frontier = levels g o limit visited depth frontier := by
  subst hlimit
  refine levels_congr (level_eq hg hg' h hordered _ _) (fun hlevel e he => ?_) visited depth
    frontier hfrontier
  -- What a level selects is known, so the rest of the search is the same too.
  have hknown := mem_revisionsOf_of_mem_selected hlevel he
  exact contains_iff.2 ⟨e.2.revision, (mem_revisionsOf.1 hknown).1, rfl⟩

include hg hg' h in
theorem resolveDependencies_eq (ht : 0 < t) (hordered : g'.IsOrdered) {c : Coordinate}
    (hc : g.contains c = true) (transitive : Bool) :
    g'.resolveDependencies o c (some t) transitive =
      g.resolveDependencies o c (some t) transitive := by
  have hlimit : timeLimit (some t) = some t := timeLimit_eq_some_iff.2 ⟨rfl, ht⟩
  rw [resolveDependencies, resolveDependencies, revision?_eq_of_isExtendedAfter hg hg' h hc]
  cases hroot : g.revision? c with
  | none => rfl
  | some root =>
    have hstart : ∀ n ∈ [(⟨root, []⟩ : Selection)], g.contains n.revision.coordinate = true := by
      intro n hn
      obtain ⟨hmem, -⟩ := mem_of_revision?_eq_some hroot
      rw [List.mem_singleton.1 hn]
      exact contains_iff.2 ⟨root, hmem, rfl⟩
    simp only [hlimit, levels_eq hg hg' h hordered rfl _ _ _ hstart,
      level_eq hg hg' h hordered _ _ hstart]

/-! ### Dependents -/

include hg hg' h in
/-- What depends on a revision in time declares a constraint that was there before. -/
theorem possibleDependents_eq :
    g'.possibleDependents o (some t) = g.possibleDependents o (some t) := by
  funext r
  simp only [possibleDependents, dependentsOf, ← h.constraints_eq, List.filterMap_filter,
    List.filter_filterMap, List.map_filterMap]
  refine List.filterMap_congr fun c _ => ?_
  by_cases hsource : g.contains c.source = true
  · rw [if_pos hsource, revision?_eq_of_isExtendedAfter hg hg' h hsource]
  · rw [if_neg hsource]
    cases hs : g'.revision? c.source with
    | none => simp
    | some s =>
      -- A new revision declares the constraint, and that is too late.
      obtain ⟨hmem, hcoordinate⟩ := mem_of_revision?_eq_some hs
      have hnew : s ∉ g.revisions := fun hold => hsource (contains_iff.2 ⟨s, hold, hcoordinate⟩)
      have hlate := h.released_later s hmem hnew
      by_cases htarget : c.target = r.artifact
      · simp [htarget, hlate]
      · simp [htarget]

theorem mem_revisions_of_mem_possibleDependents {limit : Option Int} {r s : Revision}
    (hs : s ∈ g.possibleDependents o limit r) : s ∈ g.revisions := by
  obtain ⟨c, -, -, hsource, -⟩ := mem_possibleDependents.1 hs
  exact (mem_of_revision?_eq_some hsource).1

include hg hg' h in
theorem dependentCandidates_eq (root : Revision) (transitive : Bool) :
    g'.dependentCandidates o (some t) root transitive =
      g.dependentCandidates o (some t) root transitive := by
  have hsteps : ∀ r, Search.stepsFrom g.revisions (g.possibleDependents o (some t)) r =
      Search.stepsFrom g'.revisions (g'.possibleDependents o (some t)) r := by
    intro r
    rw [possibleDependents_eq hg hg' h]
    refine List.filter_congr fun s hs => ?_
    have hknown := mem_revisions_of_mem_possibleDependents hs
    rw [decide_eq_true hknown, decide_eq_true (h.mem_revisions s hknown)]
  rw [dependentCandidates, dependentCandidates, Search.breadthFirst_congr fun p _ => hsteps p.1]

include hg hg' h in
theorem resolveDependents_eq (ht : 0 < t) (hordered : g'.IsOrdered) {c : Coordinate}
    (hc : g.contains c = true) (transitive : Bool) :
    g'.resolveDependents o c (some t) transitive = g.resolveDependents o c (some t) transitive := by
  have hlimit : timeLimit (some t) = some t := timeLimit_eq_some_iff.2 ⟨rfl, ht⟩
  rw [resolveDependents, resolveDependents, revision?_eq_of_isExtendedAfter hg hg' h hc]
  cases hroot : g.revision? c with
  | none => rfl
  | some root =>
    have hconfirmed : (g.dependentCandidates o (some t) root transitive).filter
          (fun p => g'.dependsOn o (some t) transitive p.1 root.coordinate) =
        (g.dependentCandidates o (some t) root transitive).filter
          (fun p => g.dependsOn o (some t) transitive p.1 root.coordinate) := by
      refine List.filter_congr fun p hp => ?_
      have hknown := mem_revisions_of_mem_dependentCandidates
        (mem_of_revision?_eq_some hroot).1 hp
      rw [dependsOn, dependsOn, resolveDependencies_eq hg hg' h ht hordered
        (contains_iff.2 ⟨p.1, hknown, rfl⟩)]
    simp only [hlimit, dependentCandidates_eq hg hg' h, hconfirmed]

end Views

/-- **What is published later does not change an answer.** Queries of a known
revision as of a time have the same answer, or the same error, in a graph that
was extended after that time. -/
theorem resolve_eq_of_isExtendedAfter {revisions revisions' : List Revision}
    {constraints constraints' : List Constraint} {g g' : DependencyGraph}
    (hg : g = ofParts revisions constraints) (hg' : g' = ofParts revisions' constraints')
    {t : Int} (ht : 0 < t) (h : IsExtendedAfter t g g') (hordered : g'.IsOrdered)
    {c : Coordinate} (hc : g.contains c = true) (o : ResolveOptions) (transitive : Bool) :
    g'.resolveDependencies o c (some t) transitive = g.resolveDependencies o c (some t) transitive ∧
      g'.resolveDependents o c (some t) transitive = g.resolveDependents o c (some t) transitive :=
  ⟨resolveDependencies_eq hg hg' h ht hordered hc transitive,
    resolveDependents_eq hg hg' h ht hordered hc transitive⟩

/-- The sample with a later release of a library, which asks for more than the first one. -/
def laterSample : DependencyGraph :=
  let artifact (name : String) : Artifact := ⟨"org", name⟩
  let coordinate (name version : String) : Coordinate := ⟨"mvn", artifact name, version⟩
  ofParts
    [⟨coordinate "util" "2", 20⟩, ⟨coordinate "app" "1", 9⟩, ⟨coordinate "core" "1", 2⟩,
      ⟨coordinate "core" "2", 4⟩, ⟨coordinate "util" "1", 3⟩, ⟨coordinate "log" "1", 1⟩,
      ⟨coordinate "log" "2", 2⟩]
    [{ source := coordinate "app" "1", target := artifact "core", exclusions := [⟨"*", "log"⟩] },
      { source := coordinate "app" "1", target := artifact "util", isOptional := true },
      { source := coordinate "core" "1", target := artifact "log" },
      { source := coordinate "core" "2", target := artifact "log" },
      { source := coordinate "util" "2", target := artifact "log",
        ranges := (Range.ofText "[2,)").toOption.toList },
      { source := coordinate "util" "1", target := artifact "log",
        ranges := (Range.ofText "[1,2)").toOption.toList }]

theorem isExtendedAfter_laterSample : IsExtendedAfter 9 sample laterSample where
  mem_revisions := by
    simp only [sample, laterSample, mem_revisions_ofParts]
    decide +kernel
  released_later := by
    simp only [sample, laterSample, mem_revisions_ofParts]
    decide +kernel
  artifact_known := by
    have hknown : ∀ r ∈ laterSample.revisions, ∃ s ∈ sample.revisions, s.artifact = r.artifact := by
      simp only [sample, laterSample, mem_revisions_ofParts]
      decide +kernel
    intro r hr
    obtain ⟨s, hs, hartifact⟩ := hknown r hr
    exact List.ne_nil_of_mem (mem_revisionsOf.2 ⟨hs, hartifact⟩)
  constraints_eq := by
    simp only [sample, contains_ofParts]
    rfl

/-- What the application needed when it was released, asked for after that later release. -/
theorem resolve_eq_of_isExtendedAfter_laterSample :
    laterSample.resolveDependencies {} ⟨"mvn", ⟨"org", "app"⟩, "1"⟩ (some 9) true =
        sample.resolveDependencies {} ⟨"mvn", ⟨"org", "app"⟩, "1"⟩ (some 9) true ∧
      laterSample.resolveDependents {} ⟨"mvn", ⟨"org", "app"⟩, "1"⟩ (some 9) true =
        sample.resolveDependents {} ⟨"mvn", ⟨"org", "app"⟩, "1"⟩ (some 9) true := by
  have hordered : laterSample.IsOrdered := by
    refine isOrdered_of_no_three ?_
    simp only [laterSample, mem_revisions_ofParts]
    decide +kernel
  have happ : sample.contains ⟨"mvn", ⟨"org", "app"⟩, "1"⟩ = true := by
    rw [contains, revision?_sample]
    rfl
  exact resolve_eq_of_isExtendedAfter rfl rfl (by decide) isExtendedAfter_laterSample hordered
    happ {} true

end Stitch.DependencyGraph
