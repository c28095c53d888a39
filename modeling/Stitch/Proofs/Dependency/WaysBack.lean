/-
What an answer about dependents lists.

A step back leads from a revision to one that could depend on it (`StepBack`), and the
search for dependents goes along such steps (`step_iff_stepBack`).

* `IsDistanceBack` is the length of the shortest ways back to a revision, and every
  candidate has that distance (`isDistanceBack_of_mem_dependentCandidates`).
* **`resolveDependents_sound`**: an answer lists dependents, each once, with the least
  distance of each artifact.

A step only compares the release times at its two ends.  That no dependent is older than the
queried revision is an induction along a way to it (`WayBack.released_le`).  The candidates
come nearest first, and confirming them takes some of them out but leaves the others in that
order; so the first one of an artifact that stays is also the nearest that stays.
-/
import Mathlib.Order.Bounds.Basic
import Stitch.Proofs.Dependency.Dependents
import Stitch.Proofs.Search.Distance

namespace Stitch

namespace DependencyGraph

open Mediation

/-! ### Ways back -/

/-- A known revision that could depend on `r`: a constraint of it in a wanted scope is
satisfied by `r`, and it was released no earlier than `r`, and in time. -/
structure StepBack (g : DependencyGraph) (o : ResolveOptions) (limit : Option Int)
    (r s : Revision) : Prop where
  known : s ∈ g.revisions
  declares : ∃ c ∈ g.constraintsOf s.coordinate, c.target = r.artifact ∧ c.scope ∈ o.scopes ∧
    c.isSatisfiedBy r.coordinate.parsedVersion = true
  released_le : r.released ≤ s.released
  inTime : ∀ t, limit = some t → s.released ≤ t

/-- So many steps back lead from `x` to a revision. -/
inductive WayBack (g : DependencyGraph) (o : ResolveOptions) (limit : Option Int)
    (x : Revision) : Nat → Revision → Prop
  | start : WayBack g o limit x 0 x
  | step {n : Nat} {r s : Revision} (hway : WayBack g o limit x n r)
    (hstep : g.StepBack o limit r s) : WayBack g o limit x (n + 1) s

/-- The length of the shortest ways back to a revision. -/
def IsDistanceBack (g : DependencyGraph) (o : ResolveOptions) (limit : Option Int)
    (x r : Revision) (n : Nat) : Prop :=
  IsLeast { n | g.WayBack o limit x n r } n

variable {g : DependencyGraph} {o : ResolveOptions} {limit asOf : Option Int} {transitive : Bool}
  {x r s : Revision} {n : Nat}

theorem WayBack.released_le (h : g.WayBack o limit x n r) : x.released ≤ r.released := by
  induction h with
  | start => exact Int.le_refl _
  | step _ hstep ih => exact Int.le_trans ih hstep.released_le

/-- What a way ends with is in time, unless the way has no steps. -/
theorem WayBack.inTime (h : g.WayBack o limit x n r) (hpos : 0 < n) :
    ∀ t, limit = some t → r.released ≤ t := by
  cases h with
  | start => exact absurd hpos (Nat.lt_irrefl 0)
  | step _ hstep => exact hstep.inTime

/-- Only the queried revision itself is at no distance. -/
theorem IsDistanceBack.ne (h : g.IsDistanceBack o limit x r n) (hpos : 0 < n) : r ≠ x := by
  intro heq
  have hle : n ≤ 0 := h.2 (show g.WayBack o limit x 0 r from heq ▸ .start)
  omega

/-! ### What the search finds -/

section OfParts

variable {revisions : List Revision} {constraints : List Constraint}
  (hg : g = ofParts revisions constraints)
include hg

theorem step_iff_stepBack :
    Search.Step g.revisions (g.possibleDependents o limit) r s ↔ g.StepBack o limit r s := by
  have hrevision : ∀ {c : Coordinate},
      g.revision? c = some s ↔ s ∈ g.revisions ∧ s.coordinate = c := by
    subst hg
    exact revision?_eq_some_iff
  constructor
  · rintro ⟨hnext, hs⟩
    obtain ⟨c, hc, htarget, hsource, hscope, hsatisfied, hreleased, htime⟩ :=
      mem_possibleDependents.1 hnext
    have hdeclared : c ∈ g.constraintsOf s.coordinate :=
      mem_constraintsOf.2 ⟨hc, (hrevision.1 hsource).2.symm⟩
    exact ⟨hs, ⟨c, hdeclared, htarget, hscope, hsatisfied⟩, hreleased, htime⟩
  · rintro ⟨hs, ⟨c, hdeclared, htarget, hscope, hsatisfied⟩, hreleased, htime⟩
    obtain ⟨hc, hsource⟩ := mem_constraintsOf.1 hdeclared
    exact ⟨mem_possibleDependents.2 ⟨c, hc, htarget, hrevision.2 ⟨hs, hsource.symm⟩, hscope,
      hsatisfied, hreleased, htime⟩, hs⟩

theorem reaches_iff_wayBack :
    Search.Reaches g.revisions (g.possibleDependents o limit) [x] n r ↔
      g.WayBack o limit x n r := by
  constructor
  · intro h
    induction h with
    | start ha =>
      rw [List.mem_singleton.1 ha]
      exact .start
    | step _ hstep ih => exact ih.step ((step_iff_stepBack hg).1 hstep)
  · intro h
    induction h with
    | start => exact .start (List.mem_singleton_self x)
    | step _ hstep ih => exact ih.step ((step_iff_stepBack hg).2 hstep)

/-- Every candidate comes with its distance. -/
theorem isDistanceBack_of_mem_dependentCandidates
    (h : (r, n) ∈ g.dependentCandidates o limit x transitive) :
    g.IsDistanceBack o limit x r n := by
  obtain ⟨hreaches, hleast⟩ := Search.mem_breadthFirst_iff.1 (mem_dependentCandidates.1 h).1
  refine ⟨(reaches_iff_wayBack hg).1 hreaches, fun m hm => Nat.le_of_not_lt fun hlt => ?_⟩
  exact hleast m hlt ((reaches_iff_wayBack hg).2 hm)

end OfParts

/-! ### What an answer is made of -/

/-- The candidates that are confirmed, with their distances. -/
def confirmedDependents (g : DependencyGraph) (o : ResolveOptions) (x : Revision)
    (asOf : Option Int) (transitive : Bool) : List (Revision × Nat) :=
  (g.dependentCandidates o (timeLimit asOf) x transitive).filter fun p =>
    g.dependsOn o (timeLimit asOf) transitive p.1 x.coordinate

theorem sublist_confirmedDependents :
    (g.confirmedDependents o x asOf transitive).Sublist
      (Search.breadthFirst g.revisions (g.possibleDependents o (timeLimit asOf)) [x]) :=
  List.filter_sublist.trans List.filter_sublist

theorem pairwise_confirmedDependents :
    (g.confirmedDependents o x asOf transitive).Pairwise fun p q => p.2 ≤ q.2 :=
  Search.pairwise_breadthFirst.sublist sublist_confirmedDependents

theorem nodup_confirmedDependents :
    ((g.confirmedDependents o x asOf transitive).map (·.1)).Nodup :=
  Search.nodup_breadthFirst.sublist (sublist_confirmedDependents.map _)

/-- The distances that an answer shows: of each artifact the first. -/
def firstDistances (ps : List (Revision × Nat)) : SortedMap String Nat :=
  ps.foldl (fun m p => m.alter p.1.artifact.text fun old => old.getD p.2) {}

theorem resolveDependents_eq_confirmed {c : Coordinate} (hx : g.revision? c = some x) :
    g.resolveDependents o c asOf transitive =
      .ok ⟨Revision.sorted ((g.confirmedDependents o x asOf transitive).map (·.1)),
        firstDistances (g.confirmedDependents o x asOf transitive), []⟩ := by
  rw [resolveDependents, hx]
  rfl

theorem get?_firstDistances (ps : List (Revision × Nat)) (key : String) :
    (firstDistances ps).get? key =
      (ps.find? fun p => p.1.artifact.text == key).map (·.2) := by
  rw [firstDistances, SortedMap.get?_foldl_getD (fun p : Revision × Nat => p.1.artifact.text) (·.2)]
  rfl

/-- Where revisions come nearest first, the distance of an artifact is that of its nearest. -/
theorem exists_nearest {ps : List (Revision × Nat)} (hsorted : ps.Pairwise fun p q => p.2 ≤ q.2)
    {p : Revision × Nat} (hp : p ∈ ps) :
    ∃ first ∈ ps, (firstDistances ps).get? p.1.artifact.text = some first.2 ∧
      first.1.artifact.text = p.1.artifact.text ∧
      ∀ q ∈ ps, q.1.artifact.text = p.1.artifact.text → first.2 ≤ q.2 := by
  obtain ⟨first, hfirst⟩ : ∃ first,
      ps.find? (fun q => q.1.artifact.text == p.1.artifact.text) = some first := by
    rw [← Option.isSome_iff_exists, List.find?_isSome]
    exact ⟨p, hp, BEq.rfl⟩
  have htext := List.find?_some hfirst
  refine ⟨first, List.mem_of_find?_eq_some hfirst, ?_, by simpa using htext, ?_⟩
  · rw [get?_firstDistances, hfirst, Option.map_some]
  obtain ⟨-, before, after, rfl, hbefore⟩ := List.find?_eq_some_iff_append.1 hfirst
  intro q hq hqtext
  rcases List.mem_append.1 hq with hq | hq
  · -- What stands before the first one is of another artifact.
    have hne := hbefore q hq
    simp [hqtext] at hne
  · rcases List.mem_cons.1 hq with rfl | hq
    · exact Nat.le_refl _
    · exact (List.pairwise_cons.1 (List.pairwise_append.1 hsorted).2.1).1 q hq

/-- What holds of a candidate that is confirmed. -/
structure IsConfirmed (g : DependencyGraph) (o : ResolveOptions) (x : Revision)
    (asOf : Option Int) (transitive : Bool) (p : Revision × Nat) : Prop where
  pos : 0 < p.2
  distance : g.IsDistanceBack o (timeLimit asOf) x p.1 p.2
  known : p.1 ∈ g.revisions
  dependsOn : ∃ deps, g.resolveDependencies o p.1.coordinate asOf transitive = .ok deps ∧
    deps.contains x.coordinate = true

theorem isConfirmed_of_mem {revisions : List Revision} {constraints : List Constraint}
    (hg : g = ofParts revisions constraints) (hx : x ∈ g.revisions) {p : Revision × Nat}
    (h : p ∈ g.confirmedDependents o x asOf transitive) :
    g.IsConfirmed o x asOf transitive p := by
  obtain ⟨hcandidate, hconfirmed⟩ := List.mem_filter.1 h
  exact ⟨(mem_dependentCandidates.1 hcandidate).2.1,
    isDistanceBack_of_mem_dependentCandidates hg hcandidate,
    mem_revisions_of_mem_dependentCandidates hx hcandidate, dependsOn_iff.1 hconfirmed⟩

/-- Where revisions come nearest first, each artifact has the least distance of its revisions. -/
theorem exists_isLeast_firstDistances {ps : List (Revision × Nat)}
    (hsorted : ps.Pairwise fun p q => p.2 ≤ q.2)
    (hdistance : ∀ p ∈ ps, g.IsDistanceBack o limit x p.1 p.2)
    (hcolon : ∀ p ∈ ps, ':' ∉ p.1.artifact.group.toList) {p : Revision × Nat} (hp : p ∈ ps) :
    ∃ d, (firstDistances ps).get? p.1.artifact.text = some d ∧
      IsLeast { d | ∃ q ∈ ps, q.1.artifact = p.1.artifact ∧
        g.IsDistanceBack o limit x q.1 d } d := by
  obtain ⟨first, hfirst, hget, htext, hleast⟩ := exists_nearest hsorted hp
  have hartifact := Artifact.eq_of_text_eq (hcolon first hfirst) (hcolon p hp) htext
  refine ⟨first.2, hget, ⟨first, hfirst, hartifact, hdistance first hfirst⟩, ?_⟩
  -- A revision has one distance only, the one that it was found at.
  rintro d ⟨q, hq, hsame, hd⟩
  rw [hd.unique (hdistance q hq)]
  exact hleast q hq (congrArg Artifact.text hsame)

end DependencyGraph

/-! ### Answers -/

/-- The answer to a query about the dependents of `x`. -/
structure Resolution.ListsDependents (g : DependencyGraph) (o : ResolveOptions) (x : Revision)
    (asOf : Option Int) (transitive : Bool) (res : Resolution) : Prop where
  ne : ∀ r ∈ res.revisions, r.coordinate ≠ x.coordinate
  nodup : (res.revisions.map (·.coordinate)).Nodup
  released_le : ∀ r ∈ res.revisions, x.released ≤ r.released
  inTime : ∀ t, asOf = some t → 0 < t → ∀ r ∈ res.revisions, r.released ≤ t
  dependsOn : ∀ r ∈ res.revisions, ∃ deps,
    g.resolveDependencies o r.coordinate asOf transitive = .ok deps ∧
      deps.contains x.coordinate = true
  /-- The order of coordinates need not be transitive, but neighbours are in order. -/
  sorted : res.revisions.IsChain fun r s => r.atMost s
  pairwise : g.IsOrdered → res.revisions.Pairwise fun r s => r.atMost s
  /-- An artifact is as far away as the nearest of its revisions that are listed.  The texts
  of artifacts tell them apart unless a group has a colon. -/
  depth : (∀ r ∈ res.revisions, ':' ∉ r.artifact.group.toList) → ∀ r ∈ res.revisions,
    ∃ d, res.depth.get? r.artifact.text = some d ∧
      IsLeast { d | ∃ s ∈ res.revisions, s.artifact = r.artifact ∧
        g.IsDistanceBack o (timeLimit asOf) x s d } d
  keys_depth : ∀ key ∈ res.depth.keys, ∃ r ∈ res.revisions, r.artifact.text = key

namespace DependencyGraph

/-- **Dependents are sound.**  The answer for a known revision lists others, each once and in
order, that were released no earlier and in time and whose own query contains it; and each of
their artifacts with the least distance of those that are listed. -/
theorem resolveDependents_sound {revisions : List Revision} {constraints : List Constraint}
    {g : DependencyGraph} (hg : g = ofParts revisions constraints) {x : Revision}
    (hx : x ∈ g.revisions) (o : ResolveOptions) (asOf : Option Int) (transitive : Bool) :
    ∃ res, g.resolveDependents o x.coordinate asOf transitive = .ok res ∧
      res.ListsDependents g o x asOf transitive := by
  have hroot : g.revision? x.coordinate = some x := by
    subst hg
    exact revision?_eq_some_iff.2 ⟨hx, rfl⟩
  refine ⟨_, resolveDependents_eq_confirmed hroot, ?_⟩
  have hconfirmed : ∀ p ∈ g.confirmedDependents o x asOf transitive,
      g.IsConfirmed o x asOf transitive p := fun p => isConfirmed_of_mem hg hx
  have hknown : (g.confirmedDependents o x asOf transitive).map (·.1) ⊆ g.revisions := by
    intro r hr
    obtain ⟨p, hp, rfl⟩ := List.mem_map.1 hr
    exact (hconfirmed p hp).known
  have hmem : ∀ {r}, r ∈ Revision.sorted ((g.confirmedDependents o x asOf transitive).map (·.1)) ↔
      ∃ p ∈ g.confirmedDependents o x asOf transitive, p.1 = r := by
    intro r
    rw [Revision.sorted, List.mem_mergeSort, List.mem_map]
  have hlisted : ∀ r ∈ Revision.sorted ((g.confirmedDependents o x asOf transitive).map (·.1)),
      ∃ n, g.IsConfirmed o x asOf transitive (r, n) := by
    intro r hr
    obtain ⟨p, hp, rfl⟩ := hmem.1 hr
    exact ⟨p.2, hconfirmed p hp⟩
  constructor
  case ne =>
    intro r hr heq
    obtain ⟨n, h⟩ := hlisted r hr
    subst hg
    exact h.distance.ne h.pos (eq_of_coordinate_eq h.known hx heq)
  case nodup =>
    subst hg
    refine ((List.mergeSort_perm _ Revision.atMost).map (·.coordinate)).nodup_iff.2 ?_
    exact nodup_coordinates_of_nodup nodup_confirmedDependents hknown
  case released_le =>
    intro r hr
    obtain ⟨n, h⟩ := hlisted r hr
    exact h.distance.1.released_le
  case inTime =>
    intro t hasOf hpos r hr
    obtain ⟨n, h⟩ := hlisted r hr
    exact WayBack.inTime h.distance.1 h.pos t (timeLimit_eq_some_iff.2 ⟨hasOf, hpos⟩)
  case dependsOn =>
    intro r hr
    obtain ⟨n, h⟩ := hlisted r hr
    exact h.dependsOn
  case sorted => exact isChain_mergeSort Revision.atMost_total _
  case pairwise => exact fun hordered => hordered.pairwise_sorted hknown
  case depth =>
    intro hcolon r hr
    obtain ⟨p, hp, rfl⟩ := hmem.1 hr
    obtain ⟨d, hget, hleast⟩ := exists_isLeast_firstDistances pairwise_confirmedDependents
      (fun q hq => (hconfirmed q hq).distance) (fun q hq => hcolon q.1 (hmem.2 ⟨q, hq, rfl⟩)) hp
    refine ⟨d, hget, ?_⟩
    simpa only [hmem, exists_exists_and_eq_and] using hleast
  case keys_depth =>
    intro key hkey
    rw [SortedMap.mem_keys_iff, get?_firstDistances, Option.isSome_map,
      List.find?_isSome] at hkey
    obtain ⟨p, hp, htext⟩ := hkey
    exact ⟨p.1, hmem.2 ⟨p, hp, rfl⟩, by simpa using htext⟩

/-- What is listed of the dependents of the first release of the log. -/
theorem resolveDependents_sound_sample :
    ∃ res, sample.resolveDependents {} ⟨"mvn", ⟨"org", "log"⟩, "1"⟩ (some 9) true = .ok res ∧
      res.ListsDependents sample {} ⟨⟨"mvn", ⟨"org", "log"⟩, "1"⟩, 1⟩ (some 9) true ∧
      res.revisions.Pairwise fun r s => r.atMost s := by
  have hlog : ⟨⟨"mvn", ⟨"org", "log"⟩, "1"⟩, 1⟩ ∈ sample.revisions :=
    mem_revisions_ofParts.2 (by decide +kernel)
  obtain ⟨res, hres, hlists⟩ := resolveDependents_sound rfl hlog {} (some 9) true
  exact ⟨res, hres, hlists, hlists.pairwise isOrdered_sample⟩

end DependencyGraph

end Stitch
