/-
Graphs that answer alike.

Queries look at the known revisions and, revision by revision, at the constraints of each.
How the constraints of different revisions are mixed in their list decides nothing
(`IsLike`): dependencies are searched along the revisions' own constraints, and while it may
put the possible dependents of a revision in another order, each of them is found at its
distance all the same.  The answer is sorted, and the distance of an artifact is the least
among its dependents, which is the first in any such order.

* **`IsLike.resolveDependencies_eq`** and **`IsLike.resolveDependents_eq`**: every query has
  the same answer.
-/
import Stitch.Proofs.Dependency.Dependents
import Stitch.Proofs.Search.Distance
import Stitch.Proofs.SortedMap

namespace Stitch.DependencyGraph

open Mediation

/-- The graphs have the same revisions, and the same constraints of each in the same order. -/
structure IsLike (g g' : DependencyGraph) : Prop where
  revisions : g.revisions = g'.revisions
  constraintsOf : ∀ c, g.constraintsOf c = g'.constraintsOf c

namespace IsLike

variable {g g' : DependencyGraph} (h : g.IsLike g') {o : ResolveOptions} {limit asOf : Option Int}
  {transitive : Bool}
include h

theorem revisionsOf_eq (a : Artifact) : g.revisionsOf a = g'.revisionsOf a := by
  rw [revisionsOf, revisionsOf, h.revisions]

theorem revision?_eq (c : Coordinate) : g.revision? c = g'.revision? c := by
  rw [revision?, revision?, h.revisions]

theorem mem_constraints_iff {d : Constraint} : d ∈ g.constraints ↔ d ∈ g'.constraints := by
  have hsource : ∀ {g : DependencyGraph}, d ∈ g.constraints ↔ d ∈ g.constraintsOf d.source :=
    fun {g} => by simp [mem_constraintsOf]
  rw [hsource, h.constraintsOf, ← hsource]

/-! ### Dependencies -/

theorem level_eq (visited : List Artifact) (depth : Nat) (frontier : List Selection) :
    level g o limit visited depth frontier = level g' o limit visited depth frontier := by
  have hfollowed : followedFrom g o visited depth = followedFrom g' o visited depth := by
    funext n
    rw [followedFrom, followedFrom, h.constraintsOf]
  have hcandidate : candidate? g limit = candidate? g' limit := by
    funext d
    rw [candidate?, candidate?, h.revisionsOf_eq]
  have hmissing : isMissing g = isMissing g' := by
    funext d
    rw [isMissing, isMissing, h.revisionsOf_eq]
  have hselection : selection? g limit = selection? g' limit := by
    funext f
    rw [selection?, selection?, hcandidate]
  have hproblem : problem? g limit = problem? g' limit := by
    funext f
    rw [problem?, problem?, hcandidate, hmissing]
  rw [level, level, hfollowed, hselection, hproblem, hmissing]

theorem resolveDependencies_eq (o : ResolveOptions) (c : Coordinate) (asOf : Option Int)
    (transitive : Bool) :
    g.resolveDependencies o c asOf transitive = g'.resolveDependencies o c asOf transitive := by
  have hlevels : ∀ visited depth frontier, levels g o (timeLimit asOf) visited depth frontier =
      levels g' o (timeLimit asOf) visited depth frontier := fun visited depth frontier =>
    levels_congr (P := fun _ => True) (fun _ => h.level_eq _ _ _) (fun _ _ _ => trivial)
      visited depth frontier fun _ _ => trivial
  simp only [resolveDependencies, h.revision?_eq, h.level_eq, hlevels]

theorem dependsOn_eq (r : Revision) (c : Coordinate) :
    g.dependsOn o limit transitive r c = g'.dependsOn o limit transitive r c := by
  rw [dependsOn, dependsOn, h.resolveDependencies_eq]

/-! ### Dependents -/

theorem step_iff (r s : Revision) :
    Search.Step g.revisions (g.possibleDependents o limit) r s ↔
      Search.Step g'.revisions (g'.possibleDependents o limit) r s := by
  simp only [Search.Step, mem_possibleDependents, h.revisions, h.mem_constraints_iff,
    h.revision?_eq]

/-- The same dependents are found and confirmed, at the same distances. -/
theorem confirmed_perm (o : ResolveOptions) (limit : Option Int) (transitive : Bool)
    (root : Revision) :
    ((g.dependentCandidates o limit root transitive).filter fun p =>
        g.dependsOn o limit transitive p.1 root.coordinate).Perm
      ((g'.dependentCandidates o limit root transitive).filter fun p =>
        g'.dependsOn o limit transitive p.1 root.coordinate) := by
  simp only [h.dependsOn_eq]
  exact (((Search.breadthFirst_perm h.step_iff).filter _).filter _)

end IsLike

/-- Nearer dependents come first. -/
theorem pairwise_dependentCandidates {g : DependencyGraph} {o : ResolveOptions}
    {limit : Option Int} {transitive : Bool} (root : Revision) :
    (g.dependentCandidates o limit root transitive).Pairwise fun p q => p.2 ≤ q.2 :=
  Search.pairwise_breadthFirst.sublist List.filter_sublist

theorem IsLike.resolveDependents_eq {revisions : List Revision} {constraints : List Constraint}
    {g g' : DependencyGraph} (h : g.IsLike g') (hg : g = ofParts revisions constraints)
    (hordered : g.IsOrdered) (o : ResolveOptions) (c : Coordinate) (asOf : Option Int)
    (transitive : Bool) :
    g.resolveDependents o c asOf transitive = g'.resolveDependents o c asOf transitive := by
  rw [resolveDependents, resolveDependents, h.revision?_eq]
  cases hroot : g'.revision? c with
  | none => rfl
  | some root =>
    rw [← h.revision?_eq] at hroot
    have hperm := h.confirmed_perm o (timeLimit asOf) transitive root
    have hrevisions := sorted_eq_of_perm (hg ▸ hordered) (hperm.map (·.1)) fun r hr => by
      obtain ⟨p, hp, rfl⟩ := List.mem_map.1 hr
      exact hg ▸ mem_revisions_of_mem_dependentCandidates (mem_of_revision?_eq_some hroot).1
        (List.mem_filter.1 hp).1
    dsimp only
    rw [hrevisions]
    congr 2
    refine SortedMap.eq_of_get?_eq fun text => ?_
    rw [SortedMap.get?_foldl_getD, SortedMap.get?_foldl_getD, map_find?_eq_of_perm hperm
      ((pairwise_dependentCandidates root).sublist List.filter_sublist)
      ((pairwise_dependentCandidates root).sublist List.filter_sublist)]

end Stitch.DependencyGraph
