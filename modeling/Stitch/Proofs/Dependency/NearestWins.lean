/-
Nothing that is followed is lost.

`Settled` lists what can become of a constraint of a selected revision:
its artifact is the queried one, or was selected nearer; it has no known
revision, and that is ignored; no known revision is allowed, and that is
reported; or its artifact is selected at the next distance, and no higher
revision is allowed.

* **`resolveDependencies_settled`**: in a transitive query every wanted
  constraint that no exclusion keeps out is settled.

A level selects the highest of what its constraints ask for, each of which asks
for the highest revision that it allows.  Both comparisons are made by the order
of coordinates, so the two chain up only where that order is transitive.
-/
import Stitch.Proofs.Dependency.Levels

namespace Stitch

namespace Mediation

variable {g : DependencyGraph} {o : ResolveOptions} {limit : Option Int}

/-- What can become of a constraint that a selection at the distance `d` declares. -/
inductive Settled (g : DependencyGraph) (o : ResolveOptions) (limit : Option Int)
    (r : Revision) (ls : List Level) (d : Nat) (c : Constraint) : Prop
  | root (h : c.target = r.artifact)
  | nearer {d' : Nat} {s : Selection} (hpos : 0 < d') (hle : d' ≤ d)
      (hs : s ∈ selectionsAt (root r) ls d') (hartifact : s.revision.artifact = c.target)
  | ignored (hunknown : g.revisionsOf c.target = []) (hignore : o.ignoreMissing = true)
  | reported (hnone : ∀ s ∈ g.revisionsOf c.target, ¬c.Allows limit s)
      (hdegraded : unresolvable limit c ∈ (resolution ls).degraded)
  | selected {t : Selection} (ht : t ∈ selectionsAt (root r) ls (d + 1))
      (hartifact : t.revision.artifact = c.target)
      (hhighest : ∀ s ∈ g.revisionsOf c.target, c.Allows limit s → s.atMost t.revision)

/-- What a level selects for an artifact is above all that a constraint allows. -/
theorem exists_highest_selected (hordered : g.IsOrdered)
    (hsorted : ∀ a, (g.revisionsOf a).Pairwise fun r s => s.atMost r)
    {visited : List Artifact} {depth : Nat} {frontier : List Selection} {l : Level}
    (h : level g o limit visited depth frontier = .ok l) {f : FollowedConstraint}
    (hf : f ∈ followed g o visited depth frontier) {best : Revision}
    (hbest : candidate? g limit f.constraint = some best) :
    ∃ t, (f.constraint.target, t) ∈ l.selected.entries ∧
      ∀ s ∈ g.revisionsOf f.constraint.target, f.constraint.Allows limit s →
        s.atMost t.revision := by
  have hasked : selection? g limit f =
      some (f.constraint.target, ⟨best, f.node.exclusions ++ f.constraint.exclusions⟩) :=
    selection?_eq_some_iff.2 ⟨hbest, rfl, rfl⟩
  obtain ⟨t, ht, hle⟩ := exists_selected_of_mem_followed (hordered _) h hf hasked
  refine ⟨t, ht, fun s hs hallows => ?_⟩
  have hknown := (mem_of_candidate?_eq_some hbest).1
  have hcandidate : s.atMost best := atMost_candidate? (hsorted _) hbest hs hallows
  exact hordered _ s hs best hknown t.revision (mem_revisionsOf_of_mem_selected h ht)
    hcandidate hle

end Mediation

namespace DependencyGraph

open Mediation

/-- An artifact that was met before a level is the queried one or was selected nearer. -/
theorem settled_of_mem_metBefore {g : DependencyGraph} {o : ResolveOptions}
    {asOf : Option Int} {transitive : Bool} {r : Revision} {ls : List Level}
    (hls : g.queryLevels o r asOf transitive = .ok ls) {d : Nat} {c : Constraint}
    (hmet : c.target ∈ metBefore [r.artifact] ls d) :
    Settled g o (timeLimit asOf) r ls d c := by
  rcases mem_metBefore_iff.1 hmet with hroot | ⟨i, hi, l, hl, hkey⟩
  · exact .root (List.mem_singleton.1 hroot)
  · obtain ⟨⟨a, s⟩, hs, rfl⟩ := List.mem_map.1 hkey
    have hknown := mem_revisionsOf_of_mem_selected (level_of_queryLevels hls hl) hs
    exact .nearer (Nat.succ_pos i) hi (mem_selectionsAt_succ.2 ⟨l, _, hl, hs⟩)
      (mem_revisionsOf.1 hknown).2

/-- **The nearest wins, and no branch is lost.** In a transitive query every
constraint of a selected revision is settled, if it is wanted at its distance
and no inherited exclusion keeps its target out. -/
theorem resolveDependencies_settled {revisions : List Revision} {constraints : List Constraint}
    {g : DependencyGraph} (hg : g = ofParts revisions constraints) (hordered : g.IsOrdered)
    {o : ResolveOptions} {c : Coordinate} {asOf : Option Int} {res : Resolution}
    (h : g.resolveDependencies o c asOf true = .ok res) :
    ∃ r ls, g.revision? c = some r ∧ g.queryLevels o r asOf true = .ok ls ∧
      res = resolution ls ∧
      ∀ d, ∀ n ∈ selectionsAt (root r) ls d, ∀ c ∈ g.constraintsOf n.revision.coordinate,
        follows o (d + 1) c = true →
        (∀ e ∈ n.exclusions, e.matchesArtifact c.target = false) →
        Settled g o (timeLimit asOf) r ls d c := by
  have hsorted : ∀ a, (g.revisionsOf a).Pairwise fun r s => s.atMost r := by
    subst hg
    exact pairwise_revisionsOf hordered
  obtain ⟨r, ls, hr, hls, rfl⟩ := resolveDependencies_eq_ok_iff.1 h
  refine ⟨r, ls, hr, hls, rfl, fun d n hn c hc hfollows hexclusions => ?_⟩
  by_cases hmet : c.target ∈ metBefore [r.artifact] ls d
  · exact settled_of_mem_metBefore hls hmet
  obtain ⟨l, hl⟩ := exists_level_of_queryLevels hls hn
  have hlevel := level_of_queryLevels hls hl
  have hf : ⟨n, c⟩ ∈ followed g o (metBefore [r.artifact] ls d) (d + 1)
      (selectionsAt (root r) ls d) :=
    mem_followed_iff.2 ⟨hn, hc, hfollows, hexclusions, hmet⟩
  cases hcandidate : candidate? g (timeLimit asOf) c with
  | some best =>
    obtain ⟨t, ht, hhighest⟩ := exists_highest_selected hordered hsorted hlevel hf hcandidate
    have hknown := mem_revisionsOf_of_mem_selected hlevel ht
    exact .selected (mem_selectionsAt_succ.2 ⟨l, _, hl, ht⟩) (mem_revisionsOf.1 hknown).2 hhighest
  | none =>
    by_cases hunknown : g.revisionsOf c.target = []
    · -- An unknown artifact would have ended the query, were it not ignored.
      refine .ignored hunknown ?_
      by_contra hstrict
      exact (level_eq_ok_iff.1 hlevel).1 _ hf (by simpa using hstrict) hunknown
    · have hreported := unresolvable_mem_degraded hlevel hf hunknown hcandidate
      exact .reported (candidate?_eq_none_iff.1 hcandidate)
        (mem_degraded_resolution.2 ⟨l, List.mem_of_getElem? hl, hreported⟩)

/-- What becomes of the constraints that the application leads to. -/
theorem resolveDependencies_settled_sample :
    ∃ res r ls,
      sample.resolveDependencies {} ⟨"mvn", ⟨"org", "app"⟩, "1"⟩ none true = .ok res ∧
      sample.queryLevels {} r none true = .ok ls ∧ res = resolution ls ∧
      ∀ d, ∀ n ∈ selectionsAt (root r) ls d, ∀ c ∈ sample.constraintsOf n.revision.coordinate,
        follows {} (d + 1) c = true →
        (∀ e ∈ n.exclusions, e.matchesArtifact c.target = false) →
        Settled sample {} (timeLimit none) r ls d c := by
  obtain ⟨res, h⟩ : ∃ res, sample.resolveDependencies {} ⟨"mvn", ⟨"org", "app"⟩, "1"⟩ none
      true = .ok res :=
    exists_resolveDependencies_ok revision?_sample fun _ => revisionsOf_sample_ne_nil
  obtain ⟨r, ls, -, hls, hres, hsettled⟩ := resolveDependencies_settled rfl isOrdered_sample h
  exact ⟨res, r, ls, h, hls, hres, hsettled⟩

end DependencyGraph

end Stitch
