/-
What the views of a dependency graph have to be.

The answers of a graph (`Views`) are described by the lists of revisions and constraints that
it is made of: which revisions are known and in which order they are listed, and for each
other answer the constraints that it keeps, in their order (`Views.Describe`).  There is only
one way to answer like this (`Views.Describe.eq`), and a graph that is made of parts does
(`DependencyGraph.describe_ofParts`).
-/
import Stitch.Proofs.Dependency.Graph

namespace Stitch

/-- The answers of a dependency graph. -/
@[ext]
structure Views where
  revisions : List Revision
  constraints : List Constraint
  revisionsOf : Artifact → List Revision
  constraintsOf : Coordinate → List Constraint
  dependentsOf : Artifact → List (Revision × Constraint)
  dangling : List Constraint

def DependencyGraph.views (g : DependencyGraph) : Views :=
  ⟨g.revisions, g.constraints, g.revisionsOf, g.constraintsOf, g.dependentsOf, g.dangling⟩

namespace Views

variable {v v' : Views} {revisions : List Revision} {constraints : List Constraint}

/-- The views of a list of revisions and a list of constraints. -/
structure Describe (v : Views) (revisions : List Revision) (constraints : List Constraint) :
    Prop where
  /-- The first revision of each coordinate is known. -/
  mem_revisions : ∀ r, r ∈ v.revisions ↔
    revisions.find? (fun s => s.coordinate == r.coordinate) = some r
  revisions_ascending : v.revisions.Pairwise fun r s => r.atMost s ∧ r ≠ s
  constraints : v.constraints =
    constraints.filter fun d => v.revisions.any fun r => r.coordinate == d.source
  mem_revisionsOf : ∀ a r, r ∈ v.revisionsOf a ↔ r ∈ v.revisions ∧ r.artifact = a
  revisionsOf_descending : ∀ a, (v.revisionsOf a).Pairwise fun r s => s.atMost r ∧ r ≠ s
  constraintsOf : ∀ c, v.constraintsOf c = v.constraints.filter fun d => d.source == c
  dependentsOf : ∀ a, (v.dependentsOf a).map Prod.snd =
    v.constraints.filter fun d => d.target == a
  dependentsOf_source : ∀ a, ∀ p ∈ v.dependentsOf a,
    p.1 ∈ v.revisions ∧ p.1.coordinate = p.2.source
  dangling : v.dangling =
    v.constraints.filter fun d => !v.revisions.any fun r => r.artifact == d.target

theorem Describe.eq_of_coordinate_eq (h : v.Describe revisions constraints) {r s : Revision}
    (hr : r ∈ v.revisions) (hs : s ∈ v.revisions) (heq : r.coordinate = s.coordinate) : r = s := by
  have hr := (h.mem_revisions r).1 hr
  rw [heq, (h.mem_revisions s).1 hs] at hr
  exact (Option.some.inj hr).symm

theorem eq_of_mem_iff (le : Revision → Revision → Bool) {rs ss : List Revision}
    (hantisymm : ∀ r ∈ rs, ∀ s ∈ ss, le r s → le s r → r = s)
    (hrs : rs.Pairwise fun r s => le r s ∧ r ≠ s) (hss : ss.Pairwise fun r s => le r s ∧ r ≠ s)
    (h : ∀ r, r ∈ rs ↔ r ∈ ss) : rs = ss :=
  List.Perm.eq_of_pairwise (fun r s hr hs => hantisymm r hr s hs) (hrs.imp And.left)
    (hss.imp And.left) ((List.perm_ext_iff_of_nodup (hrs.imp And.right) (hss.imp And.right)).2 h)

theorem Describe.eq (h : v.Describe revisions constraints)
    (h' : v'.Describe revisions constraints) : v = v' := by
  have hmem : ∀ r, r ∈ v.revisions ↔ r ∈ v'.revisions := fun r => by
    rw [h.mem_revisions, h'.mem_revisions]
  have hantisymm : ∀ r ∈ v.revisions, ∀ s ∈ v.revisions, r.atMost s → s.atMost r → r = s :=
    fun r hr s hs hrs hsr => h.eq_of_coordinate_eq hr hs (Coordinate.atMost_antisymm hrs hsr)
  have hrevisions : v.revisions = v'.revisions :=
    eq_of_mem_iff Revision.atMost (fun r hr s hs => hantisymm r hr s ((hmem s).2 hs))
      h.revisions_ascending h'.revisions_ascending hmem
  have hconstraints : v.constraints = v'.constraints := by
    rw [h.constraints, h'.constraints, hrevisions]
  refine Views.ext hrevisions hconstraints (funext fun a => ?_) (funext fun c => ?_)
    (funext fun a => ?_) ?_
  · have hmem' : ∀ r, r ∈ v.revisionsOf a ↔ r ∈ v'.revisionsOf a := fun r => by
      rw [h.mem_revisionsOf, h'.mem_revisionsOf, hrevisions]
    refine eq_of_mem_iff (fun r s => s.atMost r) (fun r hr s hs hsr hrs => ?_)
      (h.revisionsOf_descending a) (h'.revisionsOf_descending a) hmem'
    exact hantisymm r ((h.mem_revisionsOf a r).1 hr).1 s
      ((h.mem_revisionsOf a s).1 ((hmem' s).2 hs)).1 hrs hsr
  · rw [h.constraintsOf, h'.constraintsOf, hconstraints]
  · -- The constraint of a pair says which revision stands beside it.
    have hpairs : ∀ {w : Views}, w.Describe revisions constraints →
        (w.dependentsOf a).map some = ((w.dependentsOf a).map Prod.snd).map fun d =>
          (revisions.find? fun s => s.coordinate == d.source).map fun r => (r, d) := by
      intro w hw
      rw [List.map_map]
      refine List.map_congr_left fun p hp => ?_
      obtain ⟨hr, hsource⟩ := hw.dependentsOf_source a p hp
      rw [Function.comp_apply, ← hsource, (hw.mem_revisions p.1).1 hr, Option.map_some]
    refine List.map_injective_iff.2 (fun _ _ => Option.some.inj) ?_
    rw [hpairs h, hpairs h', h.dependentsOf, h'.dependentsOf, hconstraints]
  · rw [h.dangling, h'.dangling, hconstraints, hrevisions]

end Views

/-! ### The views of a graph that is made of parts -/

variable {revisions : List Revision} {constraints : List Constraint}

theorem DependencyGraph.describe_ofParts
    (hordered : (ofParts revisions constraints).IsOrdered) :
    (ofParts revisions constraints).views.Describe revisions constraints := by
  have hnodup : (ofParts revisions constraints).revisions.Nodup :=
    (coordinates_nodup revisions constraints).of_map _
  have hknown : ∀ c, ((ofParts revisions constraints).revisions.any fun r => r.coordinate == c) =
      (distinctBy Revision.same revisions).any fun r => r.coordinate == c := fun c => by
    rw [Bool.eq_iff_iff, List.any_eq_true, List.any_eq_true]
    simp only [mem_revisions_ofParts]
  have hdependents : ∀ d ∈ (ofParts revisions constraints).constraints,
      ∃ r, (ofParts revisions constraints).revision? d.source = some r := by
    intro d hd
    have hsource := (List.mem_filter.1 hd).2
    rw [← hknown] at hsource
    exact Option.isSome_iff_exists.1 (List.find?_isSome.2 (List.any_eq_true.1 hsource))
  constructor
  · exact fun r => @mem_revisions_ofParts_iff_find? revisions constraints r
  · exact (pairwise_revisions hordered).and hnodup
  · show (ofParts revisions constraints).constraints = _
    simp only [views, hknown]
    rfl
  · exact fun a r => mem_revisionsOf
  · exact fun a => (pairwise_revisionsOf hordered a).and
      (List.nodup_reverse.2 (hnodup.filter _))
  · exact fun c => rfl
  · intro a
    refine (List.map_filterMap ..).trans ?_
    rw [List.filterMap_congr (g := some) fun d hd => ?_, List.filterMap_some]
    · rfl
    · obtain ⟨r, hr⟩ := hdependents d (List.mem_filter.1 hd).1
      rw [hr, Option.map_some, Option.map_some]
  · rintro a ⟨r, d⟩ hp
    obtain ⟨-, -, hr⟩ := mem_dependentsOf.1 hp
    exact revision?_eq_some_iff.1 hr
  · refine List.filter_congr fun d _ => ?_
    rw [Bool.eq_iff_iff, List.isEmpty_iff, Bool.not_eq_true', List.any_eq_false,
      DependencyGraph.revisionsOf, List.reverse_eq_nil_iff, List.filter_eq_nil_iff]
    rfl

end Stitch
