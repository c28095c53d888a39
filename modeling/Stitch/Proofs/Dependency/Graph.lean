/-
Views of dependency graphs.

* `mem_revisionsOf`, `mem_constraintsOf` and `mem_dependentsOf` say what each
  view holds.
* A graph that is made of parts knows every coordinate once
  (`coordinates_nodup`), so that a revision is found by its coordinate
  (`revision?_eq_some_iff`), and it lists the revisions of an artifact highest
  first (`pairwise_revisionsOf`) if these are transitively ordered.
-/
import Mathlib.Data.List.Nodup
import Stitch.Dependency.Graph
import Stitch.Proofs.Coordinate
import Stitch.Proofs.Distinct
import Stitch.Proofs.Sorting

namespace Stitch.DependencyGraph

variable {g : DependencyGraph}

theorem mem_revisionsOf {a : Artifact} {r : Revision} :
    r ∈ g.revisionsOf a ↔ r ∈ g.revisions ∧ r.artifact = a := by
  simp [revisionsOf]

theorem mem_constraintsOf {source : Coordinate} {c : Constraint} :
    c ∈ g.constraintsOf source ↔ c ∈ g.constraints ∧ c.source = source := by
  simp [constraintsOf]

theorem mem_dependentsOf {a : Artifact} {r : Revision} {c : Constraint} :
    (r, c) ∈ g.dependentsOf a ↔
      c ∈ g.constraints ∧ c.target = a ∧ g.revision? c.source = some r := by
  simp only [dependentsOf, List.mem_filterMap, List.mem_filter, beq_iff_eq, Option.map_eq_some_iff]
  constructor
  · rintro ⟨d, ⟨hd, htarget⟩, s, hs, heq⟩
    cases heq
    exact ⟨hd, htarget, hs⟩
  · rintro ⟨hc, htarget, hr⟩
    exact ⟨c, ⟨hc, htarget⟩, r, hr, rfl⟩

theorem mem_of_revision?_eq_some {source : Coordinate} {r : Revision}
    (h : g.revision? source = some r) : r ∈ g.revisions ∧ r.coordinate = source :=
  ⟨List.mem_of_find?_eq_some h, by simpa using List.find?_some h⟩

theorem contains_iff {c : Coordinate} :
    g.contains c = true ↔ ∃ r ∈ g.revisions, r.coordinate = c := by
  rw [contains, revision?, List.find?_isSome]
  simp

/-- The known revisions of each artifact are transitively ordered. -/
def IsOrdered (g : DependencyGraph) : Prop :=
  ∀ a, ∀ r ∈ g.revisionsOf a, ∀ s ∈ g.revisionsOf a, ∀ t ∈ g.revisionsOf a,
    r.atMost s → s.atMost t → r.atMost t

/-- Revisions of different artifacts are ordered by these. -/
theorem IsOrdered.atMost_trans (h : g.IsOrdered) {r s t : Revision} (hr : r ∈ g.revisions)
    (hs : s ∈ g.revisions) (ht : t ∈ g.revisions) (hrs : r.atMost s) (hst : s.atMost t) :
    r.atMost t :=
  Coordinate.atMost_trans_of hrs hst fun hartifact hartifact' =>
    h t.artifact r (mem_revisionsOf.2 ⟨hr, hartifact.trans hartifact'⟩) s
      (mem_revisionsOf.2 ⟨hs, hartifact'⟩) t (mem_revisionsOf.2 ⟨ht, rfl⟩) hrs hst

theorem IsOrdered.pairwise_sorted (h : g.IsOrdered) {rs : List Revision}
    (hsub : rs ⊆ g.revisions) : (Revision.sorted rs).Pairwise fun r s => r.atMost s :=
  pairwise_mergeSort_of_mem
    (fun _ hr _ hs _ ht => h.atMost_trans (hsub hr) (hsub hs) (hsub ht)) Revision.atMost_total

/-- The revisions of each artifact in a list are transitively ordered. -/
def AreOrdered (revisions : List Revision) : Prop :=
  ∀ r ∈ revisions, ∀ s ∈ revisions, ∀ t ∈ revisions, r.artifact = s.artifact →
    s.artifact = t.artifact → r.atMost s → s.atMost t → r.atMost t

theorem AreOrdered.subset {revisions revisions' : List Revision} (h : AreOrdered revisions)
    (hsub : revisions' ⊆ revisions) : AreOrdered revisions' :=
  fun r hr s hs t ht => h r (hsub hr) s (hsub hs) t (hsub ht)

theorem AreOrdered.isOrdered (h : AreOrdered g.revisions) : g.IsOrdered := by
  intro a r hr s hs t ht
  obtain ⟨hr, hra⟩ := mem_revisionsOf.1 hr
  obtain ⟨hs, hsa⟩ := mem_revisionsOf.1 hs
  obtain ⟨ht, hta⟩ := mem_revisionsOf.1 ht
  exact h r hr s hs t ht (hra.trans hsa.symm) (hsa.trans hta.symm)

/-- Up to two coordinates of each artifact are transitively ordered. -/
theorem areOrdered_of_no_three {revisions : List Revision}
    (h : ∀ r ∈ revisions, ∀ s ∈ revisions, ∀ t ∈ revisions,
      r.artifact = t.artifact → s.artifact = t.artifact → r.coordinate = s.coordinate ∨
        s.coordinate = t.coordinate ∨ r.coordinate = t.coordinate) : AreOrdered revisions := by
  intro r hr s hs t ht hrs hst hle hle'
  rw [Revision.atMost] at hle hle' ⊢
  rcases h r hr s hs t ht (hrs.trans hst) hst with heq | heq | heq
  · rwa [heq]
  · rwa [← heq]
  · rw [heq]
    exact Coordinate.atMost_refl t.coordinate

theorem isOrdered_of_no_three
    (h : ∀ r ∈ g.revisions, ∀ s ∈ g.revisions, ∀ t ∈ g.revisions,
      r.artifact = t.artifact → s.artifact = t.artifact → r = s ∨ s = t ∨ r = t) :
    g.IsOrdered :=
  (areOrdered_of_no_three fun r hr s hs t ht hrt hst =>
    (h r hr s hs t ht hrt hst).imp (congrArg Revision.coordinate)
      (Or.imp (congrArg Revision.coordinate) (congrArg Revision.coordinate))).isOrdered

/-! ### Graphs that are made of parts -/

section OfParts

variable {revisions : List Revision} {constraints : List Constraint}

theorem revisions_ofParts_perm : (ofParts revisions constraints).revisions.Perm
    (distinctBy Revision.same revisions) :=
  List.mergeSort_perm _ _

theorem mem_revisions_ofParts {r : Revision} :
    r ∈ (ofParts revisions constraints).revisions ↔ r ∈ distinctBy Revision.same revisions :=
  revisions_ofParts_perm.mem_iff

theorem mem_revisions_ofParts_iff_find? {r : Revision} :
    r ∈ (ofParts revisions constraints).revisions ↔
      revisions.find? (fun s => s.coordinate == r.coordinate) = some r :=
  mem_revisions_ofParts.trans (mem_distinctBy_iff Revision.coordinate)

/-- An empty graph knows no revision. -/
theorem revision?_ofParts_nil (constraints : List Constraint) (c : Coordinate) :
    (ofParts [] constraints).revision? c = none := by
  refine List.find?_eq_none.2 fun r hr => ?_
  cases mem_revisions_ofParts_iff_find?.1 hr

theorem AreOrdered.isOrdered_ofParts (h : AreOrdered revisions) (constraints : List Constraint) :
    (ofParts revisions constraints).IsOrdered :=
  (h.subset fun _ hr => (sublist_distinctBy _ _).subset (mem_revisions_ofParts.1 hr)).isOrdered

theorem contains_ofParts {c : Coordinate} :
    (ofParts revisions constraints).contains c =
      (distinctBy Revision.same revisions).any fun r => r.coordinate == c := by
  rw [Bool.eq_iff_iff, contains_iff, List.any_eq_true]
  simp only [mem_revisions_ofParts, beq_iff_eq]

theorem coordinates_nodup (revisions : List Revision) (constraints : List Constraint) :
    ((ofParts revisions constraints).revisions.map (·.coordinate)).Nodup := by
  exact ((revisions_ofParts_perm.map (·.coordinate)).nodup_iff).2
    (nodup_map_distinctBy Revision.coordinate revisions)

theorem eq_of_coordinate_eq {r s : Revision}
    (hr : r ∈ (ofParts revisions constraints).revisions)
    (hs : s ∈ (ofParts revisions constraints).revisions) (h : r.coordinate = s.coordinate) :
    r = s :=
  List.inj_on_of_nodup_map (coordinates_nodup revisions constraints) hr hs h

/-- A known revision keeps all constraints that are declared for it. -/
theorem mem_constraintsOf_ofParts {s : Revision} {c : Constraint}
    (hs : s ∈ (ofParts revisions constraints).revisions) :
    c ∈ (ofParts revisions constraints).constraintsOf s.coordinate ↔
      c ∈ constraints ∧ c.source = s.coordinate := by
  have hkept : c ∈ (ofParts revisions constraints).constraints ↔
      c ∈ constraints ∧ (distinctBy Revision.same revisions).any (·.coordinate == c.source) :=
    List.mem_filter
  rw [mem_constraintsOf, hkept, and_assoc]
  refine and_congr_right' (and_iff_right_of_imp fun hsource => List.any_eq_true.2 ?_)
  exact ⟨s, mem_revisions_ofParts.1 hs, by rw [hsource, beq_self_eq_true]⟩

theorem eq_of_atMost {r s : Revision} (hr : r ∈ (ofParts revisions constraints).revisions)
    (hs : s ∈ (ofParts revisions constraints).revisions) (hrs : r.atMost s) (hsr : s.atMost r) :
    r = s :=
  eq_of_coordinate_eq hr hs (Coordinate.atMost_antisymm hrs hsr)

theorem revision?_eq_some_iff {source : Coordinate} {r : Revision} :
    (ofParts revisions constraints).revision? source = some r ↔
      r ∈ (ofParts revisions constraints).revisions ∧ r.coordinate = source :=
  find?_eq_some_iff_of_nodup (coordinates_nodup revisions constraints)

theorem pairwise_revisions (h : (ofParts revisions constraints).IsOrdered) :
    (ofParts revisions constraints).revisions.Pairwise fun r s => r.atMost s :=
  h.pairwise_sorted fun _ hr => mem_revisions_ofParts.2 hr

theorem nodup_coordinates_of_nodup {rs : List Revision} (h : rs.Nodup)
    (hsub : rs ⊆ (ofParts revisions constraints).revisions) : (rs.map (·.coordinate)).Nodup :=
  h.map_on fun _ hr _ hs => eq_of_coordinate_eq (hsub hr) (hsub hs)

/-- Known revisions are sorted to the same list in whatever order they come. -/
theorem sorted_eq_of_perm (h : (ofParts revisions constraints).IsOrdered) {rs ss : List Revision}
    (hperm : rs.Perm ss) (hsub : rs ⊆ (ofParts revisions constraints).revisions) :
    Revision.sorted rs = Revision.sorted ss := by
  have htrans : ∀ r ∈ rs, ∀ s ∈ rs, ∀ t ∈ rs, r.atMost s → s.atMost t → r.atMost t :=
    fun r hr s hs t ht => h.atMost_trans (hsub hr) (hsub hs) (hsub ht)
  have hantisymm : ∀ r ∈ rs, ∀ s ∈ rs, r.atMost s → s.atMost r → r = s :=
    fun r hr s hs => eq_of_atMost (hsub hr) (hsub hs)
  exact mergeSort_eq_of_perm htrans Revision.atMost_total hantisymm hperm

theorem sorted_revisions (h : (ofParts revisions constraints).IsOrdered) :
    Revision.sorted (ofParts revisions constraints).revisions =
      (ofParts revisions constraints).revisions :=
  List.mergeSort_of_pairwise (pairwise_revisions h)

theorem pairwise_revisionsOf (h : (ofParts revisions constraints).IsOrdered) (a : Artifact) :
    ((ofParts revisions constraints).revisionsOf a).Pairwise fun r s => s.atMost r := by
  rw [revisionsOf, List.pairwise_reverse]
  exact (pairwise_revisions h).sublist List.filter_sublist

end OfParts

/-! ### A small graph -/

/-- An application, the two libraries that it needs and the one that these log with. -/
def sample : DependencyGraph :=
  let artifact (name : String) : Artifact := ⟨"org", name⟩
  let coordinate (name version : String) : Coordinate := ⟨"mvn", artifact name, version⟩
  ofParts
    [⟨coordinate "app" "1", 9⟩, ⟨coordinate "core" "1", 2⟩, ⟨coordinate "core" "2", 4⟩,
      ⟨coordinate "util" "1", 3⟩, ⟨coordinate "log" "1", 1⟩, ⟨coordinate "log" "2", 2⟩]
    [{ source := coordinate "app" "1", target := artifact "core", exclusions := [⟨"*", "log"⟩] },
      { source := coordinate "app" "1", target := artifact "util", isOptional := true },
      { source := coordinate "core" "1", target := artifact "log" },
      { source := coordinate "core" "2", target := artifact "log" },
      { source := coordinate "util" "1", target := artifact "log",
        ranges := (Range.ofText "[1,2)").toOption.toList }]

theorem revision?_sample :
    sample.revision? ⟨"mvn", ⟨"org", "app"⟩, "1"⟩ =
      some ⟨⟨"mvn", ⟨"org", "app"⟩, "1"⟩, 9⟩ :=
  revision?_eq_some_iff.2 ⟨mem_revisions_ofParts.2 (by decide +kernel), rfl⟩

theorem revisionsOf_sample_ne_nil : ∀ c ∈ sample.constraints, sample.revisionsOf c.target ≠ [] := by
  have hknown : ∀ c ∈ sample.constraints, ∃ r ∈ sample.revisions, r.artifact = c.target := by
    simp only [sample, mem_revisions_ofParts]
    decide +kernel
  intro c hc
  obtain ⟨r, hr, hartifact⟩ := hknown c hc
  exact List.ne_nil_of_mem (mem_revisionsOf.2 ⟨hr, hartifact⟩)

theorem isOrdered_sample : sample.IsOrdered := by
  refine isOrdered_of_no_three ?_
  simp only [sample, mem_revisions_ofParts]
  decide +kernel

end Stitch.DependencyGraph
