/-
A direct query is the first level of a transitive one.

The direct query has one level, with which the transitive query begins.  What comes behind it
adds revisions of other artifacts, each at a greater distance (`mem_distances_singleton_iff`,
`get?_depth_eq_some_one_iff`).  So the first level can be told apart from the rest of an answer by
its distances, as far as the texts of artifacts tell these apart:

* **`resolveDependencies_direct`**: where a transitive query has an answer, the direct one has
  what that answer shows at distance 1.

Both answers are sorted, and revisions of different artifacts are transitively ordered whatever
their versions are; so the two lists agree with their order, not only as sets.
-/
import Stitch.Proofs.Dependency.Termination

namespace Stitch

namespace Mediation

variable {g : DependencyGraph} {o : ResolveOptions} {limit : Option Int}
  {visited : List Artifact} {depth : Nat} {frontier : List Selection} {l : Level}
  {rest ls : List Level}

theorem mem_distances_singleton_iff {key : String} {d : Nat} :
    (key, d) ∈ distances [l] ↔ (key, d) ∈ distances (l :: rest) ∧ d = 1 := by
  rw [mem_distances, mem_distances]
  constructor
  · rintro ⟨i, l', hl, a, ha, htext, rfl⟩
    cases i with
    | zero => exact ⟨⟨0, l', hl, a, ha, htext, rfl⟩, rfl⟩
    | succ i => cases hl
  · rintro ⟨⟨i, l', hl, a, ha, htext, hi⟩, rfl⟩
    obtain rfl : i = 0 := by omega
    exact ⟨0, l', hl, a, ha, htext, rfl⟩

theorem selectedRevisions_cons (l : Level) (rest : List Level) :
    selectedRevisions (l :: rest) = selectedRevisions [l] ++ selectedRevisions rest := by
  simp [selectedRevisions]

/-- Sorting and selecting revisions of different artifacts can be done in either order. -/
theorem filter_sorted {rs : List Revision} (h : (rs.map (·.artifact)).Nodup)
    (p : Revision → Bool) : (Revision.sorted rs).filter p = Revision.sorted (rs.filter p) := by
  have hkept : ((rs.filter p).map (·.artifact)).Nodup := h.sublist (List.filter_sublist.map _)
  refine List.Perm.eq_of_pairwise (fun r s hr hs hrs hsr => ?_)
    ((pairwise_sorted h).sublist List.filter_sublist) (pairwise_sorted hkept)
    (((List.mergeSort_perm rs _).filter p).trans (List.mergeSort_perm (rs.filter p) _).symm)
  have hcoordinate := Coordinate.atMost_antisymm hrs hsr
  exact List.inj_on_of_nodup_map h (List.mem_mergeSort.1 (List.mem_filter.1 hr).1)
    (List.mem_filter.1 (List.mem_mergeSort.1 hs)).1 (congrArg Coordinate.artifact hcoordinate)

theorem mem_selectedRevisions {r : Revision} :
    r ∈ selectedRevisions ls ↔ ∃ l ∈ ls, ∃ e ∈ l.selected.entries, e.2.revision = r := by
  simp only [selectedRevisions, List.mem_flatMap, List.mem_map]

section Answer

variable (h : levels g o limit visited depth frontier = .ok (l :: rest))
  (hvisited : visited.Nodup)
include h hvisited

theorem nodup_artifacts_of_levels :
    ((selectedRevisions (l :: rest)).map (·.artifact)).Nodup := by
  rw [map_artifact_selectedRevisions h]
  exact (nodup_of_levels h hvisited).of_append_right

variable (hcolon : ∀ r ∈ selectedRevisions (l :: rest), ':' ∉ r.artifact.group.toList)
include hcolon

theorem nodup_keys_of_levels : ((distances (l :: rest)).map (·.1)).Nodup := by
  refine nodup_keys_distances h hvisited fun a ha => ?_
  rw [← map_artifact_selectedRevisions h] at ha
  obtain ⟨r, hr, rfl⟩ := List.mem_map.1 ha
  exact hcolon r hr

/-- The distances of an answer show which of its revisions the first level selects. -/
theorem get?_depth_eq_some_one_iff {r : Revision} (hr : r ∈ selectedRevisions (l :: rest)) :
    (resolution (l :: rest)).depth.get? r.artifact.text = some 1 ↔ r ∈ selectedRevisions [l] := by
  have hdepth : (resolution (l :: rest)).depth = .ofList (distances (l :: rest)) := rfl
  rw [hdepth, SortedMap.get?_eq_some_iff,
    SortedMap.mem_entries_ofList (nodup_keys_of_levels h hvisited hcolon)]
  constructor
  · intro hmem
    obtain ⟨i, l', hl, a, ha, htext, hi⟩ := mem_distances.1 hmem
    obtain rfl : i = 0 := by omega
    cases hl
    -- What is selected for that artifact has the artifact of `r`, and so it is `r`.
    obtain ⟨e, he, rfl⟩ := List.mem_map.1 ha
    have hselected : e.2.revision ∈ selectedRevisions [l] :=
      mem_selectedRevisions.2 ⟨l, List.mem_singleton_self l, e, he, rfl⟩
    have hmem' : e.2.revision ∈ selectedRevisions (l :: rest) := by
      rw [selectedRevisions_cons]
      exact List.mem_append_left _ hselected
    have hartifact := artifact_eq_of_levels h List.mem_cons_self he
    rw [← hartifact] at htext
    have heq := Artifact.eq_of_text_eq (hcolon _ hmem') (hcolon r hr) htext
    rw [List.inj_on_of_nodup_map (nodup_artifacts_of_levels h hvisited) hr hmem' heq.symm]
    exact hselected
  · intro hselected
    obtain ⟨l', hl, e, he, rfl⟩ := mem_selectedRevisions.1 hselected
    obtain rfl := List.mem_singleton.1 hl
    rw [artifact_eq_of_levels h List.mem_cons_self he]
    exact mem_distances.2 ⟨0, l', rfl, e.1, List.mem_map_of_mem he, rfl, rfl⟩

/-- The revisions of the first level, in the order of the whole answer. -/
theorem revisions_resolution_singleton :
    (resolution [l]).revisions = (resolution (l :: rest)).revisions.filter fun r =>
      (resolution (l :: rest)).depth.get? r.artifact.text == some 1 := by
  have hnodup := nodup_artifacts_of_levels h hvisited
  have hdepth : ∀ r ∈ selectedRevisions (l :: rest),
      ((resolution (l :: rest)).depth.get? r.artifact.text == some 1) = true ↔
        r ∈ selectedRevisions [l] := by
    intro r hr
    rw [beq_iff_eq]
    exact get?_depth_eq_some_one_iff h hvisited hcolon hr
  show Revision.sorted (selectedRevisions [l]) =
    (Revision.sorted (selectedRevisions (l :: rest))).filter _
  rw [filter_sorted hnodup]
  rw [selectedRevisions_cons l rest] at hdepth hnodup ⊢
  have hdisjoint := (List.nodup_append'.1 hnodup.of_map).2.2
  rw [List.filter_append, List.filter_eq_self.2, List.filter_eq_nil_iff.2, List.append_nil]
  · -- No revision of a later level is one of the first.
    intro r hr hone
    exact hdisjoint ((hdepth r (List.mem_append_right _ hr)).1 hone) hr
  · exact fun r hr => (hdepth r (List.mem_append_left _ hr)).2 hr

theorem entries_depth_resolution_singleton :
    (resolution [l]).depth.entries =
      (resolution (l :: rest)).depth.entries.filter fun e => e.2 == 1 := by
  have hnodup := nodup_keys_of_levels h hvisited hcolon
  have hfirst : ((distances [l]).map (·.1)).Nodup := by
    rw [map_fst_distances, List.flatMap_cons, List.map_append] at hnodup
    rw [map_fst_distances, List.flatMap_singleton]
    exact hnodup.of_append_left
  refine SortedMap.entries_eq_filter fun e => ?_
  show e ∈ (SortedMap.ofList (distances [l])).entries ↔
    e ∈ (SortedMap.ofList (distances (l :: rest))).entries ∧ _
  rw [SortedMap.mem_entries_ofList hfirst, SortedMap.mem_entries_ofList hnodup, beq_iff_eq]
  exact mem_distances_singleton_iff

end Answer

end Mediation

/-- An answer that has of another what this shows at distance 1.  The texts of artifacts tell
them apart unless a group has a colon. -/
structure Resolution.IsFirstLevelOf (direct res : Resolution) : Prop where
  revisions : (∀ r ∈ res.revisions, ':' ∉ r.artifact.group.toList) →
    direct.revisions = res.revisions.filter fun r => res.depth.get? r.artifact.text == some 1
  depth : (∀ r ∈ res.revisions, ':' ∉ r.artifact.group.toList) →
    direct.depth.entries = res.depth.entries.filter fun e => e.2 == 1
  degraded : direct.degraded <+: res.degraded

namespace DependencyGraph

open Mediation

/-- **A direct query is the first level of a transitive one.**  Where the transitive query has an
answer, the direct one has an answer too: what the other shows at distance 1, in the same order,
and what the other could not resolve first. -/
theorem resolveDependencies_direct {g : DependencyGraph} {o : ResolveOptions} {c : Coordinate}
    {asOf : Option Int} {res : Resolution}
    (h : g.resolveDependencies o c asOf true = .ok res) :
    ∃ direct, g.resolveDependencies o c asOf false = .ok direct ∧ direct.IsFirstLevelOf res := by
  obtain ⟨r, ls, hr, hls, rfl⟩ := resolveDependencies_eq_ok_iff.1 h
  have hlevels : levels g o (timeLimit asOf) [r.artifact] 1 (root r) = .ok ls := hls
  obtain ⟨l, rest, rfl, hlevel, -⟩ := exists_of_levels_eq_ok hlevels
  have hroot : [r.artifact].Nodup := List.nodup_singleton r.artifact
  have hdirect : g.queryLevels o r asOf false = .ok [l] :=
    queryLevels_false_eq_ok_iff.2 ⟨l, rfl, hlevel⟩
  refine ⟨resolution [l], resolveDependencies_eq_ok_iff.2 ⟨r, [l], hr, hdirect, rfl⟩, ?_⟩
  have hselected : (∀ s ∈ (resolution (l :: rest)).revisions, ':' ∉ s.artifact.group.toList) →
      ∀ s ∈ selectedRevisions (l :: rest), ':' ∉ s.artifact.group.toList :=
    fun hcolon s hs => hcolon s (List.mem_mergeSort.2 hs)
  constructor
  case revisions =>
    exact fun hcolon => revisions_resolution_singleton hlevels hroot (hselected hcolon)
  case depth =>
    exact fun hcolon => entries_depth_resolution_singleton hlevels hroot (hselected hcolon)
  case degraded =>
    show [l].flatMap (·.degraded) <+: (l :: rest).flatMap (·.degraded)
    rw [List.flatMap_singleton, List.flatMap_cons]
    exact List.prefix_append _ _

/-- Of what the application needs in any way, it needs the second core itself. -/
theorem resolveDependencies_direct_cyclicSample :
    ∃ res direct,
      cyclicSample.resolveDependencies {} cyclicRoot.coordinate none true = .ok res ∧
      cyclicSample.resolveDependencies {} cyclicRoot.coordinate none false = .ok direct ∧
      direct.IsFirstLevelOf res ∧ direct.depth.entries = [("org:core", 1)] := by
  obtain ⟨res, hres⟩ : ∃ res,
      cyclicSample.resolveDependencies {} cyclicRoot.coordinate none true = .ok res :=
    exists_resolveDependencies_ok (r := cyclicRoot) rfl fun _ => by decide +kernel
  obtain ⟨direct, hdirect, hfirst⟩ := resolveDependencies_direct hres
  have hdepth : (cyclicSample.resolveDependencies {} cyclicRoot.coordinate none false).toOption.map
      (fun direct => direct.depth.entries) = some [("org:core", 1)] := by
    decide +kernel
  rw [hdirect] at hdepth
  exact ⟨res, direct, hres, hdirect, hfirst, Option.some.inj hdepth⟩

end DependencyGraph

end Stitch
