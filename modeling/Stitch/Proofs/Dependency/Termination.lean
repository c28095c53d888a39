/-
A transitive query comes to its end, with one version of each artifact.

`levelsWithin` is the search with a bound on its levels, at which it gives up.  What
bounds a search is not what it has still to follow, which a cycle brings back again and
again, but the known artifacts that it has not met: each level meets some of them, or
is the last one.

* `levelsWithin_eq_levels`: a search does not give up if it may go through more levels
  than there are artifacts to meet.
* `nodup_of_levels`: no artifact is selected twice, and none that was met before.
* `exists_concat_of_levels`: every level but the last selects something, so that no
  distance is left out.
* **`resolveDependencies_ends`** puts them together for the answers of queries.
-/
import Stitch.Proofs.Coordinate
import Stitch.Proofs.Dependency.Levels

namespace Stitch

namespace Mediation

variable {g : DependencyGraph} {o : ResolveOptions} {limit : Option Int}
  {visited : List Artifact} {depth : Nat} {frontier : List Selection} {ls : List Level}

/-! ### The number of levels -/

/-- A search that goes through so many levels at most, and gives up before the next. -/
def levelsWithin (g : DependencyGraph) (o : ResolveOptions) (limit : Option Int) :
    Nat → List Artifact → Nat → List Selection → Option (Except ResolveError (List Level))
  | 0, _, _, _ => none
  | n + 1, visited, depth, frontier =>
    match level g o limit visited depth frontier with
    | .error e => some (.error e)
    | .ok l =>
      if l.selected.entries.isEmpty then some (.ok [l])
      else (levelsWithin g o limit n (visited ++ l.selected.keys) (depth + 1)
        (l.selected.entries.map (·.2))).map ((l :: ·) <$> ·)

/-- A search ends, with or without an answer, if it may go through more levels than
there are artifacts to meet. -/
theorem levelsWithin_eq_levels {n : Nat} (h : (unmet g visited).length < n) :
    levelsWithin g o limit n visited depth frontier =
      some (levels g o limit visited depth frontier) := by
  induction n generalizing visited depth frontier with
  | zero => exact absurd h (Nat.not_lt_zero _)
  | succ n ih =>
    rw [levelsWithin]
    cases hlevel : level g o limit visited depth frontier with
    | error e => rw [levels_eq_of_level_eq_error hlevel]
    | ok l =>
      rw [levels_eq_of_level_eq_ok hlevel]
      by_cases hempty : l.selected.entries = []
      · simp [hempty]
      · obtain ⟨e, he⟩ := List.exists_mem_of_ne_nil _ hempty
        have ha : e.1 ∈ l.selected.keys := List.mem_map_of_mem he
        -- The artifact of the entry is met now and was not before.
        have hless := length_unmet_lt ha (mem_unmet_of_level hlevel ha)
        have hrest := @ih (visited ++ l.selected.keys) (depth + 1)
          (l.selected.entries.map (·.2)) (by omega)
        simp [hempty, hrest]

theorem length_unmet_le (g : DependencyGraph) (visited : List Artifact) :
    (unmet g visited).length ≤ g.knownArtifacts.length :=
  List.length_filter_le _ _

/-! ### What is selected -/

theorem not_mem_visited_of_level {l : Level}
    (h : level g o limit visited depth frontier = .ok l) {a : Artifact}
    (ha : a ∈ l.selected.keys) : a ∉ visited := by
  have hunmet := (List.mem_filter.1 (mem_unmet_of_level h ha)).2
  simpa using hunmet

/-- No artifact is selected twice, and none that was met before. -/
theorem nodup_of_levels (h : levels g o limit visited depth frontier = .ok ls)
    (hvisited : visited.Nodup) : (visited ++ ls.flatMap (·.selected.keys)).Nodup := by
  induction ls generalizing visited depth frontier with
  | nil =>
    obtain ⟨_, _, heq, -⟩ := exists_of_levels_eq_ok h
    cases heq
  | cons l rest ih =>
    obtain ⟨_, _, heq, hlevel, hrest⟩ := exists_of_levels_eq_ok h
    cases heq
    have hfirst : (visited ++ l.selected.keys).Nodup :=
      hvisited.append (SortedMap.nodup_keys l.selected) fun a ha hkey =>
        not_mem_visited_of_level hlevel hkey ha
    rw [List.flatMap_cons, ← List.append_assoc]
    rcases hrest with ⟨-, rfl⟩ | hrest
    · rwa [List.flatMap_nil, List.append_nil]
    · exact ih hrest hfirst

/-- Every level but the last selects something. -/
theorem exists_concat_of_levels (h : levels g o limit visited depth frontier = .ok ls) :
    ∃ front last, ls = front ++ [last] ∧ last.selected.entries = [] ∧
      ∀ l ∈ front, l.selected.entries ≠ [] := by
  fun_induction levels g o limit visited depth frontier generalizing ls with
  | case1 => cases h
  | case2 visited depth frontier l hlevel hempty =>
    cases h
    exact ⟨[], l, rfl, hempty, by simp⟩
  | case3 visited depth frontier l hlevel e es hentries ha hless ih =>
    cases hrest : levels g o limit (visited ++ l.selected.keys) (depth + 1)
        ((e :: es).map (·.2)) with
    | error e =>
      rw [hrest] at h
      cases h
    | ok rest =>
      rw [hrest] at h
      cases h
      obtain ⟨front, last, rfl, hlast, hfront⟩ := ih hrest
      refine ⟨l :: front, last, rfl, hlast, fun l' hl' => ?_⟩
      rcases List.mem_cons.1 hl' with rfl | hl'
      · simp [hentries]
      · exact hfront l' hl'

/-- Every selection is a revision of the artifact that it is selected for. -/
theorem artifact_eq_of_levels (h : levels g o limit visited depth frontier = .ok ls) {l : Level}
    (hl : l ∈ ls) {e : Artifact × Selection} (he : e ∈ l.selected.entries) :
    e.2.revision.artifact = e.1 := by
  obtain ⟨i, hi⟩ := List.mem_iff_getElem?.1 hl
  have hknown := mem_revisionsOf_of_mem_selected (level_of_levels h hi) he
  exact (DependencyGraph.mem_revisionsOf.1 hknown).2

/-- The revisions that levels select, in the order of the levels. -/
def selectedRevisions (ls : List Level) : List Revision :=
  ls.flatMap fun l => l.selected.entries.map (·.2.revision)

theorem map_artifact_selectedRevisions (h : levels g o limit visited depth frontier = .ok ls) :
    (selectedRevisions ls).map (·.artifact) = ls.flatMap (·.selected.keys) := by
  rw [selectedRevisions, List.map_flatMap]
  refine List.flatMap_congr fun l hl => ?_
  rw [List.map_map]
  exact List.map_congr_left fun e he => artifact_eq_of_levels h hl he

/-- Coordinates of different artifacts are transitively ordered, whatever their versions. -/
theorem pairwise_sorted {rs : List Revision} (h : (rs.map (·.artifact)).Nodup) :
    (Revision.sorted rs).Pairwise fun r s => r.atMost s := by
  refine pairwise_mergeSort_of_mem (fun r hr s hs t ht hrs hst => ?_) Revision.atMost_total
  refine Coordinate.atMost_trans_of hrs hst fun hartifact _ => ?_
  rw [List.inj_on_of_nodup_map h hr hs hartifact]
  exact hst

/-! ### Distances -/

/-- The artifacts that levels select, with their distances. -/
def distances (ls : List Level) : List (String × Nat) :=
  ls.zipIdx.flatMap fun (l, i) => l.selected.keys.map fun a => (a.text, i + 1)

theorem mem_distances {key : String} {d : Nat} :
    (key, d) ∈ distances ls ↔
      ∃ i l, ls[i]? = some l ∧ ∃ a ∈ l.selected.keys, a.text = key ∧ i + 1 = d := by
  simp only [distances, List.mem_flatMap, Prod.exists, List.mem_zipIdx_iff_getElem?, List.mem_map,
    Prod.mk.injEq]
  exact ⟨fun ⟨l, i, h⟩ => ⟨i, l, h⟩, fun ⟨i, l, h⟩ => ⟨l, i, h⟩⟩

/-- Nearer artifacts come first. -/
theorem pairwise_distances (ls : List Level) : (distances ls).Pairwise fun a b => a.2 ≤ b.2 := by
  refine List.pairwise_flatMap.2
    ⟨fun (l, i) _ => ?_, (pairwise_zipIdx ls).imp fun hlt a ha b hb => ?_⟩
  · rw [List.pairwise_map]
    exact List.pairwise_of_forall fun _ _ => Nat.le_refl _
  · obtain ⟨-, -, rfl⟩ := List.mem_map.1 ha
    obtain ⟨-, -, rfl⟩ := List.mem_map.1 hb
    exact Nat.succ_le_succ (Nat.le_of_lt hlt)

theorem map_fst_distances (ls : List Level) :
    (distances ls).map (·.1) = (ls.flatMap (·.selected.keys)).map (·.text) := by
  have hlevels : ls = ls.zipIdx.map (·.1) := (List.zipIdx_map_fst 0 ls).symm
  conv_rhs => rw [hlevels]
  rw [distances, List.map_flatMap, List.map_flatMap, List.flatMap_map]
  exact List.flatMap_congr fun e _ => by simp [Function.comp_def]

/-- Artifacts that are told apart by their texts have one distance each. -/
theorem nodup_keys_distances (h : levels g o limit visited depth frontier = .ok ls)
    (hvisited : visited.Nodup)
    (hcolon : ∀ a ∈ ls.flatMap (·.selected.keys), ':' ∉ a.group.toList) :
    ((distances ls).map (·.1)).Nodup := by
  rw [map_fst_distances]
  exact (nodup_of_levels h hvisited).of_append_right.map_on fun a ha b hb =>
    Artifact.eq_of_text_eq (hcolon a ha) (hcolon b hb)

/-- The distances are those from 1 up to the number of levels that select something. -/
theorem exists_mem_distances_iff (h : levels g o limit visited depth frontier = .ok ls) {d : Nat} :
    (∃ key, (key, d) ∈ distances ls) ↔ 1 ≤ d ∧ d ≤ ls.length - 1 := by
  obtain ⟨front, last, rfl, hlast, hfront⟩ := exists_concat_of_levels h
  rw [List.length_append, List.length_singleton, Nat.add_sub_cancel]
  constructor
  · rintro ⟨key, hmem⟩
    obtain ⟨i, l, hl, a, ha, -, rfl⟩ := mem_distances.1 hmem
    refine ⟨Nat.succ_pos i, Nat.lt_of_not_le fun hge => ?_⟩
    -- Behind the others there is only the last level, and it has no keys.
    rw [List.getElem?_append_right hge] at hl
    obtain rfl := List.mem_singleton.1 (List.mem_of_getElem? hl)
    rw [SortedMap.keys, hlast] at ha
    cases ha
  · rintro ⟨hpos, hle⟩
    obtain ⟨i, rfl⟩ := Nat.exists_eq_add_of_lt hpos
    have hi : 0 + i < front.length := hle
    have hl : (front ++ [last])[0 + i]? = some front[0 + i] := by
      rw [List.getElem?_append_left hi, List.getElem?_eq_getElem hi]
    obtain ⟨e, he⟩ := List.exists_mem_of_ne_nil _ (hfront _ (List.getElem_mem hi))
    exact ⟨_, mem_distances.2 ⟨0 + i, _, hl, e.1, List.mem_map_of_mem he, rfl, rfl⟩⟩

end Mediation

/-! ### Answers -/

/-- An answer with one version of each artifact, for a query about a coordinate. -/
structure Resolution.IsMediated (c : Coordinate) (res : Resolution) : Prop where
  sorted : res.revisions.Pairwise fun r s => r.atMost s
  nodup : (res.revisions.map (·.artifact)).Nodup
  artifact_not_mem : c.artifact ∉ res.revisions.map (·.artifact)
  /-- Every artifact has its distance.  The texts of artifacts tell them apart unless a
  group has a colon. -/
  keys_depth : (∀ r ∈ res.revisions, ':' ∉ r.artifact.group.toList) →
    res.depth.keys.Perm (res.revisions.map (·.artifact.text))
  /-- No distance is left out. -/
  depths : (∀ r ∈ res.revisions, ':' ∉ r.artifact.group.toList) →
    ∃ m, ∀ d, (∃ key, (key, d) ∈ res.depth.entries) ↔ 1 ≤ d ∧ d ≤ m

namespace DependencyGraph

open Mediation

variable {g : DependencyGraph} {o : ResolveOptions} {asOf : Option Int}

theorem isMediated_resolution {r : Revision} {ls : List Level}
    (h : g.queryLevels o r asOf true = .ok ls) : (resolution ls).IsMediated r.coordinate := by
  have hlevels : levels g o (timeLimit asOf) [r.artifact] 1 (root r) = .ok ls := h
  have hroot : [r.artifact].Nodup := List.nodup_singleton r.artifact
  have hperm : ((resolution ls).revisions.map (·.artifact)).Perm (ls.flatMap (·.selected.keys)) :=
    map_artifact_selectedRevisions hlevels ▸ (List.mergeSort_perm _ _).map _
  have hnodup := nodup_of_levels hlevels hroot
  rw [List.singleton_append, List.nodup_cons, ← hperm.mem_iff, ← hperm.nodup_iff] at hnodup
  have hentries (hcolon : ∀ s ∈ (resolution ls).revisions, ':' ∉ s.artifact.group.toList) :
      ((distances ls).map (·.1)).Nodup := by
    refine nodup_keys_distances hlevels hroot fun a ha => ?_
    obtain ⟨s, hs, rfl⟩ := List.mem_map.1 (hperm.mem_iff.2 ha)
    exact hcolon s hs
  refine ⟨pairwise_sorted ?_, hnodup.2, hnodup.1, fun hcolon => ?_, fun hcolon => ?_⟩
  · show ((selectedRevisions ls).map (·.artifact)).Nodup
    rw [map_artifact_selectedRevisions hlevels]
    exact (nodup_of_levels hlevels hroot).of_append_right
  · have hkeys := (SortedMap.entries_ofList_perm (hentries hcolon)).map (·.1)
    have htexts := (hperm.map (·.text)).symm
    rw [map_fst_distances] at hkeys
    rw [List.map_map] at htexts
    exact hkeys.trans htexts
  · refine ⟨ls.length - 1, fun d => ?_⟩
    rw [← exists_mem_distances_iff hlevels]
    exact exists_congr fun key => SortedMap.mem_entries_ofList (hentries hcolon)

/-- **A transitive query comes to its end, with one version of each artifact.**  It goes
through no more levels than there are known artifacts, and one, whether it has an answer or
not. -/
theorem resolveDependencies_ends (g : DependencyGraph) (o : ResolveOptions) (c : Coordinate)
    (asOf : Option Int) :
    (∀ r, g.revision? c = some r → ∃ result,
      levelsWithin g o (timeLimit asOf) (1 + g.knownArtifacts.length) [r.artifact] 1 (root r) =
        some result ∧
      g.resolveDependencies o c asOf true = result.map resolution) ∧
    ∀ res, g.resolveDependencies o c asOf true = .ok res → res.IsMediated c := by
  refine ⟨fun r hr => ?_, fun res h => ?_⟩
  · have hbound : (unmet g [r.artifact]).length < 1 + g.knownArtifacts.length :=
      Nat.lt_of_le_of_lt (length_unmet_le g _) (by omega)
    refine ⟨_, levelsWithin_eq_levels hbound, ?_⟩
    rw [resolveDependencies, hr]
    show resolution <$> levels g o (timeLimit asOf) [r.artifact] 1 (root r) = _
    rfl
  · obtain ⟨r, ls, hr, hls, rfl⟩ := resolveDependencies_eq_ok_iff.1 h
    rw [← (mem_of_revision?_eq_some hr).2]
    exact isMediated_resolution hls

/-- An application. -/
def cyclicRoot : Revision := ⟨⟨"mvn", ⟨"org", "app"⟩, "1"⟩, 9⟩

/-- The application needs itself, and two libraries that need each other, one of them in
two versions. -/
def cyclicSample : DependencyGraph :=
  let artifact (name : String) : Artifact := ⟨"org", name⟩
  let coordinate (name version : String) : Coordinate := ⟨"mvn", artifact name, version⟩
  { revisions := [cyclicRoot, ⟨coordinate "core" "1", 2⟩, ⟨coordinate "core" "2", 4⟩,
      ⟨coordinate "util" "1", 3⟩]
    constraints := [{ source := coordinate "app" "1", target := artifact "app" },
      { source := coordinate "app" "1", target := artifact "core" },
      { source := coordinate "core" "2", target := artifact "util" },
      { source := coordinate "util" "1", target := artifact "core" },
      { source := coordinate "util" "1", target := artifact "app" }] }

theorem resolveDependencies_ends_cyclicSample :
    ∃ res, cyclicSample.resolveDependencies {} cyclicRoot.coordinate none true = .ok res ∧
      res.IsMediated cyclicRoot.coordinate ∧
      res.depth.entries = [("org:core", 1), ("org:util", 2)] := by
  obtain ⟨hends, hmediated⟩ := resolveDependencies_ends cyclicSample {} cyclicRoot.coordinate none
  obtain ⟨result, hwithin, hresult⟩ := hends cyclicRoot rfl
  have hdepth : (levelsWithin cyclicSample {} (timeLimit none)
      (1 + cyclicSample.knownArtifacts.length) [cyclicRoot.artifact] 1 (root cyclicRoot)).map
        (fun result => result.toOption.map fun ls => (resolution ls).depth.entries) =
      some (some [("org:core", 1), ("org:util", 2)]) := by
    decide +kernel
  rw [hwithin, Option.map_some, Option.some.injEq] at hdepth
  cases result with
  | error e => cases hdepth
  | ok ls => exact ⟨resolution ls, hresult, hmediated _ hresult, Option.some.inj hdepth⟩

end DependencyGraph

end Stitch
