/-
Seed statistics count what can be reached.

The ball around some seeds holds the revisions from which so many edges, or fewer, lead to one of
them, and the closure of a ball what edges lead to from there.  Both are found by visits of their
own, the ball by one that stops at its radius and the closure by one that goes on from each
revision in turn (`perm_backwardBall`, `length_depthFirst_eq`); what they find depends neither on
the order in which edges are listed, nor on edges that lead in circles.

Each row counts the sets of its own seeds (`counts_row`).  These sets grow with the radius and with
the number of seeds, and so the counts do: **`seedStats_count_reachable`** puts this together.
-/
import Mathlib.Data.Set.Card
import Stitch.Dependency.SeedStat
import Stitch.Proofs.Dependency.RevisionGraph
import Stitch.Proofs.Search.Bounded
import Stitch.Proofs.Search.DepthFirst

namespace Stitch

namespace RevisionGraph

variable {g : RevisionGraph} {r s t : Revision} {n radius radius' : Nat} {seeds : List Coordinate}
  {S S' : Set Revision}

/-- The known ones of some seeds. -/
def known (g : RevisionGraph) (seeds : List Coordinate) : Set Revision :=
  {s | s ∈ g.revisions ∧ s.coordinate ∈ seeds}

/-- The revisions from which so many edges, or fewer, lead into a set. -/
def within (g : RevisionGraph) (radius : Nat) (targets : Set Revision) : Set Revision :=
  {r | ∃ s ∈ targets, ∃ n ≤ radius, g.LeadsTo r n s}

/-- The revisions to which edges lead from a set. -/
def reachable (g : RevisionGraph) (starts : Set Revision) : Set Revision :=
  {t | ∃ s ∈ starts, ∃ n, g.LeadsTo s n t}

/-- Each coordinate is known once, and edges join what is known. -/
structure IsSound (g : RevisionGraph) : Prop where
  nodup : (g.revisions.map (·.coordinate)).Nodup
  ends : ∀ e ∈ g.edges, e.1 ∈ g.revisions ∧ e.2 ∈ g.revisions

/-! ### Sets of revisions -/

theorem subset_within (g : RevisionGraph) (radius : Nat) (S : Set Revision) :
    S ⊆ g.within radius S :=
  fun s hs => ⟨s, hs, 0, Nat.zero_le _, .refl⟩

theorem subset_reachable (g : RevisionGraph) (S : Set Revision) : S ⊆ g.reachable S :=
  fun s hs => ⟨s, hs, 0, .refl⟩

theorem within_mono (hradius : radius ≤ radius') (hS : S ⊆ S') :
    g.within radius S ⊆ g.within radius' S' :=
  fun _ ⟨s, hs, n, hn, hpath⟩ => ⟨s, hS hs, n, Nat.le_trans hn hradius, hpath⟩

theorem reachable_mono (hS : S ⊆ S') : g.reachable S ⊆ g.reachable S' :=
  fun _ ⟨s, hs, n, hpath⟩ => ⟨s, hS hs, n, hpath⟩

/-- An edge in front of a path. -/
theorem LeadsTo.head (h : g.LeadsTo s n t) (hedge : (r, s) ∈ g.edges) : g.LeadsTo r (n + 1) t := by
  induction h with
  | refl => exact LeadsTo.refl.step hedge
  | step _ hlast ih => exact ih.step hlast

namespace IsSound

variable (h : g.IsSound)
include h

theorem nodup_revisions : g.revisions.Nodup := h.nodup.of_map _

theorem mem_first_of_leadsTo (hpath : g.LeadsTo r n s) (hs : s ∈ g.revisions) :
    r ∈ g.revisions := by
  induction hpath with
  | refl => exact hs
  | step _ hedge ih => exact ih (h.ends _ hedge).1

theorem mem_last_of_leadsTo (hpath : g.LeadsTo r n s) (hr : r ∈ g.revisions) :
    s ∈ g.revisions := by
  cases hpath with
  | refl => exact hr
  | step _ hedge => exact (h.ends _ hedge).2

theorem within_subset (hS : ∀ s ∈ S, s ∈ g.revisions) :
    ∀ r ∈ g.within radius S, r ∈ g.revisions :=
  fun _ ⟨s, hs, _, _, hpath⟩ => h.mem_first_of_leadsTo hpath (hS s hs)

theorem reachable_subset (hS : ∀ s ∈ S, s ∈ g.revisions) :
    ∀ t ∈ g.reachable S, t ∈ g.revisions :=
  fun _ ⟨s, hs, _, hpath⟩ => h.mem_last_of_leadsTo hpath (hS s hs)

/-! ### Visits -/

theorem mem_seedRevisions_iff : s ∈ g.seedRevisions seeds ↔ s ∈ g.known seeds := by
  have hfind : ∀ c, g.revision? c = some s ↔ s ∈ g.revisions ∧ s.coordinate = c :=
    fun c => find?_eq_some_iff_of_nodup h.nodup
  simp only [seedRevisions, List.mem_filterMap, hfind, known, Set.mem_ofPred_eq]
  constructor
  · rintro ⟨c, hc, hs, rfl⟩
    exact ⟨hs, hc⟩
  · rintro ⟨hs, hc⟩
    exact ⟨_, hc, hs, rfl⟩

theorem seedRevisions_subset : g.seedRevisions seeds ⊆ g.revisions :=
  fun _ hs => (h.mem_seedRevisions_iff.1 hs).1

theorem reaches_predecessors_iff :
    Search.Reaches g.revisions g.predecessors (g.seedRevisions seeds) n r ↔
      ∃ s ∈ g.known seeds, g.LeadsTo r n s := by
  constructor
  · intro hreaches
    induction hreaches with
    | start hr => exact ⟨_, h.mem_seedRevisions_iff.1 hr, .refl⟩
    | step _ hstep ih =>
      -- The search goes back, so its next step is an edge in front of the path.
      obtain ⟨s, hs, hpath⟩ := ih
      exact ⟨s, hs, hpath.head (mem_predecessors_iff.1 hstep.1)⟩
  · rintro ⟨s, hs, hpath⟩
    have hstart := hpath.reaches_predecessors h.ends (.start (h.mem_seedRevisions_iff.2 hs))
    rwa [Nat.zero_add] at hstart

theorem reaches_successors_iff :
    Search.Reaches g.revisions g.successors (g.seedRevisions seeds) n t ↔
      ∃ s ∈ g.known seeds, g.LeadsTo s n t := by
  constructor
  · intro hreaches
    induction hreaches with
    | start hr => exact ⟨_, h.mem_seedRevisions_iff.1 hr, .refl⟩
    | step _ hstep ih =>
      obtain ⟨s, hs, hpath⟩ := ih
      exact ⟨s, hs, hpath.step (mem_successors_iff.1 hstep.1)⟩
  · rintro ⟨s, hs, hpath⟩
    exact hpath.reaches_successors h.ends (h.mem_seedRevisions_iff.2 hs)

theorem mem_backwardBall_iff_within :
    r ∈ g.backwardBall seeds radius ↔ r ∈ g.within radius (g.known seeds) := by
  simp only [mem_backwardBall_iff, h.reaches_predecessors_iff]
  exact ⟨fun ⟨n, hn, s, hs, hpath⟩ => ⟨s, hs, n, hn, hpath⟩,
    fun ⟨s, hs, n, hn, hpath⟩ => ⟨n, hn, s, hs, hpath⟩⟩

theorem mem_forwardClosure_iff_reachable :
    t ∈ g.forwardClosure seeds ↔ t ∈ g.reachable (g.known seeds) := by
  simp only [mem_forwardClosure_iff, h.reaches_successors_iff]
  exact ⟨fun ⟨n, s, hs, hpath⟩ => ⟨s, hs, n, hpath⟩, fun ⟨s, hs, n, hpath⟩ => ⟨n, s, hs, hpath⟩⟩

end IsSound

theorem nodup_backwardBall : (g.backwardBall seeds radius).Nodup := by
  rw [backwardBall, Revision.sorted, (List.mergeSort_perm _ _).nodup_iff]
  exact Search.nodup_breadthFirst.sublist (List.filter_sublist.map _)

theorem nodup_forwardClosure : (g.forwardClosure seeds).Nodup := Search.nodup_breadthFirst

/-- The visit that ends at the radius finds the ball, in whatever order edges are listed. -/
theorem perm_backwardBall {back : Revision → List Revision}
    (hback : ∀ r s, r ∈ back s ↔ (r, s) ∈ g.edges) (seeds : List Coordinate) (radius : Nat) :
    ((Search.breadthFirstUpTo g.revisions back (g.seedRevisions seeds) radius).map (·.1)).Perm
      (g.backwardBall seeds radius) := by
  have hsteps : ∀ s r, Search.Step g.revisions back s r ↔
      Search.Step g.revisions g.predecessors s r :=
    fun s r => and_congr_left' ((hback r s).trans mem_predecessors_iff.symm)
  rw [Search.breadthFirstUpTo_eq_filter]
  exact (((Search.breadthFirst_perm hsteps).filter _).map _).trans (List.mergeSort_perm _ _).symm

/-- The visit that goes on from one seed to the next meets each revision of the closure once. -/
theorem length_depthFirst_eq (h : g.IsSound) {ahead : Revision → List Revision}
    (hahead : ∀ s t, t ∈ ahead s ↔ (s, t) ∈ g.edges) (seeds : List Coordinate) :
    (Search.depthFirst g.revisions ahead (g.seedRevisions seeds)).length =
      (g.forwardClosure seeds).length := by
  have hsteps : ∀ s t, Search.Step g.revisions ahead s t ↔
      Search.Step g.revisions g.successors s t :=
    fun s t => and_congr_left' ((hahead s t).trans mem_successors_iff.symm)
  exact ((Search.depthFirst_perm h.seedRevisions_subset).trans
    ((Search.breadthFirst_perm hsteps).map _)).length_eq

/-! ### Rows -/

/-- What a row counts: the seeds, the ball around them and the closure of the ball. -/
structure Counts (g : RevisionGraph) (S : Set Revision) (row : SeedStat) : Prop where
  seedRevisions : row.seedRevisions = S.ncard
  ball : row.ball = (g.within row.radius S).ncard
  closure : row.closure = (g.reachable (g.within row.radius S)).ncard

theorem ncard_eq_length {rs : List Revision} (hrs : rs.Nodup) (hS : ∀ r, r ∈ rs ↔ r ∈ S) :
    S.ncard = rs.length := by
  have hcoe : S = (rs.toFinset : Set Revision) := Set.ext fun r => by simp [hS]
  rw [hcoe, Set.ncard_coe_finset, List.toFinset_card_of_nodup hrs]

theorem finite_of_forall_mem (hS : ∀ r ∈ S, r ∈ g.revisions) : S.Finite :=
  g.revisions.finite_toSet.subset hS

namespace IsSound

variable (h : g.IsSound)
include h

/-- Revisions are known by their coordinates. -/
theorem known_map {rs : List Revision} (hsub : rs ⊆ g.revisions) (hS : ∀ r, r ∈ rs ↔ r ∈ S) :
    g.known (rs.map (·.coordinate)) = S := by
  ext s
  rw [← hS]
  constructor
  · rintro ⟨hs, hcoordinate⟩
    obtain ⟨r, hr, heq⟩ := List.mem_map.1 hcoordinate
    exact List.inj_on_of_nodup_map h.nodup (hsub hr) hs heq ▸ hr
  · exact fun hs => ⟨hsub hs, List.mem_map_of_mem hs⟩

theorem counts_row {rs : List Revision} (hrs : rs.Nodup) (hsub : rs ⊆ g.revisions)
    (hS : ∀ r, r ∈ rs ↔ r ∈ S) (radius count : Nat) :
    g.Counts S (SeedStat.row g radius count (rs.map (·.coordinate))) := by
  have hball : ∀ r, r ∈ g.backwardBall (rs.map (·.coordinate)) radius ↔ r ∈ g.within radius S :=
    fun r => by rw [h.mem_backwardBall_iff_within, h.known_map hsub hS]
  have hknown : g.backwardBall (rs.map (·.coordinate)) radius ⊆ g.revisions :=
    fun r hr => h.within_subset (fun s hs => hsub ((hS s).2 hs)) r ((hball r).1 hr)
  have hclosure : ∀ t, t ∈ g.forwardClosure
        ((g.backwardBall (rs.map (·.coordinate)) radius).map (·.coordinate)) ↔
      t ∈ g.reachable (g.within radius S) :=
    fun t => by rw [h.mem_forwardClosure_iff_reachable, h.known_map hknown hball]
  constructor
  · exact (List.length_map _).trans (ncard_eq_length hrs hS).symm
  · exact (List.length_map _).trans (ncard_eq_length nodup_backwardBall hball).symm
  · exact (ncard_eq_length nodup_forwardClosure hclosure).symm

variable {row row' : SeedStat}

/-- A row has no more seeds than its ball, and no more in its ball than in the closure. -/
theorem counts_le (hrow : g.Counts S row) (hS : ∀ r ∈ S, r ∈ g.revisions) :
    row.seedRevisions ≤ row.ball ∧ row.ball ≤ row.closure ∧
      row.closure ≤ g.revisions.length := by
  have hball : ∀ r ∈ g.within row.radius S, r ∈ g.revisions := h.within_subset hS
  have hclosure := h.reachable_subset hball
  rw [hrow.seedRevisions, hrow.ball, hrow.closure,
    ← ncard_eq_length (S := {r | r ∈ g.revisions}) h.nodup_revisions fun _ => .rfl]
  exact ⟨Set.ncard_le_ncard (subset_within g _ S) (finite_of_forall_mem hball),
    Set.ncard_le_ncard (subset_reachable g _) (finite_of_forall_mem hclosure),
    Set.ncard_le_ncard hclosure (finite_of_forall_mem fun _ => id)⟩

/-- At a greater radius, and with more seeds, no count is less. -/
theorem counts_mono (hrow : g.Counts S row) (hrow' : g.Counts S' row')
    (hradius : row.radius ≤ row'.radius) (hS : S ⊆ S') (hS' : ∀ r ∈ S', r ∈ g.revisions) :
    row.ball ≤ row'.ball ∧ row.closure ≤ row'.closure := by
  have hball : ∀ r ∈ g.within row'.radius S', r ∈ g.revisions := h.within_subset hS'
  have hmono : g.within row.radius S ⊆ g.within row'.radius S' := within_mono hradius hS
  rw [hrow.ball, hrow.closure, hrow'.ball, hrow'.closure]
  exact ⟨Set.ncard_le_ncard hmono (finite_of_forall_mem hball),
    Set.ncard_le_ncard (reachable_mono hmono) (finite_of_forall_mem (h.reachable_subset hball))⟩

end IsSound

end RevisionGraph

/-! ### Ranks -/

namespace PageRank

theorem size_layout (g : RevisionGraph) : (layout g).sources.size = g.revisions.length := by
  rw [layout]
  refine List.foldlRecOn (motive := fun l : Layout => l.sources.size = g.revisions.length) _ _ ?_ ?_
  · exact Array.size_replicate
  · rintro l hl ⟨s, t⟩ -
    exact Array.size_modify.trans hl

theorem size_iterate {l : Layout} {uniform : Float} {ranks : Array Float}
    (h : ranks.size = l.sources.size) (n : Nat) :
    (iterate l uniform n ranks).size = l.sources.size := by
  induction n generalizing ranks with
  | zero => exact h
  | succ n ih => exact ih (Array.size_map ..)

/-- Every revision is ranked, and ranked once. -/
theorem map_fst_ranked_perm (g : RevisionGraph) : ((ranked g).map (·.1)).Perm g.revisions := by
  rw [ranked]
  refine ((List.mergeSort_perm _ before).map _).trans ?_
  -- Nothing is cut off, as there are as many ranks as revisions.
  rw [List.map_fst_zip]
  rw [Array.length_toList, size_iterate (by rw [Array.size_replicate, size_layout]), size_layout]

/-- All artifacts are found among those of the ranked revisions. -/
theorem length_topArtifacts (g : RevisionGraph) (n : Nat) : (topArtifacts g n).length =
    min n (distinct (g.revisions.map Revision.artifact)).length := by
  have hperm : (distinct ((ranked g).map (·.1.artifact))).Perm
      (distinct (g.revisions.map Revision.artifact)) := by
    refine (List.perm_ext_iff_of_nodup (nodup_distinct _) (nodup_distinct _)).2 fun a => ?_
    have hmap := (map_fst_ranked_perm g).map Revision.artifact
    rw [List.map_map] at hmap
    rw [mem_distinct, mem_distinct]
    exact hmap.mem_iff
  rw [topArtifacts, List.length_take, hperm.length_eq]

end PageRank

namespace RevisionGraph

variable {g : RevisionGraph} {selection : SeedSelection} {p p' : Nat}

/-! ### Seeds -/

/-- How many artifacts, or revisions, are chosen. -/
def numberOfSeeds (g : RevisionGraph) : SeedSelection → Nat
  | .artifacts listed => listed.length
  | .topArtifacts n => min n (distinct (g.revisions.map Revision.artifact)).length
  | .topRevisions n => min n g.revisions.length

/-- The revisions of the first so many of what is chosen. -/
def firstSeeds (g : RevisionGraph) : SeedSelection → Nat → List Revision
  | .artifacts listed, p => g.revisionsOf (listed.take p)
  | .topArtifacts n, p => g.revisionsOf ((PageRank.topArtifacts g n).take p)
  | .topRevisions _, p => ((PageRank.ranked g).map (·.1)).take p

theorem revisionsOf_take_subset (artifacts : List Artifact) (hp : p ≤ p') :
    g.revisionsOf (artifacts.take p) ⊆ g.revisionsOf (artifacts.take p') := by
  intro r hr
  simp only [revisionsOf, List.mem_filter, List.contains_iff_mem] at hr ⊢
  exact ⟨hr.1, List.take_subset_take_left _ hp hr.2⟩

theorem firstSeeds_mono (selection : SeedSelection) (hp : p ≤ p') :
    g.firstSeeds selection p ⊆ g.firstSeeds selection p' := by
  cases selection with
  | artifacts listed => exact revisionsOf_take_subset listed hp
  | topArtifacts n => exact revisionsOf_take_subset _ hp
  | topRevisions n => exact List.take_subset_take_left _ hp

theorem firstSeeds_subset (selection : SeedSelection) (p : Nat) :
    g.firstSeeds selection p ⊆ g.revisions := by
  cases selection with
  | artifacts listed => exact List.filter_subset_self ..
  | topArtifacts n => exact List.filter_subset_self ..
  | topRevisions n =>
    exact List.Subset.trans (List.take_subset _ _) (PageRank.map_fst_ranked_perm g).subset

theorem IsSound.nodup_firstSeeds (h : g.IsSound) (selection : SeedSelection) (p : Nat) :
    (g.firstSeeds selection p).Nodup := by
  cases selection with
  | artifacts listed => exact h.nodup_revisions.filter _
  | topArtifacts n => exact h.nodup_revisions.filter _
  | topRevisions n =>
    exact ((PageRank.map_fst_ranked_perm g).nodup_iff.2 h.nodup_revisions).sublist
      (List.take_sublist _ _)

theorem sets_eq (artifacts : List Artifact) : seedSets.sets g artifacts =
    (List.range' 1 artifacts.length).map fun p =>
      (g.revisionsOf (artifacts.take p)).map (·.coordinate) := by
  rw [seedSets.sets, List.range'_eq_map_range, List.map_map]
  exact List.map_congr_left fun p _ => by rw [Function.comp_apply, Nat.add_comm]

theorem seedSets_eq (g : RevisionGraph) (selection : SeedSelection) : g.seedSets selection =
    (List.range' 1 (g.numberOfSeeds selection)).map fun p =>
      (g.firstSeeds selection p).map (·.coordinate) := by
  cases selection with
  | artifacts listed => exact sets_eq listed
  | topArtifacts n =>
    rw [numberOfSeeds, ← PageRank.length_topArtifacts]
    exact sets_eq _
  | topRevisions n =>
    have hlength : (((PageRank.ranked g).take n).map (·.1.coordinate)).length =
        g.numberOfSeeds (.topRevisions n) := by
      have hranked := (PageRank.map_fst_ranked_perm g).length_eq
      rw [List.length_map] at hranked
      rw [List.length_map, List.length_take, hranked, numberOfSeeds]
    rw [seedSets, hlength, List.range'_eq_map_range, List.map_map]
    refine List.map_congr_left fun p hp => ?_
    -- No more seeds are asked for than are chosen.
    have hp : p + 1 ≤ n := Nat.le_trans (List.mem_range.1 hp) (Nat.min_le_left _ _)
    rw [Function.comp_apply, Nat.add_comm 1, firstSeeds, ← List.map_take, ← List.map_take,
      List.take_take, Nat.min_eq_left hp, List.map_map]
    rfl

/-- The rows by their radii, and at each radius by the numbers of seeds. -/
theorem seedStats_eq (g : RevisionGraph) (selection : SeedSelection) (radius : Nat) :
    g.seedStats selection radius = (List.range' 1 radius).flatMap fun r =>
      (List.range' 1 (g.numberOfSeeds selection)).map fun p =>
        SeedStat.row g r p ((g.firstSeeds selection p).map (·.coordinate)) := by
  rw [seedStats, seedSets_eq, List.range'_eq_map_range (s := 1) (n := radius), List.flatMap_map]
  congr 1
  funext r
  -- Both lists of rows are read place by place; the places count from 0 and the seeds from 1.
  refine List.ext_getElem (by simp) fun i hi hi' => ?_
  simp [Nat.add_comm]

variable {radius : Nat} {row row' : SeedStat}

theorem radii_seedStats (g : RevisionGraph) (selection : SeedSelection) (radius : Nat) :
    (g.seedStats selection radius).map (fun row => (row.radius, row.seeds)) =
      (List.range' 1 radius).flatMap fun r =>
        (List.range' 1 (g.numberOfSeeds selection)).map fun p => (r, p) := by
  rw [seedStats_eq, List.map_flatMap]
  simp only [List.map_map]
  rfl

theorem IsSound.counts_of_mem_seedStats (h : g.IsSound)
    (hrow : row ∈ g.seedStats selection radius) :
    g.Counts {r | r ∈ g.firstSeeds selection row.seeds} row := by
  rw [seedStats_eq] at hrow
  obtain ⟨r, -, hrow⟩ := List.mem_flatMap.1 hrow
  obtain ⟨p, -, rfl⟩ := List.mem_map.1 hrow
  exact h.counts_row (h.nodup_firstSeeds selection p) (firstSeeds_subset selection p)
    (fun _ => .rfl) r p

/-! ### Main theorem -/

/-- The edges are the constraints in some scopes, on what satisfies them. -/
structure HasEdgesOf (g : RevisionGraph) (constraints : List Constraint) (scopes : List Scope) :
    Prop where
  nodup : g.edges.Nodup
  mem_iff : ∀ s t, (s, t) ∈ g.edges ↔ s ∈ g.revisions ∧ t ∈ g.revisions ∧
    ∃ c ∈ constraints, c.source = s.coordinate ∧ c.scope ∈ scopes ∧ c.target = t.artifact ∧
      c.isSatisfiedBy t.coordinate.parsedVersion = true

/-- A ball is the revisions near some seeds, in order, and a visit that looks no farther than its
radius finds it, however the edges to a revision are listed. -/
structure BallIsExact (g : RevisionGraph) (seeds : List Coordinate) (radius : Nat) : Prop where
  mem_iff : ∀ r, r ∈ g.backwardBall seeds radius ↔
    r ∈ g.revisions ∧ r ∈ g.within radius (g.known seeds)
  nodup : (g.backwardBall seeds radius).Nodup
  sorted : (g.backwardBall seeds radius).IsChain fun r s => r.atMost s
  visit : ∀ back : Revision → List Revision, (∀ r s, r ∈ back s ↔ (r, s) ∈ g.edges) →
    ((Search.breadthFirstUpTo g.revisions back (g.seedRevisions seeds) radius).map (·.1)).Perm
      (g.backwardBall seeds radius)

/-- A closure is what some seeds lead to, and a visit that goes on from one seed to the next meets
as many revisions, however the edges from a revision are listed. -/
structure ClosureIsExact (g : RevisionGraph) (seeds : List Coordinate) : Prop where
  mem_iff : ∀ t, t ∈ g.forwardClosure seeds ↔ t ∈ g.reachable (g.known seeds)
  count : (g.forwardClosure seeds).length = (g.reachable (g.known seeds)).ncard
  visit : ∀ ahead : Revision → List Revision, (∀ s t, t ∈ ahead s ↔ (s, t) ∈ g.edges) →
    (Search.depthFirst g.revisions ahead (g.seedRevisions seeds)).length =
      (g.forwardClosure seeds).length

/-- There is a row for each radius and each number of seeds, in this order, that counts what it
says; and the counts grow from one column to the next, with the radius and with the seeds. -/
structure StatsAreExact (g : RevisionGraph) (selection : SeedSelection) (radius : Nat) :
    Prop where
  rows : (g.seedStats selection radius).map (fun row => (row.radius, row.seeds)) =
    (List.range' 1 radius).flatMap fun r =>
      (List.range' 1 (g.numberOfSeeds selection)).map fun p => (r, p)
  counts : ∀ row ∈ g.seedStats selection radius,
    g.Counts {r | r ∈ g.firstSeeds selection row.seeds} row
  le : ∀ row ∈ g.seedStats selection radius, row.seedRevisions ≤ row.ball ∧
    row.ball ≤ row.closure ∧ row.closure ≤ g.revisions.length
  mono : ∀ row ∈ g.seedStats selection radius, ∀ row' ∈ g.seedStats selection radius,
    row.radius ≤ row'.radius → row.seeds ≤ row'.seeds →
      row.ball ≤ row'.ball ∧ row.closure ≤ row'.closure

theorem IsSound.ballIsExact (h : g.IsSound) (seeds : List Coordinate) (radius : Nat) :
    g.BallIsExact seeds radius where
  mem_iff r := by
    rw [h.mem_backwardBall_iff_within]
    exact (and_iff_right_of_imp (h.within_subset (fun _ hs => hs.1) r)).symm
  nodup := nodup_backwardBall
  sorted := isChain_mergeSort Revision.atMost_total _
  visit _ hback := perm_backwardBall hback seeds radius

theorem IsSound.closureIsExact (h : g.IsSound) (seeds : List Coordinate) :
    g.ClosureIsExact seeds where
  mem_iff _ := h.mem_forwardClosure_iff_reachable
  count := (ncard_eq_length nodup_forwardClosure fun _ => h.mem_forwardClosure_iff_reachable).symm
  visit _ hahead := length_depthFirst_eq h hahead seeds

theorem IsSound.statsAreExact (h : g.IsSound) (selection : SeedSelection) (radius : Nat) :
    g.StatsAreExact selection radius where
  rows := radii_seedStats g selection radius
  counts _ hrow := h.counts_of_mem_seedStats hrow
  le _ hrow := h.counts_le (h.counts_of_mem_seedStats hrow) (firstSeeds_subset selection _)
  mono _ hrow _ hrow' hradius hseeds :=
    h.counts_mono (h.counts_of_mem_seedStats hrow) (h.counts_of_mem_seedStats hrow') hradius
      (firstSeeds_mono selection hseeds) (firstSeeds_subset selection _)

end RevisionGraph

namespace DependencyGraph

theorem isSound_ofGraph (revisions : List Revision) (constraints : List Constraint)
    (scopes : List Scope) :
    (RevisionGraph.ofGraph (ofParts revisions constraints) scopes).IsSound :=
  ⟨coordinates_nodup revisions constraints, mem_revisions_of_mem_edges⟩

theorem hasEdgesOf_ofGraph (revisions : List Revision) (constraints : List Constraint)
    (scopes : List Scope) :
    (RevisionGraph.ofGraph (ofParts revisions constraints) scopes).HasEdgesOf constraints
      scopes where
  nodup := nodup_edges_ofGraph (coordinates_nodup revisions constraints).of_map
  mem_iff s t := by
    rw [mem_edges_ofGraph_iff]
    constructor
    · rintro ⟨hs, c, hc, hscope, ht, hsatisfied⟩
      obtain ⟨hdeclared, hsource⟩ := (mem_constraintsOf_ofParts hs).1 hc
      obtain ⟨ht, htarget⟩ := mem_revisionsOf.1 ht
      exact ⟨hs, ht, c, hdeclared, hsource, hscope, htarget.symm, hsatisfied⟩
    · rintro ⟨hs, ht, c, hdeclared, hsource, hscope, htarget, hsatisfied⟩
      exact ⟨hs, c, (mem_constraintsOf_ofParts hs).2 ⟨hdeclared, hsource⟩, hscope,
        mem_revisionsOf.2 ⟨ht, htarget.symm⟩, hsatisfied⟩

/-- **Seed statistics** of all revisions and constraints, whatever leads in circles or to itself.
An edge is a constraint in a wanted scope on what satisfies it, a ball the revisions from which a
seed can be reached within its radius, the closure all that can be reached, and the rows count
these for each radius and number of seeds. -/
theorem seedStats_count_reachable (revisions : List Revision) (constraints : List Constraint)
    (scopes : List Scope) :
    let known := ofParts revisions constraints
    let g := RevisionGraph.ofGraph known scopes
    g.HasEdgesOf constraints scopes ∧
    (∀ seeds radius, g.BallIsExact seeds radius ∧ (known.IsOrdered →
      (g.backwardBall seeds radius).Pairwise fun r s => r.atMost s)) ∧
    (∀ seeds, g.ClosureIsExact seeds) ∧
    ∀ selection radius, g.StatsAreExact selection radius := by
  intro known g
  have h : g.IsSound := isSound_ofGraph revisions constraints scopes
  refine ⟨hasEdgesOf_ofGraph revisions constraints scopes, fun seeds radius => ?_,
    h.closureIsExact, h.statsAreExact⟩
  have hball := h.ballIsExact seeds radius
  exact ⟨hball, fun hordered => hordered.pairwise_sorted fun r hr =>
    ((hball.mem_iff r).1 (List.mem_mergeSort.2 hr)).1⟩

/-- What could need the library that all log with, with the edges listed from the last on. -/
theorem seedStats_count_reachable_sample :
    let g := RevisionGraph.ofGraph sample Scope.followed
    let seeds : List Coordinate := [⟨"mvn", ⟨"org", "log"⟩, "1"⟩]
    (g.backwardBall seeds 1).Pairwise (fun r s => r.atMost s) ∧
      ((Search.breadthFirstUpTo g.revisions (fun s => (g.predecessors s).reverse)
        (g.seedRevisions seeds) 1).map (·.1)).Perm (g.backwardBall seeds 1) ∧
      (Search.depthFirst g.revisions (fun s => (g.successors s).reverse)
        (g.seedRevisions seeds)).length = (g.reachable (g.known seeds)).ncard ∧
      ∀ row ∈ g.seedStats (.artifacts [⟨"org", "log"⟩]) 2, ∀ row' ∈ g.seedStats
        (.artifacts [⟨"org", "log"⟩]) 2, row.radius ≤ row'.radius → row.seeds ≤ row'.seeds →
          row.ball ≤ row'.ball ∧ row.closure ≤ row'.closure := by
  intro g seeds
  have hball : g.BallIsExact seeds 1 :=
    ((seedStats_count_reachable _ _ Scope.followed).2.1 seeds 1).1
  have hordered : (g.backwardBall seeds 1).Pairwise fun r s => r.atMost s = true :=
    ((seedStats_count_reachable _ _ Scope.followed).2.1 seeds 1).2 isOrdered_sample
  have hclosure : g.ClosureIsExact seeds :=
    (seedStats_count_reachable _ _ Scope.followed).2.2.1 seeds
  have hstats : g.StatsAreExact (.artifacts [⟨"org", "log"⟩]) 2 :=
    (seedStats_count_reachable _ _ Scope.followed).2.2.2 _ 2
  refine ⟨hordered, hball.visit _ fun r s => ?_,
    (hclosure.visit _ fun s t => ?_).trans hclosure.count, hstats.mono⟩
  · rw [List.mem_reverse, RevisionGraph.mem_predecessors_iff]
  · rw [List.mem_reverse, RevisionGraph.mem_successors_iff]

end DependencyGraph

end Stitch
