/-
Queries that skip constraints on artifacts without a known revision, and queries that fail there.

`followedAlong` lists the constraints that a search follows, in the order in which it comes to
them: level by level, and on each level selection by selection.  A lenient query always has an
answer, and the strict query with the same other options looks at the same constraints one after
the other.  So it fails at the first of them that leads to an artifact without a known revision,
and if there is none it goes through the same levels (`levels_strict`).

* **`resolveDependencies_strict_or_missing`**: a strict query has the lenient answer, or fails with
  the first missing revision that the lenient query passes by.

The two searches part only where the strict one ends, so the induction is along the levels of the
lenient one, and nothing has to be said of a search that was stopped.
-/
import Stitch.Proofs.Dependency.Dependents
import Stitch.Proofs.Dependency.Termination

namespace Stitch

namespace ResolveOptions

/-- The options of a query that skips constraints on artifacts without a known revision. -/
def lenient (o : ResolveOptions) : ResolveOptions := { o with ignoreMissing := true }

/-- The options of a query that fails at such a constraint. -/
def strict (o : ResolveOptions) : ResolveOptions := { o with ignoreMissing := false }

end ResolveOptions

namespace Mediation

variable {g : DependencyGraph} {o : ResolveOptions} {limit : Option Int}
  {visited : List Artifact} {depth : Nat} {frontier : List Selection} {ls : List Level}

/-! ### What a search comes to -/

/-- The constraints that a search follows, in the order in which it comes to them. -/
def followedAlong (g : DependencyGraph) (o : ResolveOptions) (visited : List Artifact)
    (depth : Nat) (frontier : List Selection) (ls : List Level) : List FollowedConstraint :=
  (List.range ls.length).flatMap fun i =>
    followed g o (metBefore visited ls i) (depth + i) (selectionsAt frontier ls i)

theorem mem_followedAlong {f : FollowedConstraint} :
    f ∈ followedAlong g o visited depth frontier ls ↔ ∃ i < ls.length,
      f ∈ followed g o (metBefore visited ls i) (depth + i) (selectionsAt frontier ls i) := by
  simp only [followedAlong, List.mem_flatMap, List.mem_range]

/-- A search follows the constraints of its first level, and then those of the rest. -/
theorem followedAlong_cons (l : Level) :
    followedAlong g o visited depth frontier (l :: ls) =
      followed g o visited depth frontier ++ followedAlong g o (visited ++ l.selected.keys)
        (depth + 1) (l.selected.entries.map (·.2)) ls := by
  rw [followedAlong, List.length_cons, List.range_succ_eq_map, List.flatMap_cons,
    List.flatMap_map]
  congr 1
  · simp [metBefore, selectionsAt]
  · refine List.flatMap_congr fun i _ => ?_
    rw [metBefore_cons, selectionsAt_cons, show depth + (i + 1) = depth + 1 + i by omega]

/-- The first of some constraints that leads to an artifact without a known revision. -/
def firstMissing (g : DependencyGraph) (fs : List FollowedConstraint) :
    Option FollowedConstraint :=
  fs.find? fun f => isMissing g f.constraint

/-- How a strict query fails at a constraint. -/
def missingRevision (f : FollowedConstraint) : ResolveError :=
  .missingRevision f.node.revision.coordinate f.constraint.target

/-! ### Strict searches -/

theorem firstMissing_eq_none_iff {fs : List FollowedConstraint} :
    firstMissing g fs = none ↔ ∀ f ∈ fs, g.revisionsOf f.constraint.target ≠ [] := by
  rw [firstMissing, List.find?_eq_none]
  exact forall₂_congr fun f _ => not_congr isMissing_iff

theorem firstMissing_append (fs fs' : List FollowedConstraint) :
    firstMissing g (fs ++ fs') = (firstMissing g fs).or (firstMissing g fs') :=
  List.find?_append

/-- A lenient level cannot fail. -/
theorem level_lenient : level g o.lenient limit visited depth frontier =
    .ok ⟨select ((followed g o visited depth frontier).filterMap (selection? g limit)),
      (followed g o visited depth frontier).filterMap (problem? g limit)⟩ :=
  level_eq_ok_iff.2 ⟨fun _ _ hstrict => Bool.noConfusion hstrict, rfl⟩

theorem exists_levels_lenient (g : DependencyGraph) (o : ResolveOptions) (limit : Option Int)
    (visited : List Artifact) (depth : Nat) (frontier : List Selection) :
    ∃ ls, levels g o.lenient limit visited depth frontier = .ok ls :=
  exists_levels_ok (fun hstrict => Bool.noConfusion hstrict) limit visited depth frontier

/-- A strict level fails at the first constraint that a lenient one skips. -/
theorem level_strict_of_some {f : FollowedConstraint}
    (h : firstMissing g (followed g o visited depth frontier) = some f) :
    level g o.strict limit visited depth frontier = .error (missingRevision f) := by
  have hfind : (followed g o.strict visited depth frontier).find? (fun f =>
      !o.strict.ignoreMissing && isMissing g f.constraint) = some f := h
  simp only [level]
  rw [← followed, hfind, missingRevision]

theorem level_strict_of_none (h : firstMissing g (followed g o visited depth frontier) = none) :
    level g o.strict limit visited depth frontier =
      level g o.lenient limit visited depth frontier := by
  rw [level_lenient]
  exact level_eq_ok_iff.2 ⟨fun f hf _ => firstMissing_eq_none_iff.1 h f hf, rfl⟩

/-- A strict search fails at the first constraint that the lenient one skips. -/
theorem levels_strict (h : levels g o.lenient limit visited depth frontier = .ok ls) :
    levels g o.strict limit visited depth frontier =
      match firstMissing g (followedAlong g o visited depth frontier ls) with
      | some f => .error (missingRevision f)
      | none => .ok ls := by
  fun_induction levels g o.lenient limit visited depth frontier generalizing ls with
  | case1 visited depth frontier e herror =>
    rw [level_lenient] at herror
    cases herror
  | case2 visited depth frontier l hok hempty =>
    cases h
    rw [followedAlong_cons, firstMissing_append]
    cases hfirst : firstMissing g (followed g o visited depth frontier) with
    | some f =>
      rw [levels_eq_of_level_eq_error (level_strict_of_some hfirst)]
      rfl
    | none =>
      rw [levels_eq_of_level_eq_ok ((level_strict_of_none hfirst).trans hok), if_pos hempty]
      rfl
  | case3 visited depth frontier l hok e es hentries ha hlt ih =>
    have hne : l.selected.entries ≠ [] := by simp [hentries]
    obtain ⟨rest, hrest⟩ := exists_levels_lenient g o limit (visited ++ l.selected.keys)
      (depth + 1) ((e :: es).map (·.2))
    rw [hrest] at h
    cases h
    rw [followedAlong_cons, firstMissing_append, hentries]
    cases hfirst : firstMissing g (followed g o visited depth frontier) with
    | some f =>
      -- The strict search has stopped, and what the lenient one follows later does not matter.
      rw [levels_eq_of_level_eq_error (level_strict_of_some hfirst)]
      rfl
    | none =>
      rw [levels_eq_of_level_eq_ok ((level_strict_of_none hfirst).trans hok), if_neg hne,
        hentries, ih hrest, Option.none_or]
      cases firstMissing g (followedAlong g o (visited ++ l.selected.keys) (depth + 1)
        ((e :: es).map (·.2)) rest) <;> rfl

end Mediation

namespace DependencyGraph

open Mediation

variable {g : DependencyGraph} {o : ResolveOptions} {asOf : Option Int} {transitive : Bool}

theorem resolveDependencies_eq_map {c : Coordinate} {r : Revision} (hr : g.revision? c = some r) :
    g.resolveDependencies o c asOf transitive =
      (g.queryLevels o r asOf transitive).map resolution := by
  rw [resolveDependencies, hr]
  cases transitive with
  | true => rfl
  | false =>
    show (do return resolution [← level g o (timeLimit asOf) [r.artifact] 1 (root r)]) = _
    rw [queryLevels, if_neg (by decide)]
    cases level g o (timeLimit asOf) [r.artifact] 1 (root r) <;> rfl

/-- The constraints that a query follows, in the order in which it comes to them. -/
def followedBy (g : DependencyGraph) (o : ResolveOptions) (r : Revision) (ls : List Level) :
    List FollowedConstraint :=
  followedAlong g o [r.artifact] 1 (root r) ls

theorem queryLevels_strict {r : Revision} {ls : List Level}
    (h : g.queryLevels o.lenient r asOf transitive = .ok ls) :
    g.queryLevels o.strict r asOf transitive =
      match firstMissing g (g.followedBy o r ls) with
      | some f => .error (missingRevision f)
      | none => .ok ls := by
  cases transitive with
  | true => exact levels_strict h
  | false =>
    obtain ⟨l, rfl, hl⟩ := queryLevels_false_eq_ok_iff.1 h
    rw [followedBy, followedAlong_cons, firstMissing_append]
    rw [queryLevels, if_neg (by decide)]
    cases hfirst : firstMissing g (followed g o [r.artifact] 1 (root r)) with
    | some f =>
      rw [level_strict_of_some hfirst]
      rfl
    | none =>
      rw [level_strict_of_none hfirst, hl]
      rfl

theorem mem_followedBy {r : Revision} {ls : List Level} {f : FollowedConstraint} :
    f ∈ g.followedBy o r ls ↔ ∃ d < ls.length, f.node ∈ selectionsAt (root r) ls d ∧
      f.constraint ∈ g.constraintsOf f.node.revision.coordinate ∧
      follows o (d + 1) f.constraint = true ∧
      (∀ e ∈ f.node.exclusions, e.matchesArtifact f.constraint.target = false) ∧
      f.constraint.target ∉ metBefore [r.artifact] ls d := by
  simp only [followedBy, mem_followedAlong, mem_followed_iff, Nat.add_comm 1]

theorem exists_queryLevels_lenient (g : DependencyGraph) (o : ResolveOptions) (r : Revision)
    (asOf : Option Int) (transitive : Bool) :
    ∃ ls, g.queryLevels o.lenient r asOf transitive = .ok ls := by
  cases transitive with
  | true => exact exists_levels_lenient g o (timeLimit asOf) [r.artifact] 1 (root r)
  | false => exact ⟨_, queryLevels_false_eq_ok_iff.2 ⟨_, rfl, level_lenient⟩⟩

theorem resolveDependencies_strict {c : Coordinate} {r : Revision} (hr : g.revision? c = some r)
    {ls : List Level} (h : g.queryLevels o.lenient r asOf transitive = .ok ls) :
    g.resolveDependencies o.strict c asOf transitive =
      match firstMissing g (g.followedBy o r ls) with
      | some f => .error (missingRevision f)
      | none => .ok (resolution ls) := by
  rw [resolveDependencies_eq_map hr, queryLevels_strict h]
  cases firstMissing g (g.followedBy o r ls) <;> rfl

/-- What a strict query answers, the lenient query answers too. -/
theorem resolveDependencies_lenient_of_strict {c : Coordinate} {res : Resolution}
    (h : g.resolveDependencies o.strict c asOf transitive = .ok res) :
    g.resolveDependencies o.lenient c asOf transitive = .ok res := by
  obtain ⟨r, _, hr, -⟩ := resolveDependencies_eq_ok_iff.1 h
  obtain ⟨ls, hls⟩ := exists_queryLevels_lenient g o r asOf transitive
  rw [resolveDependencies_strict hr hls] at h
  split at h
  next => cases h
  next =>
    cases h
    exact resolveDependencies_eq_ok_iff.2 ⟨r, ls, hr, hls, rfl⟩

/-- The search for dependents is the same, and so what is confirmed strictly is confirmed. -/
theorem subset_resolveDependents_lenient {c : Coordinate} {res : Resolution}
    (h : g.resolveDependents o.strict c asOf transitive = .ok res) :
    ∃ res', g.resolveDependents o.lenient c asOf transitive = .ok res' ∧
      res.revisions ⊆ res'.revisions := by
  cases hx : g.revision? c with
  | none =>
    rw [resolveDependents, hx] at h
    cases h
  | some x =>
    have hanswer : ∀ o : ResolveOptions, ∃ res,
        g.resolveDependents o c asOf transitive = .ok res ∧ ∀ r, r ∈ res.revisions ↔
          (∃ n, (r, n) ∈ g.dependentCandidates o (timeLimit asOf) x transitive) ∧
          ∃ deps, g.resolveDependencies o r.coordinate asOf transitive = .ok deps ∧
            deps.contains x.coordinate = true := fun o => exists_resolveDependents_ok hx
    obtain ⟨_, hstrict, hmem⟩ := hanswer o.strict
    obtain ⟨res', hres', hmem'⟩ := hanswer o.lenient
    obtain rfl := Except.ok.inj (h.symm.trans hstrict)
    refine ⟨res', hres', fun r hr => ?_⟩
    obtain ⟨hcandidate, deps, hdeps, hcontains⟩ := (hmem r).1 hr
    exact (hmem' r).2
      ⟨hcandidate, deps, resolveDependencies_lenient_of_strict hdeps, hcontains⟩

/-- **A strict query has the lenient answer, or fails.**  The lenient query of a known revision
has an answer.  The strict one has the same answer, unless the lenient one passes by a constraint
on an artifact without a known revision; then it fails, and names the first of them.  So whatever
depends on a revision strictly depends on it leniently. -/
theorem resolveDependencies_strict_or_missing (g : DependencyGraph) (o : ResolveOptions)
    (asOf : Option Int) (transitive : Bool) :
    (∀ c r, g.revision? c = some r → ∃ ls,
      g.queryLevels o.lenient r asOf transitive = .ok ls ∧
      g.resolveDependencies o.lenient c asOf transitive = .ok (resolution ls) ∧
      (g.resolveDependencies o.strict c asOf transitive =
        match (g.followedBy o r ls).find? fun f => (g.revisionsOf f.constraint.target).isEmpty with
        | some f => .error (.missingRevision f.node.revision.coordinate f.constraint.target)
        | none => .ok (resolution ls)) ∧
      ((∃ e, g.resolveDependencies o.strict c asOf transitive = .error e) ↔
        ∃ d < ls.length, ∃ n ∈ selectionsAt (root r) ls d,
          ∃ constraint ∈ g.constraintsOf n.revision.coordinate,
            follows o (d + 1) constraint = true ∧
            (∀ e ∈ n.exclusions, e.matchesArtifact constraint.target = false) ∧
            constraint.target ∉ metBefore [r.artifact] ls d ∧
            g.revisionsOf constraint.target = [])) ∧
    ∀ x res, g.resolveDependents o.strict x asOf transitive = .ok res →
      ∃ res', g.resolveDependents o.lenient x asOf transitive = .ok res' ∧
        res.revisions ⊆ res'.revisions := by
  refine ⟨fun c r hr => ?_, fun x res => subset_resolveDependents_lenient⟩
  obtain ⟨ls, hls⟩ := exists_queryLevels_lenient g o r asOf transitive
  have hstrict := resolveDependencies_strict hr hls
  refine ⟨ls, hls, resolveDependencies_eq_ok_iff.2 ⟨r, ls, hr, hls, rfl⟩, hstrict, ?_⟩
  rw [hstrict]
  cases hfirst : firstMissing g (g.followedBy o r ls) with
  | some f =>
    refine iff_of_true ⟨_, rfl⟩ ?_
    obtain ⟨d, hd, hn, hc, hfollows, hexclusions, hnew⟩ :=
      mem_followedBy.1 (List.mem_of_find?_eq_some hfirst)
    have hmissing := List.find?_some hfirst
    exact ⟨d, hd, f.node, hn, f.constraint, hc, hfollows, hexclusions, hnew,
      isMissing_iff.1 hmissing⟩
  | none =>
    refine iff_of_false (fun ⟨_, he⟩ => by cases he) ?_
    rintro ⟨d, hd, n, hn, c, hc, hfollows, hexclusions, hnew, hunknown⟩
    have hmem : ⟨n, c⟩ ∈ g.followedBy o r ls :=
      mem_followedBy.2 ⟨d, hd, hn, hc, hfollows, hexclusions, hnew⟩
    exact firstMissing_eq_none_iff.1 hfirst _ hmem hunknown

/-- An application. -/
def danglingRoot : Revision := ⟨⟨"mvn", ⟨"org", "app"⟩, "1"⟩, 9⟩

/-- The application needs two libraries, each of which needs something that nobody has published.
What the second one needs is excluded by the application. -/
def danglingSample : DependencyGraph :=
  let artifact (name : String) : Artifact := ⟨"org", name⟩
  let coordinate (name : String) : Coordinate := ⟨"mvn", artifact name, "1"⟩
  { revisions := [danglingRoot, ⟨coordinate "base", 3⟩, ⟨coordinate "core", 2⟩]
    constraints := [{ source := coordinate "app", target := artifact "core" },
      { source := coordinate "app", target := artifact "base", exclusions := [⟨"*", "fonts"⟩] },
      { source := coordinate "core", target := artifact "icons" },
      { source := coordinate "base", target := artifact "fonts" }] }

/-- The lenient query has an answer, and the strict one names the icons. -/
theorem resolveDependencies_strict_or_missing_danglingSample :
    (∃ res, danglingSample.resolveDependencies (ResolveOptions.lenient {})
        danglingRoot.coordinate none true = .ok res) ∧
      danglingSample.resolveDependencies (ResolveOptions.strict {})
        danglingRoot.coordinate none true =
        .error (.missingRevision ⟨"mvn", ⟨"org", "core"⟩, "1"⟩ ⟨"org", "icons"⟩) := by
  obtain ⟨hquery, -⟩ := resolveDependencies_strict_or_missing danglingSample {} none true
  obtain ⟨ls, hls, hlenient, hstrict, -⟩ := hquery danglingRoot.coordinate danglingRoot rfl
  refine ⟨⟨_, hlenient⟩, ?_⟩
  have hwithin : levelsWithin danglingSample (ResolveOptions.lenient {}) none 4
      [danglingRoot.artifact] 1 (root danglingRoot) = some (.ok ls) := by
    rw [levelsWithin_eq_levels (by decide +kernel)]
    exact congrArg some hls
  have hfirst : (levelsWithin danglingSample (ResolveOptions.lenient {}) none 4
      [danglingRoot.artifact] 1 (root danglingRoot)).map (fun result =>
        result.toOption.map fun ls =>
          (firstMissing danglingSample (danglingSample.followedBy {} danglingRoot ls)).map
            missingRevision) =
      some (some (some (.missingRevision ⟨"mvn", ⟨"org", "core"⟩, "1"⟩ ⟨"org", "icons"⟩))) := by
    decide +kernel
  rw [hwithin] at hfirst
  obtain ⟨f, hf, hmissing⟩ :=
    Option.map_eq_some_iff.1 (Option.some.inj (Option.some.inj hfirst))
  simp only [firstMissing, isMissing] at hf
  rw [hstrict, hf]
  exact congrArg Except.error hmissing

end DependencyGraph

end Stitch
