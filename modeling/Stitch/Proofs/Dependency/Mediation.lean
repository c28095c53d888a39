/-
One level of mediation.

* `Constraint.Allows` is when a constraint allows a revision at a time limit, and
  `candidate?` is the highest revision that its constraint allows
  (`candidate?_eq_none_iff`, `atMost_candidate?`).
* `mem_followed_iff` says which constraints a level follows, and
  `level_eq_ok_iff` what it makes of them.
* What a level selects is what one of these constraints asks for
  (`exists_followed_of_mem_selected`), and of all that was asked for an
  artifact it selects the highest (`exists_selected_of_mem_followed`).

The order of coordinates need not be transitive.  So only that last statement
asks for it, and only on the revisions of the artifact in question.
-/
import Mathlib.Data.List.Induction
import Stitch.Dependency.Mediation
import Stitch.Proofs.Dependency.Graph
import Stitch.Proofs.SortedMap

namespace Stitch

/-- Whether a constraint is satisfied by a revision that was released in time. -/
def Constraint.Allows (c : Constraint) (limit : Option Int) (r : Revision) : Prop :=
  c.isSatisfiedBy r.coordinate.parsedVersion = true ∧ ∀ t, limit = some t → r.released ≤ t

theorem timeLimit_eq_some_iff {asOf : Option Int} {t : Int} :
    timeLimit asOf = some t ↔ asOf = some t ∧ 0 < t := by
  simp [timeLimit, Option.filter_eq_some_iff]

namespace Mediation

variable {g : DependencyGraph} {o : ResolveOptions} {limit : Option Int}

/-! ### Candidates -/

theorem allows_iff {c : Constraint} {r : Revision} :
    (c.isSatisfiedBy r.coordinate.parsedVersion && limit.all fun t => r.released ≤ t) = true ↔
      c.Allows limit r := by
  cases limit <;> simp [Constraint.Allows]

theorem isMissing_iff {c : Constraint} : isMissing g c = true ↔ g.revisionsOf c.target = [] :=
  List.isEmpty_iff

theorem candidate?_eq_none_iff {c : Constraint} :
    candidate? g limit c = none ↔ ∀ r ∈ g.revisionsOf c.target, ¬c.Allows limit r := by
  rw [candidate?, List.find?_eq_none]
  exact forall₂_congr fun r _ => not_congr allows_iff

theorem mem_of_candidate?_eq_some {c : Constraint} {r : Revision}
    (h : candidate? g limit c = some r) : r ∈ g.revisionsOf c.target ∧ c.Allows limit r := by
  have hallows := List.find?_some h
  exact ⟨List.mem_of_find?_eq_some h, allows_iff.1 hallows⟩

theorem atMost_candidate? {c : Constraint} {r s : Revision}
    (hsorted : (g.revisionsOf c.target).Pairwise fun r s => s.atMost r)
    (h : candidate? g limit c = some r) (hs : s ∈ g.revisionsOf c.target)
    (hallows : c.Allows limit s) : s.atMost r := by
  obtain ⟨-, before, after, hsplit, hbefore⟩ := List.find?_eq_some_iff_append.1 h
  rw [hsplit, List.mem_append, List.mem_cons] at hs
  rcases hs with hs | rfl | hs
  · -- What stands before the candidate is not allowed.
    have := hbefore s hs
    rw [allows_iff.2 hallows] at this
    cases this
  · exact Coordinate.atMost_refl _
  · rw [hsplit, List.pairwise_append] at hsorted
    exact (List.pairwise_cons.1 hsorted.2.1).1 s hs

theorem selection?_eq_some_iff {f : FollowedConstraint} {a : Artifact} {s : Selection} :
    selection? g limit f = some (a, s) ↔
      candidate? g limit f.constraint = some s.revision ∧ a = f.constraint.target ∧
        s.exclusions = f.node.exclusions ++ f.constraint.exclusions := by
  obtain ⟨r, exclusions⟩ := s
  rw [selection?, Option.map_eq_some_iff]
  constructor
  · rintro ⟨t, ht, heq⟩
    cases heq
    exact ⟨ht, rfl, rfl⟩
  · rintro ⟨ht, rfl, hexclusions⟩
    exact ⟨r, ht, by rw [← hexclusions]⟩

/-! ### The constraints that a level follows -/

theorem follows_iff {depth : Nat} {c : Constraint} :
    follows o depth c = true ↔
      c.scope ∈ o.scopes ∧ (c.isOptional = true → depth = 1 ∧ o.includeOptional = true) := by
  cases h : c.isOptional with
  | false => simp [follows, h]
  | true => simp [follows, h]

/-- All constraints that a level follows, node by node. -/
def followed (g : DependencyGraph) (o : ResolveOptions) (visited : List Artifact) (depth : Nat)
    (frontier : List Selection) : List FollowedConstraint :=
  frontier.flatMap (followedFrom g o visited depth)

variable {visited : List Artifact} {depth : Nat} {frontier : List Selection} {l : Level}

theorem mem_followed_iff {f : FollowedConstraint} :
    f ∈ followed g o visited depth frontier ↔
      f.node ∈ frontier ∧ f.constraint ∈ g.constraintsOf f.node.revision.coordinate ∧
      follows o depth f.constraint ∧
      (∀ e ∈ f.node.exclusions, e.matchesArtifact f.constraint.target = false) ∧
      f.constraint.target ∉ visited := by
  obtain ⟨node, c⟩ := f
  simp only [followed, followedFrom, List.mem_flatMap, List.mem_map, List.mem_filter,
    Bool.and_eq_true, Bool.not_eq_true', List.any_eq_false, Bool.not_eq_true,
    FollowedConstraint.mk.injEq, List.contains_eq_mem, decide_eq_false_iff_not]
  constructor
  · rintro ⟨n, hn, d, ⟨hd, ⟨hfollows, hexclusions⟩, hvisited⟩, rfl, rfl⟩
    exact ⟨hn, hd, hfollows, hexclusions, hvisited⟩
  · rintro ⟨hn, hd, hfollows, hexclusions, hvisited⟩
    exact ⟨node, hn, c, ⟨hd, ⟨hfollows, hexclusions⟩, hvisited⟩, rfl, rfl⟩

theorem level_eq_ok_iff :
    level g o limit visited depth frontier = .ok l ↔
      (∀ f ∈ followed g o visited depth frontier,
        o.ignoreMissing = false → g.revisionsOf f.constraint.target ≠ []) ∧
      l = ⟨select ((followed g o visited depth frontier).filterMap (selection? g limit)),
        (followed g o visited depth frontier).filterMap (problem? g limit)⟩ := by
  simp only [level]
  rw [← followed]
  cases hmissing : (followed g o visited depth frontier).find? fun f =>
      !o.ignoreMissing && isMissing g f.constraint with
  | some f =>
    have hf := List.find?_some hmissing
    simp only [Bool.and_eq_true, Bool.not_eq_true', isMissing_iff] at hf
    simp only [reduceCtorEq, false_iff]
    exact fun h => h.1 f (List.mem_of_find?_eq_some hmissing) hf.1 hf.2
  | none =>
    have hnone := List.find?_eq_none.1 hmissing
    simp only [Bool.and_eq_true, Bool.not_eq_true', isMissing_iff, not_and] at hnone
    simp only [Except.ok.injEq]
    exact ⟨fun h => ⟨hnone, h.symm⟩, fun h => h.2.symm⟩

/-- Nothing stops a level if every constraint leads to a known artifact, or
those that do not are skipped. -/
theorem exists_level_ok
    (h : o.ignoreMissing = false → ∀ c ∈ g.constraints, g.revisionsOf c.target ≠ [])
    (limit : Option Int) (visited : List Artifact) (depth : Nat) (frontier : List Selection) :
    ∃ l, level g o limit visited depth frontier = .ok l := by
  refine ⟨_, level_eq_ok_iff.2 ⟨fun f hf hstrict => ?_, rfl⟩⟩
  obtain ⟨-, hdeclared, -⟩ := mem_followed_iff.1 hf
  exact h hstrict _ (DependencyGraph.mem_constraintsOf.1 hdeclared).1

/-! ### The highest of several selections -/

/-- The selection that stays when some are made one after the other. -/
def highest (selections : List Selection) : Option Selection :=
  selections.foldl (fun best s => some (higher s best)) none

theorem highest_concat (selections : List Selection) (s : Selection) :
    highest (selections ++ [s]) = some (higher s (highest selections)) := by
  rw [highest, List.foldl_append]
  rfl

theorem mem_of_highest_eq_some {selections : List Selection} {s : Selection}
    (h : highest selections = some s) : s ∈ selections := by
  induction selections using List.reverseRecOn with
  | nil => cases h
  | append_singleton selections new ih =>
    rw [highest_concat, Option.some.injEq] at h
    cases hold : highest selections with
    | none =>
      rw [hold, higher] at h
      simp [h]
    | some old =>
      rw [hold, higher] at h
      split at h
      · simp [h]
      · exact List.mem_append_left _ (ih (hold.trans (congrArg some h)))

theorem exists_highest {selections : List Selection} {s : Selection} (hs : s ∈ selections)
    (htrans : ∀ r ∈ selections, ∀ s ∈ selections, ∀ t ∈ selections,
      r.revision.atMost s.revision → s.revision.atMost t.revision →
        r.revision.atMost t.revision) :
    ∃ t, highest selections = some t ∧ s.revision.atMost t.revision := by
  induction selections using List.reverseRecOn with
  | nil => cases hs
  | append_singleton selections new ih =>
    rw [highest_concat]
    refine ⟨_, rfl, ?_⟩
    cases hold : highest selections with
    | none =>
      rcases List.mem_append.1 hs with hs | hs
      · obtain ⟨t, ht, -⟩ := ih hs fun r hr s hs t ht =>
          htrans r (List.mem_append_left _ hr) s (List.mem_append_left _ hs) t
            (List.mem_append_left _ ht)
        rw [hold] at ht
        cases ht
      · rw [List.mem_singleton.1 hs]
        exact Coordinate.atMost_refl _
    | some old =>
      have hmem := mem_of_highest_eq_some hold
      rw [higher]
      rcases List.mem_append.1 hs with hs | hs
      · obtain ⟨t, ht, hle⟩ := ih hs fun r hr s hs t ht =>
          htrans r (List.mem_append_left _ hr) s (List.mem_append_left _ hs) t
            (List.mem_append_left _ ht)
        obtain rfl : old = t := Option.some.inj (hold.symm.trans ht)
        split
        next hgt =>
          exact htrans s (List.mem_append_left _ hs) old (List.mem_append_left _ hmem) new
            (by simp) hle (Coordinate.atMost_of_compare_eq_gt hgt)
        next => exact hle
      · rw [List.mem_singleton.1 hs]
        split
        next => exact Coordinate.atMost_refl _
        next hgt => exact Coordinate.atMost_of_compare_ne_gt hgt

/-! ### What a level selects -/

theorem get?_select (selections : List (Artifact × Selection)) (a : Artifact) :
    (select selections).get? a =
      highest ((selections.filter fun s => s.1 = a).map (·.2)) := by
  induction selections using List.reverseRecOn with
  | nil => rfl
  | append_singleton selections s ih =>
    have hselect : select (selections ++ [s]) = (select selections).alter s.1 (higher s.2) := by
      rw [select, List.foldl_append]
      rfl
    rw [hselect, SortedMap.get?_alter, List.filter_append, List.map_append]
    by_cases ha : a = s.1
    · rw [if_pos ha, ← ha, ih]
      simp [← ha, highest_concat]
    · rw [if_neg ha, ih]
      simp [Ne.symm ha]

theorem exists_followed_of_mem_selected {a : Artifact} {s : Selection}
    (h : level g o limit visited depth frontier = .ok l) (hs : (a, s) ∈ l.selected.entries) :
    ∃ f ∈ followed g o visited depth frontier, selection? g limit f = some (a, s) := by
  obtain ⟨-, rfl⟩ := level_eq_ok_iff.1 h
  have hget := SortedMap.get?_eq_some_iff.2 hs
  rw [get?_select] at hget
  obtain ⟨⟨b, t⟩, hmem, rfl⟩ := List.mem_map.1 (mem_of_highest_eq_some hget)
  obtain ⟨hasked, hb⟩ := List.mem_filter.1 hmem
  obtain rfl : b = a := by simpa using hb
  exact List.mem_filterMap.1 hasked

/-- What is selected for an artifact is a known revision of it. -/
theorem mem_revisionsOf_of_mem_selected {a : Artifact} {s : Selection}
    (h : level g o limit visited depth frontier = .ok l) (hs : (a, s) ∈ l.selected.entries) :
    s.revision ∈ g.revisionsOf a := by
  obtain ⟨f, -, hsel⟩ := exists_followed_of_mem_selected h hs
  obtain ⟨hr, rfl, -⟩ := selection?_eq_some_iff.1 hsel
  exact (mem_of_candidate?_eq_some hr).1

theorem exists_selected_of_mem_followed {a : Artifact} {s : Selection} {f : FollowedConstraint}
    (hordered : ∀ r ∈ g.revisionsOf a, ∀ s ∈ g.revisionsOf a, ∀ t ∈ g.revisionsOf a,
      r.atMost s → s.atMost t → r.atMost t)
    (h : level g o limit visited depth frontier = .ok l)
    (hf : f ∈ followed g o visited depth frontier) (hs : selection? g limit f = some (a, s)) :
    ∃ t, (a, t) ∈ l.selected.entries ∧ s.revision.atMost t.revision := by
  obtain ⟨-, rfl⟩ := level_eq_ok_iff.1 h
  simp only [← SortedMap.get?_eq_some_iff, get?_select]
  -- All that is asked for an artifact is a known revision of it.
  have hknown : ∀ t ∈ ((((followed g o visited depth frontier).filterMap
      (selection? g limit)).filter fun s => s.1 = a).map (·.2)),
      t.revision ∈ g.revisionsOf a := by
    intro t ht
    obtain ⟨⟨b, t⟩, hmem, rfl⟩ := List.mem_map.1 ht
    obtain ⟨hasked, hb⟩ := List.mem_filter.1 hmem
    obtain rfl : b = a := by simpa using hb
    obtain ⟨f, -, hsel⟩ := List.mem_filterMap.1 hasked
    obtain ⟨hr, rfl, -⟩ := selection?_eq_some_iff.1 hsel
    exact (mem_of_candidate?_eq_some hr).1
  refine exists_highest (List.mem_map.2 ⟨(a, s), List.mem_filter.2 ⟨?_, by simp⟩, rfl⟩)
    fun r hr s hs t ht => hordered _ (hknown r hr) _ (hknown s hs) _ (hknown t ht)
  exact List.mem_filterMap.2 ⟨f, hf, hs⟩

/-- A followed constraint that allows no known revision of a known artifact is
reported. -/
theorem unresolvable_mem_degraded {f : FollowedConstraint}
    (h : level g o limit visited depth frontier = .ok l)
    (hf : f ∈ followed g o visited depth frontier)
    (hknown : g.revisionsOf f.constraint.target ≠ [])
    (hnone : candidate? g limit f.constraint = none) :
    unresolvable limit f.constraint ∈ l.degraded := by
  obtain ⟨-, rfl⟩ := level_eq_ok_iff.1 h
  refine List.mem_filterMap.2 ⟨f, hf, ?_⟩
  have hmissing : isMissing g f.constraint = false := by
    rw [← Bool.not_eq_true, isMissing_iff]
    exact hknown
  rw [problem?, hmissing, hnone]
  rfl

end Mediation

end Stitch
