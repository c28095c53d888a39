/-
The levels of a query.

`queryLevels` is the search behind `resolveDependencies`
(`resolveDependencies_eq_ok_iff`): one level, or all of them.  `selectionsAt`
lists what it selects at each distance, the queried revision itself at distance
0.

* `level_of_queryLevels`: every level starts from the selections of the one
  before it, and has met the artifacts of all that came before.
* `exists_level_of_queryLevels`: in a transitive search another level follows
  wherever something is selected.
* `exists_resolveDependencies_ok`: only an unknown artifact can stop a query, and
  `exists_missing_of_resolveDependencies` tells which one did.
-/
import Stitch.Proofs.Dependency.Mediation

namespace Stitch

namespace Mediation

variable {g : DependencyGraph} {o : ResolveOptions} {limit : Option Int}

/-- The selections at a distance from the first ones. -/
def selectionsAt (start : List Selection) (ls : List Level) : Nat → List Selection
  | 0 => start
  | d + 1 => ls[d]?.elim [] fun l => l.selected.entries.map (·.2)

theorem selectionsAt_cons (start : List Selection) (l : Level) (ls : List Level) (d : Nat) :
    selectionsAt start (l :: ls) (d + 1) =
      selectionsAt (l.selected.entries.map (·.2)) ls d := by
  cases d with
  | zero => rfl
  | succ d => rfl

theorem mem_selectionsAt_succ {start : List Selection} {ls : List Level} {d : Nat}
    {s : Selection} :
    s ∈ selectionsAt start ls (d + 1) ↔
      ∃ l a, ls[d]? = some l ∧ (a, s) ∈ l.selected.entries := by
  rw [selectionsAt]
  cases h : ls[d]? with
  | none => simp
  | some l => simp

/-- The artifacts that were met before a level. -/
def metBefore (visited : List Artifact) (ls : List Level) (i : Nat) : List Artifact :=
  visited ++ (ls.take i).flatMap (·.selected.keys)

theorem metBefore_cons (visited : List Artifact) (l : Level) (ls : List Level) (i : Nat) :
    metBefore visited (l :: ls) (i + 1) = metBefore (visited ++ l.selected.keys) ls i := by
  rw [metBefore, metBefore, List.take_succ_cons, List.flatMap_cons, List.append_assoc]

theorem mem_metBefore_iff {visited : List Artifact} {ls : List Level} {i : Nat} {a : Artifact} :
    a ∈ metBefore visited ls i ↔
      a ∈ visited ∨ ∃ j < i, ∃ l, ls[j]? = some l ∧ a ∈ l.selected.keys := by
  rw [metBefore, List.mem_append, List.mem_flatMap]
  refine or_congr_right ⟨?_, ?_⟩
  · rintro ⟨l, hl, ha⟩
    obtain ⟨j, hj⟩ := List.mem_iff_getElem?.1 hl
    rw [List.getElem?_take] at hj
    split at hj
    next hlt => exact ⟨j, hlt, l, hj, ha⟩
    next => cases hj
  · rintro ⟨j, hlt, l, hl, ha⟩
    refine ⟨l, List.mem_iff_getElem?.2 ⟨j, ?_⟩, ha⟩
    rw [List.getElem?_take, if_pos hlt]
    exact hl

theorem levels_eq_of_level_eq_error {visited : List Artifact} {depth : Nat}
    {frontier : List Selection} {e : ResolveError}
    (h : level g o limit visited depth frontier = .error e) :
    levels g o limit visited depth frontier = .error e := by
  rw [levels]
  split
  next e' he' =>
    rw [h] at he'
    cases he'
    rfl
  next l hl =>
    rw [h] at hl
    cases hl

/-- A search ends with a level that selects nothing, and goes on from any other. -/
theorem levels_eq_of_level_eq_ok {visited : List Artifact} {depth : Nat}
    {frontier : List Selection} {l : Level}
    (h : level g o limit visited depth frontier = .ok l) :
    levels g o limit visited depth frontier =
      if l.selected.entries = [] then .ok [l]
      else (l :: ·) <$> levels g o limit (visited ++ l.selected.keys) (depth + 1)
        (l.selected.entries.map (·.2)) := by
  rw [levels]
  split
  next e he =>
    rw [h] at he
    cases he
  next l' hl' =>
    obtain rfl : l = l' := Except.ok.inj (h.symm.trans hl')
    split
    next hempty => rw [if_pos hempty]
    next e es hentries =>
      rw [if_neg (by rw [hentries]; exact List.cons_ne_nil e es)]
      show (l :: ·) <$> levels g o limit (visited ++ l.selected.keys) (depth + 1)
        ((e :: es).map (·.2)) = _
      rw [← hentries]

/-- Searches whose levels are the same from the selections that come up are the same. -/
theorem levels_congr {g' : DependencyGraph} {limit' : Option Int} {P : Selection → Prop}
    (hlevel : ∀ {visited depth frontier}, (∀ n ∈ frontier, P n) →
      level g' o limit' visited depth frontier = level g o limit visited depth frontier)
    (hselected : ∀ {visited depth frontier l}, level g o limit visited depth frontier = .ok l →
      ∀ e ∈ l.selected.entries, P e.2)
    (visited : List Artifact) (depth : Nat) (frontier : List Selection)
    (hfrontier : ∀ n ∈ frontier, P n) :
    levels g' o limit' visited depth frontier = levels g o limit visited depth frontier := by
  fun_induction levels g o limit visited depth frontier with
  | case1 visited depth frontier e herror =>
    rw [levels_eq_of_level_eq_error ((hlevel hfrontier).trans herror)]
  | case2 visited depth frontier l hok hempty =>
    rw [levels_eq_of_level_eq_ok ((hlevel hfrontier).trans hok), if_pos hempty]
  | case3 visited depth frontier l hok e es hentries ha hlt ih =>
    have hnext : ∀ n ∈ (e :: es).map (·.2), P n := by
      rw [← hentries]
      exact List.forall_mem_map.2 (hselected hok)
    rw [levels_eq_of_level_eq_ok ((hlevel hfrontier).trans hok),
      if_neg (by rw [hentries]; exact List.cons_ne_nil e es), hentries, ih hnext]

/-- A search goes on from what its first level selects, and ends when that is nothing. -/
theorem exists_of_levels_eq_ok {visited : List Artifact} {depth : Nat} {frontier : List Selection}
    {ls : List Level} (h : levels g o limit visited depth frontier = .ok ls) :
    ∃ l rest, ls = l :: rest ∧ level g o limit visited depth frontier = .ok l ∧
      (l.selected.entries = [] ∧ rest = [] ∨
        levels g o limit (visited ++ l.selected.keys) (depth + 1)
          (l.selected.entries.map (·.2)) = .ok rest) := by
  cases hlevel : level g o limit visited depth frontier with
  | error e =>
    rw [levels_eq_of_level_eq_error hlevel] at h
    cases h
  | ok l =>
    rw [levels_eq_of_level_eq_ok hlevel] at h
    split at h
    next hempty =>
      cases h
      exact ⟨l, [], rfl, rfl, .inl ⟨hempty, rfl⟩⟩
    next =>
      cases hrest : levels g o limit (visited ++ l.selected.keys) (depth + 1)
          (l.selected.entries.map (·.2)) with
      | error e =>
        rw [hrest] at h
        cases h
      | ok rest =>
        rw [hrest] at h
        cases h
        exact ⟨l, rest, rfl, rfl, .inr hrest⟩

/-- Each level starts where the one before it ended. -/
theorem level_of_levels {visited : List Artifact} {depth : Nat} {frontier : List Selection}
    {ls : List Level} (h : levels g o limit visited depth frontier = .ok ls) {i : Nat} {l : Level}
    (hl : ls[i]? = some l) :
    level g o limit (metBefore visited ls i) (depth + i) (selectionsAt frontier ls i) = .ok l := by
  induction ls generalizing visited depth frontier i with
  | nil => cases hl
  | cons first rest ih =>
    obtain ⟨_, _, heq, hlevel, hrest⟩ := exists_of_levels_eq_ok h
    cases heq
    cases i with
    | zero =>
      cases hl
      simpa [metBefore, selectionsAt] using hlevel
    | succ i =>
      rcases hrest with ⟨-, rfl⟩ | hrest
      · cases hl
      · rw [metBefore_cons, selectionsAt_cons, show depth + (i + 1) = depth + 1 + i by omega]
        exact ih hrest hl

/-- Where something is selected, another level follows. -/
theorem lt_length_of_levels {visited : List Artifact} {depth : Nat} {frontier : List Selection}
    {ls : List Level} (h : levels g o limit visited depth frontier = .ok ls) {d : Nat}
    {s : Selection} (hs : s ∈ selectionsAt frontier ls d) : d < ls.length := by
  induction ls generalizing visited depth frontier d with
  | nil =>
    obtain ⟨_, _, heq, -⟩ := exists_of_levels_eq_ok h
    cases heq
  | cons first rest ih =>
    obtain ⟨_, _, heq, -, hrest⟩ := exists_of_levels_eq_ok h
    cases heq
    cases d with
    | zero => exact Nat.succ_pos _
    | succ d =>
      rw [selectionsAt_cons] at hs
      rcases hrest with ⟨hempty, rfl⟩ | hrest
      · rw [hempty] at hs
        cases d with
        | zero => cases hs
        | succ d => cases hs
      · exact Nat.succ_lt_succ (ih hrest hs)

theorem exists_levels_ok
    (h : o.ignoreMissing = false → ∀ c ∈ g.constraints, g.revisionsOf c.target ≠ [])
    (limit : Option Int) (visited : List Artifact) (depth : Nat) (frontier : List Selection) :
    ∃ ls, levels g o limit visited depth frontier = .ok ls := by
  fun_induction levels g o limit visited depth frontier with
  | case1 visited depth frontier e herror =>
    obtain ⟨l, hl⟩ := exists_level_ok h limit visited depth frontier
    rw [herror] at hl
    cases hl
  | case2 visited depth frontier l hlevel hempty => exact ⟨[l], rfl⟩
  | case3 visited depth frontier l hlevel e es hentries ha hlt ih =>
    obtain ⟨rest, hrest⟩ := ih
    exact ⟨l :: rest, by rw [hrest]; rfl⟩

/-- An answer is made of all that was selected after the start. -/
theorem mem_revisions_resolution {start : List Selection} {ls : List Level} {r : Revision} :
    r ∈ (resolution ls).revisions ↔
      ∃ d, ∃ s ∈ selectionsAt start ls (d + 1), s.revision = r := by
  simp only [resolution, Revision.sorted, List.mem_mergeSort, List.mem_flatMap, List.mem_map]
  constructor
  · rintro ⟨l, hl, ⟨a, s⟩, hs, rfl⟩
    obtain ⟨d, hd⟩ := List.mem_iff_getElem?.1 hl
    exact ⟨d, s, mem_selectionsAt_succ.2 ⟨l, a, hd, hs⟩, rfl⟩
  · rintro ⟨d, s, hs, rfl⟩
    obtain ⟨l, a, hl, hmem⟩ := mem_selectionsAt_succ.1 hs
    exact ⟨l, List.mem_of_getElem? hl, (a, s), hmem, rfl⟩

theorem mem_degraded_resolution {ls : List Level} {p : Degradation} :
    p ∈ (resolution ls).degraded ↔ ∃ l ∈ ls, p ∈ l.degraded :=
  List.mem_flatMap

/-- The queried revision, from which a search starts. -/
def root (r : Revision) : List Selection := [⟨r, []⟩]

/-- A search fails only at an artifact without a known revision. -/
theorem exists_missing_of_levels_eq_error {visited : List Artifact} {depth : Nat}
    {frontier : List Selection} {e : ResolveError}
    (h : levels g o limit visited depth frontier = .error e) :
    ∃ source target, e = .missingRevision source target := by
  fun_induction levels g o limit visited depth frontier with
  | case1 visited depth frontier e' herror =>
    cases h
    rw [level] at herror
    split at herror
    next f hf =>
      cases herror
      exact ⟨_, _, rfl⟩
    next => cases herror
  | case2 visited depth frontier l hok hempty => cases h
  | case3 visited depth frontier l hok e' es hentries ha hlt ih =>
    cases hrest : levels g o limit (visited ++ l.selected.keys) (depth + 1)
        ((e' :: es).map (·.2)) with
    | error e'' =>
      rw [hrest] at h
      cases h
      exact ih hrest
    | ok rest =>
      rw [hrest] at h
      cases h

end Mediation

namespace DependencyGraph

open Mediation

variable {g : DependencyGraph} {o : ResolveOptions} {asOf : Option Int} {transitive : Bool}

/-- The levels that a query goes through. -/
def queryLevels (g : DependencyGraph) (o : ResolveOptions) (r : Revision) (asOf : Option Int)
    (transitive : Bool) : Except ResolveError (List Level) :=
  if transitive then levels g o (timeLimit asOf) [r.artifact] 1 (root r)
  else (fun l => [l]) <$> level g o (timeLimit asOf) [r.artifact] 1 (root r)

/-- A direct query has one level. -/
theorem queryLevels_false_eq_ok_iff {r : Revision} {ls : List Level} :
    g.queryLevels o r asOf false = .ok ls ↔
      ∃ l, ls = [l] ∧ level g o (timeLimit asOf) [r.artifact] 1 (root r) = .ok l := by
  rw [queryLevels, if_neg (by decide)]
  cases level g o (timeLimit asOf) [r.artifact] 1 (root r) with
  | error e => simp [Functor.map, Except.map]
  | ok l => simp [Functor.map, Except.map, eq_comm]

theorem resolveDependencies_eq_ok_iff {c : Coordinate} {res : Resolution} :
    g.resolveDependencies o c asOf transitive = .ok res ↔
      ∃ r ls, g.revision? c = some r ∧ g.queryLevels o r asOf transitive = .ok ls ∧
        res = resolution ls := by
  rw [resolveDependencies]
  cases hr : g.revision? c with
  | none => simp [throw, throwThe, MonadExceptOf.throw]
  | some r =>
    simp only [queryLevels, root, Option.some.injEq, exists_and_left, exists_eq_left']
    cases transitive with
    | true =>
      simp only [if_true]
      cases levels g o (timeLimit asOf) [r.artifact] 1 [⟨r, []⟩] with
      | error e => simp [bind, Except.bind]
      | ok ls => simp [bind, Except.bind, pure, Except.pure, eq_comm]
    | false =>
      simp only [Bool.false_eq_true, if_false]
      cases level g o (timeLimit asOf) [r.artifact] 1 [⟨r, []⟩] with
      | error e => simp [bind, Except.bind, Functor.map, Except.map]
      | ok l => simp [bind, Except.bind, pure, Except.pure, Functor.map, Except.map, eq_comm]

theorem resolveDependencies_of_revision?_eq_none {c : Coordinate} (h : g.revision? c = none) :
    g.resolveDependencies o c asOf transitive = .error (.unknownRevision c) := by
  rw [resolveDependencies, h]
  rfl

/-- A transitive query of a known revision fails only at an artifact that has none. -/
theorem exists_missing_of_resolveDependencies {c : Coordinate} {r : Revision} {e : ResolveError}
    (hr : g.revision? c = some r) (h : g.resolveDependencies o c asOf true = .error e) :
    ∃ source target, e = .missingRevision source target := by
  rw [resolveDependencies, hr] at h
  cases hls : levels g o (timeLimit asOf) [r.artifact] 1 (root r) with
  | error e' =>
    have hsame : e' = e := by
      rw [root] at hls
      simpa [hls, bind, Except.bind] using h
    exact exists_missing_of_levels_eq_error (hsame ▸ hls)
  | ok ls =>
    rw [root] at hls
    simp [hls, bind, Except.bind, pure, Except.pure] at h

/-- A query has an answer if every constraint leads to a known artifact, or
those that do not are skipped. -/
theorem exists_resolveDependencies_ok {c : Coordinate} {r : Revision}
    (hr : g.revision? c = some r)
    (h : o.ignoreMissing = false → ∀ c ∈ g.constraints, g.revisionsOf c.target ≠ []) :
    ∃ res, g.resolveDependencies o c asOf transitive = .ok res := by
  suffices ∃ ls, g.queryLevels o r asOf transitive = .ok ls by
    obtain ⟨ls, hls⟩ := this
    exact ⟨_, resolveDependencies_eq_ok_iff.2 ⟨r, ls, hr, hls, rfl⟩⟩
  cases transitive with
  | true => exact exists_levels_ok h _ _ _ _
  | false =>
    obtain ⟨l, hl⟩ := exists_level_ok h (timeLimit asOf) [r.artifact] 1 (root r)
    exact ⟨[l], queryLevels_false_eq_ok_iff.2 ⟨l, rfl, hl⟩⟩

/-- Each level of a query starts from the selections of the level before. -/
theorem level_of_queryLevels {r : Revision} {ls : List Level}
    (h : g.queryLevels o r asOf transitive = .ok ls) {i : Nat} {l : Level} (hl : ls[i]? = some l) :
    level g o (timeLimit asOf) (metBefore [r.artifact] ls i) (i + 1)
      (selectionsAt (root r) ls i) = .ok l := by
  cases transitive with
  | true =>
    rw [Nat.add_comm]
    exact level_of_levels h hl
  | false =>
    obtain ⟨first, rfl, hfirst⟩ := queryLevels_false_eq_ok_iff.1 h
    cases i with
    | zero =>
      cases hl
      simpa [metBefore, selectionsAt] using hfirst
    | succ i => cases hl

/-- In a transitive query a level follows wherever something is selected. -/
theorem exists_level_of_queryLevels {r : Revision} {ls : List Level}
    (h : g.queryLevels o r asOf true = .ok ls) {d : Nat} {s : Selection}
    (hs : s ∈ selectionsAt (root r) ls d) : ∃ l, ls[d]? = some l :=
  ⟨_, List.getElem?_eq_getElem (lt_length_of_levels h hs)⟩

end DependencyGraph

end Stitch
