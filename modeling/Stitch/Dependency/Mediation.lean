/-
Dependencies of a revision.

The search goes level by level from the queried revision.  At each level every
constraint of the revisions of the level before is followed, unless its scope
is not wanted, it is optional and not the queried revision's own, an exclusion
on the way keeps its target out, or its target was met before.  The candidate
for a constraint is the highest known revision that satisfies it and was
released in time.  Of several candidates for one artifact the highest wins, and
the nearest level decides: an artifact is selected once.

* `level` does one level, `levels` all of them;
* `resolveDependencies` is the query.
-/
import Stitch.Dependency.Resolution

namespace Stitch

/-- A revision that was selected, and the exclusions on the way to it. -/
structure Selection where
  revision : Revision
  exclusions : List Exclusion
  deriving Inhabited

/-- A constraint that is followed from a selected revision. -/
structure FollowedConstraint where
  node : Selection
  constraint : Constraint
  deriving Inhabited

/-- What one level of the search selects, and what it could not resolve. -/
structure Level where
  selected : SortedMap Artifact Selection
  degraded : List Degradation
  deriving Inhabited

namespace Mediation

/-- Whether a constraint is followed at a level; only those of the queried
revision itself are at level 1. -/
def follows (o : ResolveOptions) (depth : Nat) (c : Constraint) : Bool :=
  o.scopes.contains c.scope && (!c.isOptional || (depth == 1 && o.includeOptional))

/-- The constraints of a selected revision that are followed. -/
def followedFrom (g : DependencyGraph) (o : ResolveOptions) (visited : List Artifact)
    (depth : Nat) (node : Selection) : List FollowedConstraint :=
  ((g.constraintsOf node.revision.coordinate).filter fun c =>
    follows o depth c && !node.exclusions.any (·.matchesArtifact c.target) &&
      !visited.contains c.target).map fun c => ⟨node, c⟩

/-- The highest known revision that a constraint allows. -/
def candidate? (g : DependencyGraph) (limit : Option Int) (c : Constraint) : Option Revision :=
  (g.revisionsOf c.target).find? fun r =>
    c.isSatisfiedBy r.coordinate.parsedVersion && limit.all fun t => r.released ≤ t

/-- Whether a constraint leads to an artifact without a known revision. -/
def isMissing (g : DependencyGraph) (c : Constraint) : Bool := (g.revisionsOf c.target).isEmpty

/-- The selection that a followed constraint asks for. -/
def selection? (g : DependencyGraph) (limit : Option Int) (f : FollowedConstraint) :
    Option (Artifact × Selection) :=
  (candidate? g limit f.constraint).map fun r =>
    (f.constraint.target, ⟨r, f.node.exclusions ++ f.constraint.exclusions⟩)

/-- The problem with a constraint that no known revision satisfies in time. -/
def unresolvable (limit : Option Int) (c : Constraint) : Degradation :=
  ⟨.unresolvableConstraint, c.text,
    match limit with
    | some t => s!"no satisfying revision released by {t}"
    | none => "no satisfying revision"⟩

/-- The problem with a followed constraint, if it has known but no fitting
revisions. -/
def problem? (g : DependencyGraph) (limit : Option Int) (f : FollowedConstraint) :
    Option Degradation :=
  if !isMissing g f.constraint && (candidate? g limit f.constraint).isNone then
    some (unresolvable limit f.constraint)
  else none

/-- Of two selections of an artifact the higher one stays, of equals the first. -/
def higher (new : Selection) : Option Selection → Selection
  | none => new
  | some old =>
    if new.revision.coordinate.compare old.revision.coordinate = .gt then new else old

/-- Selects one revision for each artifact. -/
def select (selections : List (Artifact × Selection)) : SortedMap Artifact Selection :=
  selections.foldl (fun m s => m.alter s.1 (higher s.2)) {}

/-- One level of the search from the revisions of the level before. -/
def level (g : DependencyGraph) (o : ResolveOptions) (limit : Option Int)
    (visited : List Artifact) (depth : Nat) (frontier : List Selection) :
    Except ResolveError Level :=
  let followed := frontier.flatMap (followedFrom g o visited depth)
  match followed.find? fun f => !o.ignoreMissing && isMissing g f.constraint with
  | some f => .error (.missingRevision f.node.revision.coordinate f.constraint.target)
  | none =>
    .ok ⟨select (followed.filterMap (selection? g limit)), followed.filterMap (problem? g limit)⟩

theorem mem_keys_select {selections : List (Artifact × Selection)} {a : Artifact}
    (h : a ∈ (select selections).keys) : ∃ s ∈ selections, s.1 = a := by
  -- The fold may start from any map: a key is from there or from a selection.
  suffices ∀ (m : SortedMap Artifact Selection),
      a ∈ (selections.foldl (fun m s => m.alter s.1 (higher s.2)) m).keys →
        a ∈ m.keys ∨ ∃ s ∈ selections, s.1 = a by
    rcases this {} h with h | h
    · cases h
    · exact h
  clear h
  induction selections with
  | nil => exact fun m h => .inl h
  | cons s rest ih =>
    intro m h
    rcases ih _ h with h | ⟨t, ht, rfl⟩
    · obtain ⟨e, he, rfl⟩ := List.mem_map.1 h
      rcases SortedMap.key_mem_place he with hk | ⟨e', he', hk⟩
      · exact .inr ⟨s, List.mem_cons_self, hk.symm⟩
      · exact .inl (hk ▸ List.mem_map_of_mem he')
    · exact .inr ⟨t, List.mem_cons_of_mem _ ht, rfl⟩

/-- The artifacts with a known revision that a search has not met. -/
def unmet (g : DependencyGraph) (visited : List Artifact) : List Artifact :=
  g.knownArtifacts.filter fun a => !visited.contains a

/-- A level selects only artifacts that have a known revision and were not met
before. -/
theorem mem_unmet_of_level {g : DependencyGraph} {o : ResolveOptions} {limit : Option Int}
    {visited : List Artifact} {depth : Nat} {frontier : List Selection} {l : Level}
    (h : level g o limit visited depth frontier = .ok l) {a : Artifact}
    (ha : a ∈ l.selected.keys) : a ∈ unmet g visited := by
  simp only [level] at h
  split at h
  · cases h
  · cases h
    -- The key is the target of a constraint that was followed to a revision.
    obtain ⟨⟨b, s⟩, hs, rfl⟩ := mem_keys_select ha
    obtain ⟨f, hf, hsel⟩ := List.mem_filterMap.1 hs
    obtain ⟨r, hr, heq⟩ := Option.map_eq_some_iff.1 hsel
    cases heq
    obtain ⟨node, -, hnode⟩ := List.mem_flatMap.1 hf
    obtain ⟨c, hc, rfl⟩ := List.mem_map.1 hnode
    have hmem := List.mem_of_find?_eq_some hr
    simp only [DependencyGraph.revisionsOf, List.mem_reverse, List.mem_filter,
      beq_iff_eq] at hmem
    simp only [List.mem_filter, Bool.and_eq_true] at hc
    simp only [unmet, List.mem_filter, DependencyGraph.knownArtifacts, mem_distinct, List.mem_map]
    exact ⟨⟨r, hmem.1, hmem.2⟩, hc.2.2⟩

theorem length_unmet_lt {g : DependencyGraph} {visited : List Artifact} {keys : List Artifact}
    {a : Artifact} (ha : a ∈ keys) (h : a ∈ unmet g visited) :
    (unmet g (visited ++ keys)).length < (unmet g visited).length := by
  -- Meeting the keys takes them out of what was unmet, and `a` is one of them.
  have hsplit : unmet g (visited ++ keys) =
      (unmet g visited).filter fun a => !keys.contains a := by
    simp only [unmet, List.filter_filter]
    refine List.filter_congr fun b _ => ?_
    rw [Bool.eq_iff_iff]
    simp [and_comm]
  rw [hsplit]
  refine Nat.lt_of_le_of_ne (List.length_filter_le _ _) fun heq => ?_
  have := List.length_filter_eq_length_iff.1 heq a h
  simp [ha] at this

/-- The levels of a search, up to the last that selects anything. -/
def levels (g : DependencyGraph) (o : ResolveOptions) (limit : Option Int)
    (visited : List Artifact) (depth : Nat) (frontier : List Selection) :
    Except ResolveError (List Level) :=
  match h : level g o limit visited depth frontier with
  | .error e => .error e
  | .ok l =>
    match h' : l.selected.entries with
    | [] => .ok [l]
    | e :: es =>
      have ha : e.1 ∈ l.selected.keys := List.mem_map_of_mem (h' ▸ List.mem_cons_self)
      have := length_unmet_lt ha (mem_unmet_of_level h ha)
      (l :: ·) <$> levels g o limit (visited ++ l.selected.keys) (depth + 1)
        ((e :: es).map (·.2))
termination_by (unmet g visited).length

/-- The answer that levels make up, the first at distance 1. -/
def resolution (levels : List Level) : Resolution where
  revisions := Revision.sorted (levels.flatMap fun l => l.selected.entries.map (·.2.revision))
  depth := .ofList <| levels.zipIdx.flatMap fun (l, i) =>
    l.selected.keys.map fun a => (a.text, i + 1)
  degraded := levels.flatMap (·.degraded)

end Mediation

namespace DependencyGraph

/-- The revisions that a revision depends on, among those released up to a
time; the direct ones only, or all of them. -/
def resolveDependencies (g : DependencyGraph) (o : ResolveOptions) (c : Coordinate)
    (asOf : Option Int) (transitive : Bool) : Except ResolveError Resolution := do
  match g.revision? c with
  | none => throw (.unknownRevision c)
  | some root =>
    let limit := timeLimit asOf
    let start : List Selection := [⟨root, []⟩]
    if transitive then
      return Mediation.resolution (← Mediation.levels g o limit [root.artifact] 1 start)
    else
      return Mediation.resolution [← Mediation.level g o limit [root.artifact] 1 start]

end DependencyGraph

end Stitch
