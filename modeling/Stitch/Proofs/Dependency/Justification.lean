/-
Every selection is justified.

`Justified` is the declarative side: a path of constraints from the queried
revision to a selection, each declared by the selection before it, wanted,
allowing what was selected for it and kept out by none of the constraints
before it.

* **`resolveDependencies_justified`**: whatever a query selects at a distance
  has such a path of that length.

Which exclusions a selection inherits depends on the constraint that won its
level.  So the induction along the levels (`exists_justified`) gives the path
and, with it, that the inherited exclusions are those of its constraints.
-/
import Stitch.Proofs.Dependency.Levels

namespace Stitch

namespace Mediation

variable {g : DependencyGraph} {o : ResolveOptions} {asOf : Option Int} {transitive : Bool}
  {r : Revision} {ls : List Level}

/-- A path of constraints that leads from the queried revision `r` to a
revision through selections of the levels `ls`. -/
inductive Justified (g : DependencyGraph) (o : ResolveOptions) (limit : Option Int)
    (r : Revision) (ls : List Level) : List Constraint → Revision → Prop
  | root : Justified g o limit r ls [] r
  /-- One constraint further: only the first of a path may be optional. -/
  | step {path : List Constraint} {s : Revision} {c : Constraint} {t : Selection} :
      Justified g o limit r ls path s →
      c ∈ g.constraintsOf s.coordinate →
      c.scope ∈ o.scopes →
      (c.isOptional = true → path = [] ∧ o.includeOptional = true) →
      (∀ d ∈ path, d.excludes c.target = false) →
      t.revision ∈ g.revisionsOf c.target →
      c.Allows limit t.revision →
      t ∈ selectionsAt (root r) ls (path.length + 1) →
      Justified g o limit r ls (path ++ [c]) t.revision

theorem eq_of_justified_nil {limit : Option Int} {s : Revision}
    (h : Justified g o limit r ls [] s) : s = r := by
  generalize hpath : ([] : List Constraint) = path at h
  cases h with
  | root => rfl
  | step => simp at hpath

theorem excludes_eq_false {path : List Constraint} {a : Artifact}
    (h : ∀ e ∈ path.flatMap (·.exclusions), e.matchesArtifact a = false) :
    ∀ d ∈ path, d.excludes a = false := by
  intro d hd
  rw [Constraint.excludes, List.any_eq_false]
  intro e he
  rw [h e (List.mem_flatMap.2 ⟨d, hd, he⟩)]
  decide

/-- A selection at a distance has a path of that length, from whose constraints
it inherits its exclusions. -/
theorem exists_justified (h : g.queryLevels o r asOf transitive = .ok ls) {d : Nat}
    {s : Selection} (hs : s ∈ selectionsAt (root r) ls d) :
    ∃ path : List Constraint, path.length = d ∧ s.exclusions = path.flatMap (·.exclusions) ∧
      Justified g o (timeLimit asOf) r ls path s.revision := by
  induction d generalizing s with
  | zero =>
    obtain rfl := List.mem_singleton.1 hs
    exact ⟨[], rfl, rfl, .root⟩
  | succ d ih =>
    obtain ⟨l, a, hl, hselected⟩ := mem_selectionsAt_succ.1 hs
    -- The constraint that won, and the path to the selection that declares it.
    obtain ⟨f, hf, hsel⟩ := exists_followed_of_mem_selected
      (DependencyGraph.level_of_queryLevels h hl) hselected
    obtain ⟨hnode, hdeclared, hfollows, hexclusions, -⟩ := mem_followed_iff.1 hf
    obtain ⟨hcandidate, -, hinherited⟩ := selection?_eq_some_iff.1 hsel
    obtain ⟨hknown, hallows⟩ := mem_of_candidate?_eq_some hcandidate
    obtain ⟨hscope, hoptional⟩ := follows_iff.1 hfollows
    obtain ⟨path, rfl, hpath, hjustified⟩ := ih hnode
    refine ⟨path ++ [f.constraint], by simp, ?_, ?_⟩
    · rw [hinherited, hpath]
      simp
    · refine .step hjustified hdeclared hscope (fun ho => ?_) ?_ hknown hallows hs
      · obtain ⟨hfirst, hinclude⟩ := hoptional ho
        exact ⟨List.eq_nil_of_length_eq_zero (by omega), hinclude⟩
      · rw [hpath] at hexclusions
        exact excludes_eq_false hexclusions

end Mediation

namespace DependencyGraph

open Mediation

/-- **Soundness of mediation.** An answer is made of what was selected at the
distances above 0, and each selection has a justification as long as its
distance. -/
theorem resolveDependencies_justified {g : DependencyGraph} {o : ResolveOptions}
    {c : Coordinate} {asOf : Option Int} {transitive : Bool} {res : Resolution}
    (h : g.resolveDependencies o c asOf transitive = .ok res) :
    ∃ r ls, g.revision? c = some r ∧ g.queryLevels o r asOf transitive = .ok ls ∧
      res = resolution ls ∧
      (∀ t, t ∈ res.revisions ↔
        ∃ d, ∃ s ∈ selectionsAt (root r) ls (d + 1), s.revision = t) ∧
      ∀ d, ∀ s ∈ selectionsAt (root r) ls d, ∃ path : List Constraint,
        path.length = d ∧ Justified g o (timeLimit asOf) r ls path s.revision := by
  obtain ⟨r, ls, hr, hls, rfl⟩ := resolveDependencies_eq_ok_iff.1 h
  refine ⟨r, ls, hr, hls, rfl, fun t => mem_revisions_resolution, fun d s hs => ?_⟩
  obtain ⟨path, hlength, -, hjustified⟩ := exists_justified hls hs
  exact ⟨path, hlength, hjustified⟩

/-- What the application needed at a time when its second core was not yet released. -/
theorem resolveDependencies_justified_sample :
    ∃ res r ls,
      sample.resolveDependencies {} ⟨"mvn", ⟨"org", "app"⟩, "1"⟩ (some 3) true = .ok res ∧
      sample.queryLevels {} r (some 3) true = .ok ls ∧ res = resolution ls ∧
      ∀ d, ∀ s ∈ selectionsAt (root r) ls d, ∃ path : List Constraint,
        path.length = d ∧ Justified sample {} (timeLimit (some 3)) r ls path s.revision := by
  obtain ⟨res, h⟩ : ∃ res, sample.resolveDependencies {} ⟨"mvn", ⟨"org", "app"⟩, "1"⟩ (some 3)
      true = .ok res :=
    exists_resolveDependencies_ok revision?_sample fun _ => revisionsOf_sample_ne_nil
  obtain ⟨r, ls, -, hls, hres, -, hjustified⟩ := resolveDependencies_justified h
  exact ⟨res, r, ls, h, hls, hres, hjustified⟩

end DependencyGraph

end Stitch
