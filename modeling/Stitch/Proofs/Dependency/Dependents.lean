/-
Dependents are the inverse of dependencies.

The search for dependents forgets most of mediation: it walks backwards over
single revisions, whatever is optional, excluded or selected.  What it keeps is
enough to go back along every justification (`reflTransGen_of_justified`),
provided that no revision is older than what it may depend on
(`IsReleasedInOrder`).  As each candidate is then confirmed by its own
dependencies, the two queries agree:

* **`resolveDependents_inverse`**: a revision is a dependent of another exactly
  when its dependencies contain that other.
-/
import Stitch.Dependency.Dependents
import Stitch.Proofs.Dependency.Justification
import Stitch.Proofs.Search

namespace Stitch

theorem timeLimit_timeLimit (asOf : Option Int) : timeLimit (timeLimit asOf) = timeLimit asOf := by
  simp [timeLimit, Option.filter_filter]

namespace DependencyGraph

open Mediation

variable {g : DependencyGraph} {o : ResolveOptions} {limit asOf : Option Int} {transitive : Bool}

/-- No revision was released before a known one that satisfies a constraint of it. -/
def IsReleasedInOrder (g : DependencyGraph) : Prop :=
  ∀ r ∈ g.revisions, ∀ c ∈ g.constraintsOf r.coordinate, ∀ s ∈ g.revisionsOf c.target,
    c.isSatisfiedBy s.coordinate.parsedVersion = true → s.released ≤ r.released

theorem isReleasedInOrder_sample : sample.IsReleasedInOrder := by
  have horder : ∀ r ∈ sample.revisions, ∀ c ∈ sample.constraints, c.source = r.coordinate →
      ∀ s ∈ sample.revisions, s.artifact = c.target → s.released ≤ r.released := by
    simp only [sample, mem_revisions_ofParts]
    decide +kernel
  intro r hr c hc s hs _
  obtain ⟨hc, hsource⟩ := mem_constraintsOf.1 hc
  obtain ⟨hs, hartifact⟩ := mem_revisionsOf.1 hs
  exact horder r hr c hc hsource s hs hartifact

/-! ### The search for dependents -/

theorem mem_possibleDependents {r s : Revision} :
    s ∈ g.possibleDependents o limit r ↔
      ∃ c ∈ g.constraints, c.target = r.artifact ∧ g.revision? c.source = some s ∧
        c.scope ∈ o.scopes ∧ c.isSatisfiedBy r.coordinate.parsedVersion = true ∧
        r.released ≤ s.released ∧ ∀ t, limit = some t → s.released ≤ t := by
  have hlimit : (limit.all fun t => decide (s.released ≤ t)) = true ↔
      ∀ t, limit = some t → s.released ≤ t := by
    cases limit <;> simp
  simp only [possibleDependents, List.mem_map, List.mem_filter, Prod.exists, mem_dependentsOf,
    Bool.and_eq_true, List.contains_iff_mem, decide_eq_true_eq]
  constructor
  · rintro ⟨_, c, ⟨⟨hc, htarget, hsource⟩, ⟨⟨hscope, hsatisfied⟩, hreleased⟩, htime⟩, rfl⟩
    exact ⟨c, hc, htarget, hsource, hscope, hsatisfied, hreleased, hlimit.1 htime⟩
  · rintro ⟨c, hc, htarget, hsource, hscope, hsatisfied, hreleased, htime⟩
    exact ⟨s, c, ⟨⟨hc, htarget, hsource⟩, ⟨⟨hscope, hsatisfied⟩, hreleased⟩, hlimit.2 htime⟩, rfl⟩

theorem mem_dependentCandidates {x : Revision} {p : Revision × Nat} :
    p ∈ g.dependentCandidates o limit x transitive ↔
      p ∈ Search.breadthFirst g.revisions (g.possibleDependents o limit) [x] ∧ 0 < p.2 ∧
        (transitive = false → p.2 = 1) := by
  cases transitive with
  | true => simp [dependentCandidates]
  | false => simp [dependentCandidates]

theorem mem_revisions_of_mem_dependentCandidates {root : Revision} (hroot : root ∈ g.revisions)
    {p : Revision × Nat} (hp : p ∈ g.dependentCandidates o limit root transitive) :
    p.1 ∈ g.revisions := by
  rcases Search.mem_starts_or_mem_domain (mem_dependentCandidates.1 hp).1 with hstart | hknown
  · rw [List.mem_singleton.1 hstart]
    exact hroot
  · exact hknown

/-! ### The confirmation of candidates -/

theorem resolveDependencies_timeLimit {c : Coordinate} :
    g.resolveDependencies o c (timeLimit asOf) transitive =
      g.resolveDependencies o c asOf transitive := by
  rw [resolveDependencies, resolveDependencies, timeLimit_timeLimit]

theorem dependsOn_iff {r : Revision} {c : Coordinate} :
    g.dependsOn o (timeLimit asOf) transitive r c = true ↔
      ∃ res, g.resolveDependencies o r.coordinate asOf transitive = .ok res ∧
        res.contains c = true := by
  rw [dependsOn, resolveDependencies_timeLimit]
  cases g.resolveDependencies o r.coordinate asOf transitive with
  | ok res => simp
  | error e => simp

/-- A dependent is a candidate whose own dependencies contain the queried revision. -/
theorem exists_resolveDependents_ok {c : Coordinate} {x : Revision} (hx : g.revision? c = some x) :
    ∃ res, g.resolveDependents o c asOf transitive = .ok res ∧
      ∀ r, r ∈ res.revisions ↔
        (∃ n, (r, n) ∈ g.dependentCandidates o (timeLimit asOf) x transitive) ∧
        ∃ deps, g.resolveDependencies o r.coordinate asOf transitive = .ok deps ∧
          deps.contains x.coordinate = true := by
  simp only [resolveDependents, hx]
  refine ⟨_, rfl, fun r => ?_⟩
  simp only [Revision.sorted, List.mem_mergeSort, List.mem_map, List.mem_filter, dependsOn_iff]
  constructor
  · rintro ⟨⟨_, n⟩, ⟨hcandidate, hdeps⟩, rfl⟩
    exact ⟨⟨n, hcandidate⟩, hdeps⟩
  · rintro ⟨⟨n, hcandidate⟩, hdeps⟩
    exact ⟨(r, n), ⟨hcandidate, hdeps⟩, rfl⟩

/-! ### Going back along a justification -/

section Retrace

variable {revisions : List Revision} {constraints : List Constraint} {r : Revision}
  {ls : List Level} {path : List Constraint} {s : Revision}

/-- What a known revision in time leads to is known and in time as well. -/
theorem known_of_justified (h : Justified g o limit r ls path s) (hr : r ∈ g.revisions)
    (htime : ∀ t, limit = some t → r.released ≤ t) :
    s ∈ g.revisions ∧ ∀ t, limit = some t → s.released ≤ t := by
  cases h with
  | root => exact ⟨hr, htime⟩
  | step _ _ _ _ _ hknown hallows _ => exact ⟨(mem_revisionsOf.1 hknown).1, hallows.2⟩

/-- A constraint is gone back along from what it allows to what declares it. -/
theorem step_of_allows (hg : g = ofParts revisions constraints) (hreleased : g.IsReleasedInOrder)
    (hs : s ∈ g.revisions) (htime : ∀ t, limit = some t → s.released ≤ t) {c : Constraint}
    (hdeclared : c ∈ g.constraintsOf s.coordinate) (hscope : c.scope ∈ o.scopes) {t : Revision}
    (hknown : t ∈ g.revisionsOf c.target) (hallows : c.Allows limit t) :
    Search.Step g.revisions (g.possibleDependents o limit) t s := by
  obtain ⟨hc, hsource⟩ := mem_constraintsOf.1 hdeclared
  have hrevision : g.revision? c.source = some s := by
    rw [hsource]
    subst hg
    exact revision?_eq_some_iff.2 ⟨hs, rfl⟩
  refine ⟨mem_possibleDependents.2 ⟨c, hc, (mem_revisionsOf.1 hknown).2.symm, hrevision, hscope,
    hallows.1, ?_, htime⟩, hs⟩
  exact hreleased s hs c hdeclared t hknown hallows.1

theorem reflTransGen_of_justified (hg : g = ofParts revisions constraints)
    (hreleased : g.IsReleasedInOrder) (hr : r ∈ g.revisions)
    (htime : ∀ t, limit = some t → r.released ≤ t) (h : Justified g o limit r ls path s) :
    Relation.ReflTransGen (Search.Step g.revisions (g.possibleDependents o limit)) s r := by
  induction h with
  | root => exact .refl
  | step hpath hdeclared hscope _ _ hknown hallows _ ih =>
    obtain ⟨hs, hstime⟩ := known_of_justified hpath hr htime
    exact .head (step_of_allows hg hreleased hs hstime hdeclared hscope hknown hallows) ih

/-- A justification of one constraint is one step back. -/
theorem step_of_justified (hg : g = ofParts revisions constraints)
    (hreleased : g.IsReleasedInOrder) (hr : r ∈ g.revisions)
    (htime : ∀ t, limit = some t → r.released ≤ t) (h : Justified g o limit r ls path s)
    (hlength : path.length = 1) :
    Search.Step g.revisions (g.possibleDependents o limit) s r := by
  cases h with
  | root => cases hlength
  | step hpath hdeclared hscope _ _ hknown hallows _ =>
    obtain rfl := List.eq_nil_of_length_eq_zero (by simpa using hlength)
    obtain rfl := eq_of_justified_nil hpath
    exact step_of_allows hg hreleased hr htime hdeclared hscope hknown hallows

end Retrace

/-- Whatever the dependencies of a revision contain has it as a candidate. -/
theorem exists_mem_dependentCandidates {revisions : List Revision}
    {constraints : List Constraint} (hg : g = ofParts revisions constraints)
    (hreleased : g.IsReleasedInOrder) {x r : Revision} (hx : x ∈ g.revisions)
    (hr : r ∈ g.revisions) (hne : r ≠ x)
    (htime : ∀ t, timeLimit asOf = some t → r.released ≤ t) {deps : Resolution}
    (hdeps : g.resolveDependencies o r.coordinate asOf transitive = .ok deps)
    (hcontains : deps.contains x.coordinate = true) :
    ∃ n, (r, n) ∈ g.dependentCandidates o (timeLimit asOf) x transitive := by
  obtain ⟨root, ls, hroot, hls, rfl⟩ := resolveDependencies_eq_ok_iff.1 hdeps
  have hunique : ∀ {s t}, s ∈ g.revisions → t ∈ g.revisions → s.coordinate = t.coordinate →
      s = t := by
    subst hg
    exact eq_of_coordinate_eq
  obtain ⟨hmem, hcoordinate⟩ := mem_of_revision?_eq_some hroot
  obtain rfl := hunique hmem hr hcoordinate
  -- The selection of `x`, and how it is justified.
  obtain ⟨y, hy, hxy⟩ := List.any_eq_true.1 hcontains
  obtain ⟨d, s, hs, rfl⟩ := mem_revisions_resolution.1 hy
  obtain ⟨path, hlength, -, hpath⟩ := exists_justified hls hs
  obtain ⟨hsknown, -⟩ := known_of_justified hpath hr htime
  obtain rfl := hunique hsknown hx (by simpa using hxy)
  cases transitive with
  | true =>
    have hback := reflTransGen_of_justified hg hreleased hr htime hpath
    obtain ⟨n, hn⟩ := Search.exists_mem_breadthFirst (List.mem_singleton.2 rfl) hback
    refine ⟨n, mem_dependentCandidates.2 ⟨hn, ?_, fun h => by cases h⟩⟩
    rcases Search.pos_or_mem_starts hn with hstart | hpos
    · exact absurd (List.mem_singleton.1 hstart) hne
    · exact hpos
  | false =>
    obtain ⟨l, a, hl, -⟩ := mem_selectionsAt_succ.1 hs
    obtain ⟨first, rfl, -⟩ := queryLevels_false_eq_ok_iff.1 hls
    have hd : d < 1 := (List.getElem?_eq_some_iff.1 hl).1
    have hback := step_of_justified hg hreleased hr htime hpath (by omega)
    exact ⟨1, mem_dependentCandidates.2
      ⟨Search.mem_breadthFirst_one hne hback, Nat.one_pos, fun _ => rfl⟩⟩

/-- **Dependents are the inverse of dependencies.** The answer for a known
revision has those other revisions, released in time, whose own query succeeds
and contains it. -/
theorem resolveDependents_inverse {revisions : List Revision} {constraints : List Constraint}
    {g : DependencyGraph} (hg : g = ofParts revisions constraints)
    (hreleased : g.IsReleasedInOrder) {x : Revision} (hx : x ∈ g.revisions) (o : ResolveOptions)
    (asOf : Option Int) (transitive : Bool) :
    ∃ res, g.resolveDependents o x.coordinate asOf transitive = .ok res ∧
      ∀ r ∈ g.revisions, r ≠ x → (∀ t, timeLimit asOf = some t → r.released ≤ t) →
        (r ∈ res.revisions ↔
          ∃ deps, g.resolveDependencies o r.coordinate asOf transitive = .ok deps ∧
            deps.contains x.coordinate = true) := by
  have hroot : g.revision? x.coordinate = some x := by
    subst hg
    exact revision?_eq_some_iff.2 ⟨hx, rfl⟩
  obtain ⟨res, hres, hmem⟩ := exists_resolveDependents_ok hroot
  refine ⟨res, hres, fun r hr hne htime => ?_⟩
  rw [hmem]
  constructor
  · rintro ⟨-, hdeps⟩
    exact hdeps
  · rintro ⟨deps, hdeps, hcontains⟩
    exact ⟨exists_mem_dependentCandidates hg hreleased hx hr hne htime hdeps hcontains,
      deps, hdeps, hcontains⟩

/-- The dependents of the first release of the log. -/
theorem resolveDependents_inverse_sample :
    ∃ res, sample.resolveDependents {} ⟨"mvn", ⟨"org", "log"⟩, "1"⟩ (some 9) true = .ok res ∧
      (⟨⟨"mvn", ⟨"org", "app"⟩, "1"⟩, 9⟩ ∈ res.revisions ↔
        ∃ deps, sample.resolveDependencies {} ⟨"mvn", ⟨"org", "app"⟩, "1"⟩ (some 9) true =
          .ok deps ∧ deps.contains ⟨"mvn", ⟨"org", "log"⟩, "1"⟩ = true) := by
  obtain ⟨res, hres, hinverse⟩ := resolveDependents_inverse (x := ⟨⟨"mvn", ⟨"org", "log"⟩, "1"⟩, 1⟩)
    rfl isReleasedInOrder_sample (mem_revisions_ofParts.2 (by decide +kernel)) {} (some 9) true
  have happ : ⟨⟨"mvn", ⟨"org", "app"⟩, "1"⟩, 9⟩ ∈ sample.revisions :=
    mem_revisions_ofParts.2 (by decide +kernel)
  exact ⟨res, hres, hinverse _ happ (by decide) fun t ht => by
    obtain ⟨ht, -⟩ := timeLimit_eq_some_iff.1 ht
    cases ht
    decide⟩

end DependencyGraph

end Stitch
