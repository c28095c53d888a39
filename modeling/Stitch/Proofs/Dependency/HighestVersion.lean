/-
Which of an artifact's versions comes first.

The revisions of an artifact are listed by their coordinates, and these are compared by forge
before they are compared by version.  So among the revisions on one forge the highest version
comes first, but a greater forge comes before them all, whatever its versions are.

* `IsAbove` is what the order of coordinates says of two revisions of one artifact, and where
  the versions are transitively ordered (`HasOrderedVersions`) so are the coordinates.
* **`highest_on_greatest_forge_wins`**: the revisions of an artifact are listed in this order,
  and a constraint is given the first that it allows.  The list goes from the highest version
  down exactly if no greater forge has a lower version (`HasAlignedForges`), and then the
  constraint is given the highest version.
* `lower_version_is_selected`: otherwise a query selects a version although a higher one is
  allowed.
-/
import Stitch.Proofs.Dependency.Levels
import Stitch.Proofs.Version.Transitivity

namespace Stitch

/-- Coordinates with one owner are compared by their versions, and those of equal versions by
the texts of these. -/
theorem Coordinate.isLE_compareVersions_iff {a b : Coordinate} :
    (a.compareVersions b).isLE ↔ a.parsedVersion.atMost b.parsedVersion ∧
      (b.parsedVersion.atMost a.parsedVersion → (Ord.compare a.version b.version).isLE) := by
  rw [compareVersions, Version.atMost, Version.atMost,
    Version.compare_swap a.parsedVersion b.parsedVersion]
  cases a.parsedVersion.compare b.parsedVersion <;> simp

namespace Revision

def forge (r : Revision) : String := r.coordinate.forge

/-- The version of a revision is no higher than that of another. -/
def NoHigher (r s : Revision) : Prop :=
  r.coordinate.parsedVersion.atMost s.coordinate.parsedVersion = true

/-- The first revision is on a greater forge, or on the same and its version is no lower. -/
def IsAbove (r s : Revision) : Prop := s.forge < r.forge ∨ s.forge = r.forge ∧ s.NoHigher r

variable {r s t : Revision}

theorem atMost_iff_of_artifact_eq (h : r.artifact = s.artifact) : r.atMost s ↔
    r.forge < s.forge ∨ r.forge = s.forge ∧ (r.coordinate.compareVersions s.coordinate).isLE := by
  have hartifact : r.coordinate.artifact.compare s.coordinate.artifact = .eq := by
    rw [show r.coordinate.artifact = s.coordinate.artifact from h]
    exact Std.ReflOrd.compare_self (a := s.coordinate.artifact)
  have hlt : Ord.compare r.coordinate.forge s.coordinate.forge = .lt ↔ r.forge < s.forge :=
    compareOfLessAndEq_eq_lt
  have heq : Ord.compare r.coordinate.forge s.coordinate.forge = .eq ↔ r.forge = s.forge :=
    Std.LawfulEqOrd.compare_eq_iff_eq
  rw [atMost, Coordinate.atMost, Coordinate.compare, hartifact, Ordering.isLE_then_iff_or, hlt, heq]
  rfl

theorem isAbove_of_atMost (h : r.artifact = s.artifact) (hle : r.atMost s) : s.IsAbove r := by
  rcases (atMost_iff_of_artifact_eq h).1 hle with hlt | ⟨heq, hversions⟩
  · exact .inl hlt
  · exact .inr ⟨heq, (Coordinate.isLE_compareVersions_iff.1 hversions).1⟩

end Revision

namespace DependencyGraph

open Mediation

variable {g : DependencyGraph}

/-- The versions of each artifact are transitively ordered. -/
def HasOrderedVersions (g : DependencyGraph) : Prop :=
  ∀ a, ∀ r ∈ g.revisionsOf a, ∀ s ∈ g.revisionsOf a, ∀ t ∈ g.revisionsOf a,
    r.NoHigher s → s.NoHigher t → r.NoHigher t

/-- Of two revisions of the artifact the one on the greater forge has no lower version. -/
def HasAlignedForges (g : DependencyGraph) (a : Artifact) : Prop :=
  ∀ r ∈ g.revisionsOf a, ∀ s ∈ g.revisionsOf a, s.forge < r.forge → s.NoHigher r

/-- Coordinates are transitively ordered where their versions are. -/
theorem HasOrderedVersions.isOrdered (h : g.HasOrderedVersions) : g.IsOrdered := by
  intro a r hr s hs t ht hrs hst
  have hra : r.artifact = a := (mem_revisionsOf.1 hr).2
  have hsa : s.artifact = a := (mem_revisionsOf.1 hs).2
  have hta : t.artifact = a := (mem_revisionsOf.1 ht).2
  rw [Revision.atMost_iff_of_artifact_eq (hra.trans hsa.symm)] at hrs
  rw [Revision.atMost_iff_of_artifact_eq (hsa.trans hta.symm)] at hst
  rw [Revision.atMost_iff_of_artifact_eq (hra.trans hta.symm)]
  rcases hrs with hlt | ⟨heq, hrs⟩
  · rcases hst with hlt' | ⟨heq', -⟩
    · exact .inl (String.lt_trans hlt hlt')
    · exact .inl (heq' ▸ hlt)
  · rcases hst with hlt' | ⟨heq', hst⟩
    · exact .inl (heq ▸ hlt')
    · refine .inr ⟨heq.trans heq', ?_⟩
      rw [Coordinate.isLE_compareVersions_iff] at hrs hst ⊢
      refine ⟨h a r hr s hs t ht hrs.1 hst.1, fun htr => ?_⟩
      -- If the ends have equal versions, so has what is between them.
      have hsr : s.NoHigher r := h a s hs t ht r hr hst.1 htr
      have hts : t.NoHigher s := h a t ht r hr s hs htr hrs.1
      exact Std.TransOrd.isLE_trans (hrs.2 hsr) (hst.2 hts)

/-- Versions without late qualifiers are transitively ordered. -/
theorem hasOrderedVersions_of_not_late (h : ∀ r ∈ g.revisions,
    ∀ c ∈ r.coordinate.parsedVersion.components, c.isLate = false) : g.HasOrderedVersions := by
  intro a r hr s hs t ht
  have hlate : ∀ v ∈ [r.coordinate.parsedVersion, s.coordinate.parsedVersion,
      t.coordinate.parsedVersion], ∀ c ∈ v.components, c.isLate = false := by
    simpa using ⟨h r (mem_revisionsOf.1 hr).1, h s (mem_revisionsOf.1 hs).1,
      h t (mem_revisionsOf.1 ht).1⟩
  exact Version.compareComponents_isLE_trans (Version.not_clashAt_of_not_late hlate)

/-- A list that goes down by forges first goes down by versions exactly if the forges do not
come in the way. -/
theorem pairwise_noHigher_iff {a : Artifact}
    (h : (g.revisionsOf a).Pairwise fun r s => r.IsAbove s) :
    ((g.revisionsOf a).Pairwise fun r s => s.NoHigher r) ↔ g.HasAlignedForges a := by
  constructor
  · intro hversions
    -- Of two places the list decides in the one order, and the forges in the other.
    have hboth : (g.revisionsOf a).Pairwise fun r s =>
        (s.forge < r.forge → s.NoHigher r) ∧ (r.forge < s.forge → r.NoHigher s) := by
      refine (h.and hversions).imp fun ⟨habove, hle⟩ => ⟨fun _ => hle, fun hlt => ?_⟩
      rcases habove with hgt | ⟨heq, -⟩
      · exact absurd hlt (String.lt_asymm hgt)
      · exact absurd (heq ▸ hlt) (String.lt_irrefl _)
    have hsymm : Std.Symm fun r s : Revision =>
        (s.forge < r.forge → s.NoHigher r) ∧ (r.forge < s.forge → r.NoHigher s) :=
      ⟨fun _ _ => And.symm⟩
    intro r hr s hs
    refine (List.Pairwise.forall_of_forall (fun t _ => ?_) hboth hr hs).1
    exact ⟨fun hlt => absurd hlt (String.lt_irrefl _), fun hlt => absurd hlt (String.lt_irrefl _)⟩
  · intro haligned
    refine h.imp_of_mem fun {r s} hr hs habove => ?_
    rcases habove with hlt | ⟨-, hle⟩
    · exact haligned r hr s hs hlt
    · exact hle

/-- Whatever a query selects is the candidate of some constraint. -/
theorem exists_candidate_of_resolveDependencies {o : ResolveOptions} {c : Coordinate}
    {asOf : Option Int} {transitive : Bool} {res : Resolution}
    (h : g.resolveDependencies o c asOf transitive = .ok res) {s : Revision}
    (hs : s ∈ res.revisions) :
    ∃ d ∈ g.constraints, candidate? g (timeLimit asOf) d = some s := by
  obtain ⟨r, ls, -, hls, rfl⟩ := resolveDependencies_eq_ok_iff.1 h
  have hselection : ∃ d, ∃ t ∈ selectionsAt (root r) ls (d + 1), t.revision = s :=
    mem_revisions_resolution.1 hs
  obtain ⟨d, t, ht, rfl⟩ := hselection
  obtain ⟨l, a, hl, hselected⟩ := mem_selectionsAt_succ.1 ht
  obtain ⟨f, hf, hsel⟩ := exists_followed_of_mem_selected (level_of_queryLevels hls hl) hselected
  obtain ⟨-, hdeclared, -⟩ := mem_followed_iff.1 hf
  exact ⟨f.constraint, (mem_constraintsOf.1 hdeclared).1, (selection?_eq_some_iff.1 hsel).1⟩

/-- **The highest version on the greatest forge wins.** -/
theorem highest_on_greatest_forge_wins {revisions : List Revision} {constraints : List Constraint}
    (hg : g = ofParts revisions constraints) (hversions : g.HasOrderedVersions) :
    (∀ a, (∀ r, r ∈ g.revisionsOf a ↔ r ∈ g.revisions ∧ r.artifact = a) ∧
      ((g.revisionsOf a).Pairwise fun r s => r.IsAbove s) ∧
      (((g.revisionsOf a).Pairwise fun r s => s.NoHigher r) ↔ g.HasAlignedForges a)) ∧
    (∀ limit c, (candidate? g limit c = none ↔ ∀ r ∈ g.revisionsOf c.target, ¬c.Allows limit r) ∧
      ∀ best, candidate? g limit c = some best →
        best ∈ g.revisionsOf c.target ∧ c.Allows limit best ∧
        ∀ s ∈ g.revisionsOf c.target, c.Allows limit s →
          best.IsAbove s ∧ (g.HasAlignedForges c.target → s.NoHigher best)) ∧
    ∀ o c asOf transitive res, g.resolveDependencies o c asOf transitive = .ok res →
      ∀ s ∈ res.revisions, ∃ d ∈ g.constraints, candidate? g (timeLimit asOf) d = some s := by
  have hsorted : ∀ a, (g.revisionsOf a).Pairwise fun r s => s.atMost r := by
    intro a
    have hordered := hversions.isOrdered
    subst hg
    exact pairwise_revisionsOf hordered a
  have habove : ∀ {a}, ∀ r ∈ g.revisionsOf a, ∀ s ∈ g.revisionsOf a, s.atMost r → r.IsAbove s := by
    intro a r hr s hs
    exact Revision.isAbove_of_atMost
      ((mem_revisionsOf.1 hs).2.trans (mem_revisionsOf.1 hr).2.symm)
  refine ⟨fun a => ?_, fun limit c => ⟨candidate?_eq_none_iff, fun best hbest => ?_⟩, ?_⟩
  · have hlisted : (g.revisionsOf a).Pairwise fun r s => r.IsAbove s :=
      (hsorted a).imp_of_mem fun {r s} hr hs => habove r hr s hs
    exact ⟨fun r => mem_revisionsOf, hlisted, pairwise_noHigher_iff hlisted⟩
  · obtain ⟨hknown, hallowed⟩ := mem_of_candidate?_eq_some hbest
    refine ⟨hknown, hallowed, fun s hs hs' => ?_⟩
    have hbest' : best.IsAbove s :=
      habove best hknown s hs (atMost_candidate? (hsorted _) hbest hs hs')
    refine ⟨hbest', fun haligned => ?_⟩
    rcases hbest' with hlt | ⟨-, hle⟩
    · exact haligned best hknown s hs hlt
    · exact hle
  · intro o c asOf transitive res h s hs
    exact exists_candidate_of_resolveDependencies h hs

theorem highest_on_greatest_forge_wins_sample :
    sample.HasOrderedVersions ∧
      ((sample.revisionsOf ⟨"org", "log"⟩).Pairwise fun r s => s.NoHigher r) ∧
      ∃ res, sample.resolveDependencies {} ⟨"mvn", ⟨"org", "app"⟩, "1"⟩ none true = .ok res ∧
        ∀ s ∈ res.revisions, ∃ d ∈ sample.constraints,
          candidate? sample (timeLimit none) d = some s := by
  have hversions : sample.HasOrderedVersions := by
    refine hasOrderedVersions_of_not_late ?_
    simp only [sample, mem_revisions_ofParts]
    decide +kernel
  have hforge : ∀ r ∈ sample.revisions, r.forge = "mvn" := by
    simp only [sample, mem_revisions_ofParts]
    decide +kernel
  have haligned : sample.HasAlignedForges ⟨"org", "log"⟩ := by
    intro r hr s hs hlt
    rw [hforge r (mem_revisionsOf.1 hr).1, hforge s (mem_revisionsOf.1 hs).1] at hlt
    exact absurd hlt (String.lt_irrefl _)
  obtain ⟨res, hres⟩ : ∃ res, sample.resolveDependencies {} ⟨"mvn", ⟨"org", "app"⟩, "1"⟩ none
      true = .ok res :=
    exists_resolveDependencies_ok revision?_sample fun _ => revisionsOf_sample_ne_nil
  obtain ⟨hlists, -, hqueries⟩ := highest_on_greatest_forge_wins rfl hversions
  exact ⟨hversions, (hlists _).2.2.2 haligned, res, hres, hqueries _ _ _ _ _ hres⟩

/-- An application and a library that is published on two forges. -/
def onTwoForges : DependencyGraph where
  revisions := [⟨⟨"mvn", ⟨"org", "app"⟩, "1"⟩, 1⟩, ⟨⟨"mvn", ⟨"org", "lib"⟩, "2"⟩, 1⟩,
    ⟨⟨"pypi", ⟨"org", "lib"⟩, "1"⟩, 1⟩]
  constraints := [{ source := ⟨"mvn", ⟨"org", "app"⟩, "1"⟩, target := ⟨"org", "lib"⟩ }]

theorem ofParts_onTwoForges :
    ofParts onTwoForges.revisions onTwoForges.constraints = onTwoForges := by
  have hdistinct : distinctBy Revision.same onTwoForges.revisions = onTwoForges.revisions := by
    decide +kernel
  have hsorted : Revision.sorted onTwoForges.revisions = onTwoForges.revisions :=
    List.mergeSort_of_pairwise (by decide +kernel)
  rw [ofParts, hdistinct, hsorted]
  rfl

/-- The application needs any version of the library, and gets the lower one. -/
theorem lower_version_is_selected :
    let higher : Revision := ⟨⟨"mvn", ⟨"org", "lib"⟩, "2"⟩, 1⟩
    let lower : Revision := ⟨⟨"pypi", ⟨"org", "lib"⟩, "1"⟩, 1⟩
    let needs : Constraint :=
      { source := ⟨"mvn", ⟨"org", "app"⟩, "1"⟩, target := ⟨"org", "lib"⟩ }
    ofParts onTwoForges.revisions onTwoForges.constraints = onTwoForges ∧
      onTwoForges.HasOrderedVersions ∧ ¬higher.NoHigher lower ∧
      onTwoForges.revisionsOf ⟨"org", "lib"⟩ = [lower, higher] ∧
      needs.Allows none higher ∧ candidate? onTwoForges none needs = some lower ∧
      (onTwoForges.resolveDependencies {} needs.source none true).toOption.map (·.revisions) =
        some [lower] := by
  intro higher lower needs
  have hversions : onTwoForges.HasOrderedVersions :=
    hasOrderedVersions_of_not_late (by decide +kernel)
  have hhigher : higher.coordinate.parsedVersion.components = [.number 2] := by decide +kernel
  have hlower : lower.coordinate.parsedVersion.components = [.number 1] := by decide +kernel
  refine ⟨ofParts_onTwoForges, hversions, ?_, by decide +kernel, ⟨by decide, by simp⟩,
    by decide +kernel, by decide +kernel⟩
  rw [Revision.NoHigher, Version.atMost, Version.compare, hhigher, hlower]
  simp only [Version.compareComponents]
  decide +kernel

end DependencyGraph

end Stitch
