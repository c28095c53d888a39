/-
The order of coordinates, and what their texts say.

The order is total (`atMost_total`), because each of its parts is oriented, and
antisymmetric (`atMost_antisymm`), because version texts come last.  It is
transitive where versions are: `atMost_trans_of` reduces transitivity on any
coordinates to those that share an artifact, since forge and artifact come first
and are transitively ordered.

Texts join fields as they are, so they tell apart what has no separators in its
fields (`Artifact.eq_of_text_eq`, `Coordinate.eq_of_qualified_eq`).
-/
import Stitch.Coordinate
import Stitch.Proofs.Text.Split
import Stitch.Proofs.Version.Order

namespace Stitch

/-! ### Texts -/

theorem Artifact.toList_text (a : Artifact) :
    a.text.toList = a.group.toList ++ ':' :: a.name.toList := by
  rw [show a.text = a.group ++ ":" ++ a.name from rfl]
  simp

/-- Artifacts whose groups have no colon are told apart by their texts. -/
theorem Artifact.eq_of_text_eq {a b : Artifact} (ha : ':' ∉ a.group.toList)
    (hb : ':' ∉ b.group.toList) (h : a.text = b.text) : a = b := by
  have hlists := congrArg String.toList h
  rw [toList_text, toList_text] at hlists
  obtain ⟨hgroup, hname⟩ := Text.append_cons_inj ha hb hlists
  obtain ⟨group, name⟩ := a
  rw [Artifact.mk.injEq]
  exact ⟨String.toList_inj.1 hgroup, String.toList_inj.1 hname⟩

namespace Coordinate

theorem toList_qualified (c : Coordinate) : c.qualified.toList =
    c.forge.toList ++ '!' :: (c.artifact.group.toList ++ ':' ::
      (c.artifact.name.toList ++ '$' :: c.version.toList)) := by
  rw [show c.qualified = c.forge ++ "!" ++ c.artifact.text ++ "$" ++ c.version from rfl]
  simp [Artifact.toList_text]

/-- The separators of the qualified text are not in the fields before them. -/
structure IsSeparable (c : Coordinate) : Prop where
  forge : '!' ∉ c.forge.toList
  group : ':' ∉ c.artifact.group.toList
  name : '$' ∉ c.artifact.name.toList

theorem eq_of_qualified_eq {c c' : Coordinate} (h : c.IsSeparable) (h' : c'.IsSeparable)
    (heq : c.qualified = c'.qualified) : c = c' := by
  have hlists := congrArg String.toList heq
  rw [toList_qualified, toList_qualified] at hlists
  obtain ⟨hforge, hrest⟩ := Text.append_cons_inj h.forge h'.forge hlists
  obtain ⟨hgroup, hrest⟩ := Text.append_cons_inj h.group h'.group hrest
  obtain ⟨hname, hversion⟩ := Text.append_cons_inj h.name h'.name hrest
  obtain ⟨forge, ⟨group, name⟩, version⟩ := c
  rw [Coordinate.mk.injEq, Artifact.mk.injEq]
  exact ⟨String.toList_inj.1 hforge, ⟨String.toList_inj.1 hgroup, String.toList_inj.1 hname⟩,
    String.toList_inj.1 hversion⟩

/-! ### The order -/

theorem compare_swap (a b : Coordinate) : b.compare a = (a.compare b).swap := by
  have hforge : Ord.compare b.forge a.forge = (Ord.compare a.forge b.forge).swap :=
    Std.OrientedCmp.eq_swap
  have hartifact : b.artifact.compare a.artifact = (a.artifact.compare b.artifact).swap :=
    Std.OrientedOrd.eq_swap (α := Artifact)
  have htext : Ord.compare b.version a.version = (Ord.compare a.version b.version).swap :=
    Std.OrientedCmp.eq_swap
  rw [compare, compare, hforge, hartifact, Version.compare_swap a.parsedVersion, htext,
    Ordering.swap_then, Ordering.swap_then, Ordering.swap_then]

theorem atMost_total (a b : Coordinate) : a.atMost b || b.atMost a := by
  rw [atMost, atMost, compare_swap a b]
  cases a.compare b <;> rfl

theorem atMost_refl (a : Coordinate) : a.atMost a := by
  simpa using atMost_total a a

theorem atMost_of_compare_eq_gt {a b : Coordinate} (h : a.compare b = .gt) : b.atMost a := by
  rw [atMost, compare_swap a b, h]
  rfl

theorem atMost_of_compare_ne_gt {a b : Coordinate} (h : a.compare b ≠ .gt) : a.atMost b := by
  rw [atMost]
  cases hcmp : a.compare b with
  | lt => rfl
  | eq => rfl
  | gt => exact absurd hcmp h

/-- Coordinates that compare equal are equal: the last comparison is by text. -/
theorem eq_of_compare_eq {a b : Coordinate} (h : a.compare b = .eq) : a = b := by
  rw [compare, Ordering.then_eq_eq, Ordering.then_eq_eq, Ordering.then_eq_eq] at h
  obtain ⟨hforge, hartifact, -, hversion⟩ := h
  obtain ⟨forge, artifact, version⟩ := a
  congr
  · exact Std.LawfulEqOrd.eq_of_compare hforge
  · exact Std.LawfulEqOrd.eq_of_compare (α := Artifact) hartifact
  · exact Std.LawfulEqOrd.eq_of_compare hversion

theorem atMost_antisymm {a b : Coordinate} (hab : a.atMost b) (hba : b.atMost a) : a = b := by
  refine eq_of_compare_eq ?_
  rw [atMost, compare_swap a b] at hba
  rw [atMost] at hab
  cases h : a.compare b with
  | lt =>
    rw [h] at hba
    cases hba
  | eq => rfl
  | gt =>
    rw [h] at hab
    cases hab

/-- Different coordinates are strictly ordered. -/
theorem compare_eq_lt_of_atMost {a b : Coordinate} (hab : a.atMost b) (hne : a ≠ b) :
    a.compare b = .lt := by
  rw [atMost] at hab
  cases h : a.compare b with
  | lt => rfl
  | eq => exact absurd (eq_of_compare_eq h) hne
  | gt =>
    rw [h] at hab
    cases hab

/-- What coordinates are compared by before their versions. -/
def compareOwners (a b : Coordinate) : Ordering :=
  compareLex (compareOn forge) (compareOn artifact) a b

/-- What coordinates of one forge and artifact are compared by. -/
def compareVersions (a b : Coordinate) : Ordering :=
  (a.parsedVersion.compare b.parsedVersion).then (Ord.compare a.version b.version)

theorem compare_eq_then (a b : Coordinate) :
    a.compare b = (compareOwners a b).then (compareVersions a b) := by
  rw [compare, compareVersions, compareOwners, compareLex, Ordering.then_assoc]
  rfl

instance : Std.TransCmp compareOwners :=
  inferInstanceAs (Std.TransCmp (compareLex (compareOn forge) (compareOn artifact)))

theorem artifact_eq_of_compareOwners {a b : Coordinate} (h : compareOwners a b = .eq) :
    a.artifact = b.artifact :=
  Std.LawfulEqOrd.eq_of_compare (Ordering.then_eq_eq.1 h).2

/-- Coordinates are transitively ordered if those of one artifact are. -/
theorem atMost_trans_of {a b c : Coordinate} (hab : a.atMost b) (hbc : b.atMost c)
    (h : a.artifact = b.artifact → b.artifact = c.artifact → a.atMost c) : a.atMost c := by
  have hab' := hab
  have hbc' := hbc
  rw [atMost, compare_eq_then, Ordering.isLE_then_iff_or] at hab' hbc'
  rcases hab' with hlt | ⟨heq, -⟩
  · rw [atMost, compare_eq_then, Ordering.isLE_then_iff_or]
    rcases hbc' with hlt' | ⟨heq', -⟩
    · exact .inl (Std.TransCmp.lt_trans hlt hlt')
    · exact .inl (Std.TransCmp.lt_of_lt_of_eq hlt heq')
  · rcases hbc' with hlt' | ⟨heq', -⟩
    · rw [atMost, compare_eq_then, Ordering.isLE_then_iff_or]
      exact .inl (Std.TransCmp.lt_of_eq_of_lt heq hlt')
    · exact h (artifact_eq_of_compareOwners heq) (artifact_eq_of_compareOwners heq')

end Coordinate

theorem Revision.atMost_total (r s : Revision) : r.atMost s || s.atMost r :=
  Coordinate.atMost_total r.coordinate s.coordinate

end Stitch
