/-
Where versions are transitively ordered.

A version that has ended is compared with a zero as an equal, and with a
qualifier as a release is.  But a zero comes after every qualifier.  So a place
at which one version has a zero, one a release or a later qualifier, and one has
ended (`ClashAt`) can order three versions in a circle:

* `not_atMost_trans`: `1.0-alpha` is before `1`, which is before `1-foo`, which
  is before `1.0-alpha`;
* **`compare_ofText_oriented_and_trans`**: the order is oriented, and it is
  transitive on versions without such a place.

Components by themselves are transitively ordered.  At a place without a clash
the end can be read as one and the same component in all comparisons, as a
release or as a zero (`exists_reading`), and so nothing goes wrong there.
-/
import Stitch.Proofs.Version.Order

namespace Stitch

namespace Component

/-- The text by which qualifiers that share a place are compared. -/
def tieText (name : String) : String := if rank name = 7 then name else ""

theorem compareNames_eq_compareLex :
    compareNames = compareLex (compareOn rank) (compareOn tieText) := by
  funext a b
  simp only [compareNames, compareLex, compareOn, tieText]
  cases hranks : Ord.compare (rank a) (rank b) with
  | eq =>
    have hrank : rank a = rank b := Nat.compare_eq_eq.1 hranks
    by_cases hb : rank b = 7
    · simp [hrank, hb]
    · simp [hrank, hb]
  | lt =>
    have hrank : ¬(rank a = 7 ∧ rank b = 7) := fun h => by simp [h.1, h.2] at hranks
    rw [if_neg hrank]
    rfl
  | gt =>
    have hrank : ¬(rank a = 7 ∧ rank b = 7) := fun h => by simp [h.1, h.2] at hranks
    rw [if_neg hrank]
    rfl

instance : Std.TransCmp compareNames := by
  rw [compareNames_eq_compareLex]
  infer_instance

/-- Components are transitively ordered: qualifiers first, then numbers. -/
instance : Std.TransCmp Component.compare where
  eq_swap := compare_swap _ _
  isLE_trans {a b c} hab hbc := by
    cases a with
    | number k =>
      cases b with
      | number m =>
        cases c with
        | number n => exact Std.TransOrd.isLE_trans (α := Nat) hab hbc
        | qualifier name => cases hbc
      | qualifier name => cases hab
    | qualifier name =>
      cases c with
      | number n => rfl
      | qualifier last =>
        cases b with
        | number m => cases hbc
        | qualifier middle =>
          have hnames : Std.TransCmp compareNames := inferInstance
          exact hnames.isLE_trans hab hbc

/-- A qualifier that does not come before a release. -/
def isLate : Component → Bool
  | number _ => false
  | qualifier name => rank "" ≤ rank name

/-- Compares what two versions have at one place; each of them may have ended. -/
def compareAt : Option Component → Option Component → Ordering
  | none, none => .eq
  | some a, none => a.compareToEnd
  | none, some b => b.compareToEnd.swap
  | some a, some b => a.compare b

/-- Without zeros the end is read as a release. -/
theorem compareAt_eq_of_ne_zero {x y : Option Component} (hx : x ≠ some (number 0))
    (hy : y ≠ some (number 0)) :
    compareAt x y = (x.getD (qualifier "")).compare (y.getD (qualifier "")) := by
  have hpos : ∀ {n : Nat}, some (number n) ≠ some (number 0) → Ord.compare n 0 = .gt := fun h =>
    Nat.compare_eq_gt.2 (Nat.pos_of_ne_zero fun hn => h (by rw [hn]))
  cases x with
  | none =>
    cases y with
    | none => rfl
    | some b =>
      cases b with
      | number n =>
        simp only [compareAt, compareToEnd, hpos hy]
        rfl
      | qualifier name => exact (compareNames_swap name "").symm
  | some a =>
    cases y with
    | none =>
      cases a with
      | number n => exact hpos hx
      | qualifier name => rfl
    | some b => rfl

/-- Without late qualifiers the end is read as a zero. -/
theorem compareAt_eq_of_not_late {x y : Option Component}
    (hx : ∀ c, x = some c → c.isLate = false) (hy : ∀ c, y = some c → c.isLate = false) :
    compareAt x y = (x.getD (number 0)).compare (y.getD (number 0)) := by
  have hearly : ∀ {name : String}, isLate (qualifier name) = false →
      compareNames name "" = .lt := fun {name} h => by
    have hrank : rank name < rank "" := by simpa [isLate] using h
    have hlast : ¬(rank name = 7 ∧ rank "" = 7) := fun h => absurd h.2 (by decide)
    rw [compareNames, if_neg hlast]
    exact Nat.compare_eq_lt.2 hrank
  cases x with
  | none =>
    cases y with
    | none => rfl
    | some b =>
      cases b with
      | number n => exact (Component.compare_swap (number n) (number 0)).symm
      | qualifier name =>
        simp only [compareAt, compareToEnd, hearly (hy _ rfl)]
        rfl
  | some a =>
    cases y with
    | none =>
      cases a with
      | number n => rfl
      | qualifier name => exact hearly (hx _ rfl)
    | some b => rfl

/-- Whether there are a zero, a late qualifier and the end among what versions
have at one place. -/
def Clash (slots : List (Option Component)) : Prop :=
  some (number 0) ∈ slots ∧ (∃ c, some c ∈ slots ∧ c.isLate = true) ∧ none ∈ slots

/-- Unless what is at a place clashes, it can be read so that the end is a
component as well. -/
theorem exists_reading {slots : List (Option Component)} (h : ¬Clash slots) :
    ∃ read : Option Component → Component, ∀ x ∈ slots, ∀ y ∈ slots,
      compareAt x y = (read x).compare (read y) := by
  by_cases hzero : some (number 0) ∈ slots
  · by_cases hlate : ∃ c, some c ∈ slots ∧ c.isLate = true
    · -- No version has ended, and all are compared as they are.
      have hnone : none ∉ slots := fun hmem => h ⟨hzero, hlate, hmem⟩
      refine ⟨(·.getD (number 0)), fun x hx y hy => ?_⟩
      cases x with
      | none => exact absurd hx hnone
      | some a =>
        cases y with
        | none => exact absurd hy hnone
        | some b => rfl
    · have hearly : ∀ x ∈ slots, ∀ c, x = some c → c.isLate = false := by
        rintro x hx c rfl
        exact Bool.eq_false_iff.2 fun hc => hlate ⟨c, hx, hc⟩
      exact ⟨_, fun x hx y hy => compareAt_eq_of_not_late (hearly x hx) (hearly y hy)⟩
  · exact ⟨_, fun x hx y hy => compareAt_eq_of_ne_zero (fun h => hzero (h ▸ hx))
      fun h => hzero (h ▸ hy)⟩

end Component

namespace Version

open Component

theorem compareComponents_eq_then (as bs : List Component) :
    compareComponents as bs =
      (compareAt as.head? bs.head?).then (compareComponents as.tail bs.tail) := by
  cases as with
  | nil =>
    cases bs with
    | nil => simp [compareComponents, compareAt]
    | cons b bs =>
      rw [compareComponents]
      rfl
  | cons a as =>
    cases bs with
    | nil =>
      rw [compareComponents]
      rfl
    | cons b bs =>
      rw [compareComponents]
      rfl

/-- Lists of components that clash at no place are transitively ordered. -/
theorem compareComponents_isLE_trans {as bs cs : List Component}
    (h : ∀ i : Nat, ¬Clash [as[i]?, bs[i]?, cs[i]?]) (hab : (compareComponents as bs).isLE)
    (hbc : (compareComponents bs cs).isLE) : (compareComponents as cs).isLE := by
  -- Place by place, up to the end of the longest list.
  obtain ⟨n, ha, hb, hc⟩ : ∃ n, as.length ≤ n ∧ bs.length ≤ n ∧ cs.length ≤ n :=
    ⟨as.length + bs.length + cs.length, by omega, by omega, by omega⟩
  induction n generalizing as bs cs with
  | zero =>
    obtain rfl := List.eq_nil_of_length_eq_zero (Nat.le_zero.1 ha)
    obtain rfl := List.eq_nil_of_length_eq_zero (Nat.le_zero.1 hc)
    rw [compareComponents]
    rfl
  | succ n ih =>
    have htails : ∀ i : Nat, ¬Clash [as.tail[i]?, bs.tail[i]?, cs.tail[i]?] := fun i => by
      simpa only [List.getElem?_tail] using h (i + 1)
    obtain ⟨read, hread⟩ := exists_reading (h 0)
    simp only [← List.head?_eq_getElem?] at hread
    rw [compareComponents_eq_then, Ordering.isLE_then_iff_or, hread _ (by simp) _ (by simp)]
      at hab hbc ⊢
    -- The first places decide, unless they are equal in both comparisons.
    rcases hab with hlt | ⟨heq, hab⟩
    · rcases hbc with hlt' | ⟨heq', -⟩
      · exact .inl (Std.TransCmp.lt_trans hlt hlt')
      · exact .inl (Std.TransCmp.lt_of_lt_of_eq hlt heq')
    · rcases hbc with hlt' | ⟨heq', hbc⟩
      · exact .inl (Std.TransCmp.lt_of_eq_of_lt heq hlt')
      · refine .inr ⟨Std.TransCmp.eq_trans heq heq', ih htails hab hbc ?_ ?_ ?_⟩
        all_goals
          rw [List.length_tail]
          omega

/-- A place at which what some versions have clashes. -/
def ClashAt (versions : List Version) (i : Nat) : Prop :=
  Clash (versions.map (·.components[i]?))

/-- Releases, and what comes before them, never clash. -/
theorem not_clashAt_of_not_late {versions : List Version}
    (h : ∀ v ∈ versions, ∀ c ∈ v.components, c.isLate = false) (i : Nat) :
    ¬ClashAt versions i := by
  rintro ⟨-, ⟨c, hc, hlate⟩, -⟩
  obtain ⟨v, hv, hslot⟩ := List.mem_map.1 hc
  rw [h v hv c (List.mem_of_getElem? hslot)] at hlate
  cases hlate

/-- **The order of versions.** Of two versions one comes before the other exactly
when that one comes after it; and versions that clash at no place are
transitively ordered. -/
theorem compare_ofText_oriented_and_trans (a b c : String) :
    (ofText b).compare (ofText a) = ((ofText a).compare (ofText b)).swap ∧
      ((∀ i, ¬ClashAt [ofText a, ofText b, ofText c] i) → (ofText a).atMost (ofText b) →
        (ofText b).atMost (ofText c) → (ofText a).atMost (ofText c)) :=
  ⟨compare_swap (ofText a) (ofText b), compareComponents_isLE_trans⟩

/-- The order of versions whose components are known. -/
theorem atMost_eq_of_components {a b : String} {as bs : List Component}
    (ha : (ofText a).components = as) (hb : (ofText b).components = bs) :
    (ofText a).atMost (ofText b) = (compareComponents as bs).isLE := by
  rw [atMost, compare, ha, hb]

theorem components_alpha : (ofText "1.0-alpha").components =
    [number 1, number 0, qualifier "alpha"] := by
  decide +kernel

theorem components_release : (ofText "1").components = [number 1] := by
  decide +kernel

/-- An alpha, its release and an update of it. -/
theorem compare_ofText_oriented_and_trans_update :
    (∀ i, ¬ClashAt [ofText "1.0-alpha", ofText "1", ofText "1.0.1"] i) ∧
      (ofText "1.0-alpha").atMost (ofText "1") ∧ (ofText "1").atMost (ofText "1.0.1") ∧
      (ofText "1.0-alpha").atMost (ofText "1.0.1") := by
  have hclash : ∀ i, ¬ClashAt [ofText "1.0-alpha", ofText "1", ofText "1.0.1"] i :=
    not_clashAt_of_not_late (by decide +kernel)
  have hupdate : (ofText "1.0.1").components = [number 1, number 0, number 1] := by decide +kernel
  have hfirst : (ofText "1.0-alpha").atMost (ofText "1") := by
    rw [atMost_eq_of_components components_alpha components_release]
    simp only [compareComponents]
    decide +kernel
  have hsecond : (ofText "1").atMost (ofText "1.0.1") := by
    rw [atMost_eq_of_components components_release hupdate]
    simp only [compareComponents]
    decide +kernel
  exact ⟨hclash, hfirst, hsecond,
    (compare_ofText_oriented_and_trans "1.0-alpha" "1" "1.0.1").2 hclash hfirst hsecond⟩

/-- An alpha comes before its release and the release before an addition to it,
but the alpha does not come before that addition. -/
theorem not_atMost_trans :
    (ofText "1.0-alpha").atMost (ofText "1") ∧ (ofText "1").atMost (ofText "1-foo") ∧
      ¬(ofText "1.0-alpha").atMost (ofText "1-foo") := by
  have haddition : (ofText "1-foo").components = [number 1, qualifier "foo"] := by decide +kernel
  rw [atMost_eq_of_components components_alpha components_release,
    atMost_eq_of_components components_release haddition,
    atMost_eq_of_components components_alpha haddition]
  simp only [compareComponents]
  decide +kernel

end Version

end Stitch
