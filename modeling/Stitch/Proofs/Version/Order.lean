/-
The order of versions is oriented.

Of two versions one comes before the other exactly when that one comes after it
(`Version.compare_swap`).  Versions are not transitively ordered, so this is
what all users of the order can rely on.
-/
import Stitch.Version.Basic

namespace Stitch

namespace Component

theorem compareNames_swap (a b : String) : compareNames b a = (compareNames a b).swap := by
  unfold compareNames
  by_cases h : rank a = 7 ∧ rank b = 7
  · rw [if_pos h, if_pos h.symm]
    exact Std.OrientedCmp.eq_swap
  · rw [if_neg h, if_neg fun h' => h h'.symm]
    exact Std.OrientedCmp.eq_swap

theorem compare_swap (a b : Component) : b.compare a = (a.compare b).swap := by
  cases a with
  | number m =>
    cases b with
    | number n =>
      show Ord.compare n m = (Ord.compare m n).swap
      exact Std.OrientedCmp.eq_swap
    | qualifier name => rfl
  | qualifier name =>
    cases b with
    | number n => rfl
    | qualifier other => exact compareNames_swap name other

end Component

namespace Version

theorem compareComponents_swap (as bs : List Component) :
    compareComponents bs as = (compareComponents as bs).swap := by
  fun_induction compareComponents as bs with
  | case1 =>
    rw [compareComponents]
    rfl
  | case2 a as ih => rw [compareComponents, ih, Ordering.swap_then]
  | case3 b bs ih => rw [compareComponents, ih, Ordering.swap_then, Ordering.swap_swap]
  | case4 a as b bs ih =>
    rw [compareComponents, ih, Component.compare_swap a b, Ordering.swap_then]

theorem compare_swap (a b : Version) : b.compare a = (a.compare b).swap :=
  compareComponents_swap a.components b.components

theorem before_iff_compare_eq_gt {a b : Version} : a.before b = true ↔ b.compare a = .gt := by
  rw [before, compare_swap b a, beq_iff_eq]
  cases b.compare a <;> simp

end Version

end Stitch
