/-
Lists without repetition: of the items that count as the same, the first stays.

* `distinctBy` takes the test, `distinct` is equality;
* `mem_distinct` says that no item gets lost, `nodup_distinct` that none is
  left twice.
-/

namespace Stitch

variable {α : Type}

/-- The items that are not the same as an earlier one. -/
def distinctBy (same : α → α → Bool) : List α → List α
  | [] => []
  | a :: as => a :: (distinctBy same as).filter fun b => !same a b

/-- The items of a list, each once, in the order in which they first come. -/
def distinct [DecidableEq α] (as : List α) : List α := distinctBy (fun a b => decide (a = b)) as

@[simp] theorem mem_distinct [DecidableEq α] {a : α} {as : List α} :
    a ∈ distinct as ↔ a ∈ as := by
  induction as with
  | nil => simp [distinct, distinctBy]
  | cons b as ih =>
    simp only [distinct] at ih
    simp only [distinct, distinctBy, List.mem_cons, List.mem_filter, ih]
    by_cases h : a = b
    · simp [h]
    · simp [h, Ne.symm h]

theorem nodup_distinct [DecidableEq α] (as : List α) : (distinct as).Nodup := by
  induction as with
  | nil => exact List.nodup_nil
  | cons b as ih => exact List.nodup_cons.2 ⟨by simp, ih.sublist List.filter_sublist⟩

end Stitch
