/-
Breadth-first search up to a distance.

A visit can look at no successors of the points at its greatest distance, and so end as soon as
these come up.  What it finds is what the whole search finds up to that distance, in the same order
(`breadthFirstUpTo_eq_filter`): the queue is in the order of the distances, so that from its first
point at the greatest distance on, whatever is still discovered is farther away
(`filter_run_of_le`).
-/
import Stitch.Proofs.Search.Distance

namespace Stitch.Search

variable {α : Type} [DecidableEq α] {domain : List α} {next : α → List α} {starts : List α}
  {radius : Nat} {seen queue : List (α × Nat)}

/-- Goes on with a search, but not beyond a distance. -/
def runUpTo (domain : List α) (next : α → List α) (radius : Nat) (seen queue : List (α × Nat)) :
    List (α × Nat) :=
  match queue with
  | [] => seen
  | (a, depth) :: rest =>
    if depth = radius then runUpTo domain next radius seen rest
    else
      let new := (discovered domain next seen a).map fun b => (b, depth + 1)
      runUpTo domain next radius (seen ++ new) (rest ++ new)
termination_by ((unseen domain seen).length, queue.length)
decreasing_by
  · exact Prod.Lex.right _ (Nat.lt_succ_self _)
  · by_cases h : discovered domain next seen a = []
    · simp only [h, List.map_nil, List.append_nil]
      exact Prod.Lex.right _ (Nat.lt_succ_self _)
    · exact Prod.Lex.left _ _ (length_unseen_lt h (depth + 1))

/-- What can be reached from the starting points in at most so many steps, with distances. -/
def breadthFirstUpTo (domain : List α) (next : α → List α) (starts : List α) (radius : Nat) :
    List (α × Nat) :=
  let first := (distinct starts).map fun a => (a, 0)
  runUpTo domain next radius first first

/-- Nothing is discovered nearer than one step behind the queue. -/
theorem filter_run_of_le (h : ∀ p ∈ queue, radius ≤ p.2) :
    (run domain next seen queue).filter (fun p => p.2 ≤ radius) =
      seen.filter fun p => p.2 ≤ radius := by
  fun_induction run domain next seen queue with
  | case1 seen => rfl
  | case2 seen a depth rest new ih =>
    obtain ⟨hdepth, hrest⟩ := List.forall_mem_cons.1 h
    have hnew : ∀ p ∈ new, radius < p.2 := by
      intro p hp
      obtain ⟨b, -, rfl⟩ := List.mem_map.1 hp
      exact Nat.lt_succ_of_le hdepth
    have hnone : new.filter (fun p => p.2 ≤ radius) = [] :=
      List.filter_eq_nil_iff.2 fun p hp => by simpa using hnew p hp
    rw [ih (List.forall_mem_append.2 ⟨hrest, fun p hp => Nat.le_of_lt (hnew p hp)⟩),
      List.filter_append, hnone, List.append_nil]

theorem runUpTo_of_eq (h : ∀ p ∈ queue, p.2 = radius) :
    runUpTo domain next radius seen queue = seen := by
  induction queue with
  | nil => rw [runUpTo]
  | cons p rest ih =>
    obtain ⟨hp, hrest⟩ := List.forall_mem_cons.1 h
    rw [runUpTo, if_pos hp, ih hrest]

theorem runUpTo_eq_filter (h : KeepsDistances domain next starts seen queue)
    (hseen : ∀ p ∈ seen, p.2 ≤ radius) : runUpTo domain next radius seen queue =
      (run domain next seen queue).filter fun p => p.2 ≤ radius := by
  have hall : ∀ {seen : List (α × Nat)}, (∀ p ∈ seen, p.2 ≤ radius) →
      seen.filter (fun p => p.2 ≤ radius) = seen :=
    fun hseen => List.filter_eq_self.2 fun p hp => by simpa using hseen p hp
  fun_induction runUpTo domain next radius seen queue with
  | case1 seen => rw [run, hall hseen]
  | case2 seen a rest ih =>
    -- The queue is in the order of the distances, so all of it is at the greatest one.
    obtain ⟨hrest, -⟩ := List.pairwise_cons.1 (h.sorted.sublist h.suffix.sublist)
    have hfar : ∀ p ∈ rest, p.2 = radius := fun p hp => Nat.le_antisymm
      (hseen p (h.suffix.subset (List.mem_cons_of_mem _ hp))) (hrest p hp)
    have hqueue : ∀ p ∈ (a, radius) :: rest, radius ≤ p.2 :=
      List.forall_mem_cons.2 ⟨Nat.le_refl _, hrest⟩
    rw [runUpTo_of_eq hfar, filter_run_of_le hqueue, hall hseen]
  | case3 seen a depth rest hne new ih =>
    have hdepth : depth ≤ radius := hseen _ (h.suffix.subset List.mem_cons_self)
    rw [run]
    refine ih h.step (List.forall_mem_append.2 ⟨hseen, fun p hp => ?_⟩)
    obtain ⟨b, -, rfl⟩ := List.mem_map.1 hp
    exact Nat.lt_of_le_of_ne hdepth hne

/-- A search up to a distance finds what the whole search finds that far. -/
theorem breadthFirstUpTo_eq_filter : breadthFirstUpTo domain next starts radius =
    (breadthFirst domain next starts).filter fun p => p.2 ≤ radius := by
  refine runUpTo_eq_filter keepsDistances_starts fun p hp => ?_
  obtain ⟨a, -, rfl⟩ := List.mem_map.1 hp
  exact Nat.zero_le _

end Stitch.Search
