/-
Breadth-first search.

`breadthFirst domain next starts` lists what can be reached from the starting
points, each with its distance, in the order in which it is discovered: nearer
points come first, and among the successors of one point their own order
counts.  Only points of the domain are discovered, which is why a search comes
to an end.
-/
import Stitch.Distinct

namespace Stitch.Search

variable {α : Type} [DecidableEq α]

/-- The successors of a point that are in the domain and not yet seen. -/
def discovered (domain : List α) (next : α → List α) (seen : List (α × Nat)) (a : α) : List α :=
  distinct <| (next a).filter fun b =>
    decide (b ∈ domain) && !seen.any fun s => decide (s.1 = b)

/-- The points of the domain that are still to be discovered. -/
def unseen (domain : List α) (seen : List (α × Nat)) : List α :=
  domain.filter fun b => !seen.any fun s => decide (s.1 = b)

theorem length_unseen_lt {domain : List α} {next : α → List α} {seen : List (α × Nat)} {a : α}
    (h : discovered domain next seen a ≠ []) (depth : Nat) :
    (unseen domain (seen ++ (discovered domain next seen a).map fun b => (b, depth))).length <
      (unseen domain seen).length := by
  obtain ⟨b, hb⟩ := List.exists_mem_of_ne_nil _ h
  have hb' := hb
  simp only [discovered, mem_distinct, List.mem_filter, Bool.and_eq_true,
    decide_eq_true_eq, Bool.not_eq_true'] at hb'
  obtain ⟨-, hdomain, hseen⟩ := hb'
  -- What is unseen afterwards is what was unseen before, less the new points.
  have hsplit : unseen domain (seen ++ (discovered domain next seen a).map fun b => (b, depth)) =
      (unseen domain seen).filter fun c =>
        !((discovered domain next seen a).map fun b => (b, depth)).any
          fun s => decide (s.1 = c) := by
    simp only [unseen, List.filter_filter, List.any_append, Bool.not_or]
    exact List.filter_congr fun c _ => Bool.and_comm _ _
  rw [hsplit]
  -- Were it as long as before, the new point `b` would still be unseen.
  refine Nat.lt_of_le_of_ne (List.length_filter_le _ _) fun heq => ?_
  have hall := List.length_filter_eq_length_iff.1 heq b
    (by simp only [unseen, List.mem_filter]; exact ⟨hdomain, by simp [hseen]⟩)
  simp only [Bool.not_eq_true', List.any_eq_false, List.mem_map] at hall
  exact hall (b, depth) ⟨b, hb, rfl⟩ (by simp)

/-- Goes on with a search: what has been seen so far, and the queue of those
points whose successors have not been looked at. -/
def run (domain : List α) (next : α → List α) (seen queue : List (α × Nat)) :
    List (α × Nat) :=
  match queue with
  | [] => seen
  | (a, depth) :: rest =>
    let new := (discovered domain next seen a).map fun b => (b, depth + 1)
    run domain next (seen ++ new) (rest ++ new)
termination_by ((unseen domain seen).length, queue.length)
decreasing_by
  -- Either nothing is discovered and the queue is shorter, or less is unseen.
  by_cases h : discovered domain next seen a = []
  · simp only [h, List.map_nil, List.append_nil]
    exact Prod.Lex.right _ (Nat.lt_succ_self _)
  · exact Prod.Lex.left _ _ (length_unseen_lt h (depth + 1))

/-- What can be reached from the starting points, with distances. -/
def breadthFirst (domain : List α) (next : α → List α) (starts : List α) : List (α × Nat) :=
  let first := (distinct starts).map fun a => (a, 0)
  run domain next first first

end Stitch.Search
