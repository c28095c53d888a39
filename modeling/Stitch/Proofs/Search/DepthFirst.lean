/-
Depth-first search.

The points of a stack are visited from its top, and the successors of a point that is visited come
on top of it, unless they were visited before.  From each starting point the search begins with a
new stack, but what was visited stays visited, so that no point is visited twice.

A search from some points visits each point that can be reached from them once, whatever order the
successors of a point come in (`depthFirst_perm`).  The invariant (`Descends`) is that the
successors of what was visited were visited too, or are on the stack.
-/
import Stitch.Proofs.Search.Distance

namespace Stitch.Search

variable {α : Type} [DecidableEq α] {domain : List α} {next : α → List α} {starts : List α}
  {visited stack : List α} {a b : α}

/-- The points of the domain that were not visited. -/
def unvisited (domain visited : List α) : List α := domain.filter fun a => a ∉ visited

theorem length_unvisited_lt (ha : a ∈ domain) (hnew : a ∉ visited) :
    (unvisited domain (visited ++ [a])).length < (unvisited domain visited).length := by
  have hsplit : unvisited domain (visited ++ [a]) =
      (unvisited domain visited).filter fun b => b ≠ a := by
    rw [unvisited, unvisited, List.filter_filter]
    refine List.filter_congr fun b _ => ?_
    rw [Bool.eq_iff_iff]
    simp [and_comm]
  rw [hsplit, List.length_filter_lt_length_iff_exists]
  exact ⟨a, List.mem_filter.2 ⟨ha, by simpa using hnew⟩, by simp⟩

/-- Visits the points of a stack and what they lead to: what was visited, in the order of the
visits.  Only points of the domain are visited. -/
def descend (domain : List α) (next : α → List α) (visited stack : List α) : List α :=
  match stack with
  | [] => visited
  | a :: rest =>
    if a ∈ domain ∧ a ∉ visited then
      descend domain next (visited ++ [a])
        (((next a).filter fun b => b ∉ visited ++ [a]).reverse ++ rest)
    else descend domain next visited rest
termination_by ((unvisited domain visited).length, stack.length)
decreasing_by
  · rename_i h
    exact Prod.Lex.left _ _ (length_unvisited_lt h.1 h.2)
  · exact Prod.Lex.right _ (Nat.lt_succ_self _)

/-- Visits what can be reached from some points, each with a stack of its own. -/
def depthFirst (domain : List α) (next : α → List α) (starts : List α) : List α :=
  starts.foldl (fun visited a => descend domain next visited [a]) []

/-- What holds of a search between two of its steps. -/
structure Descends (domain : List α) (next : α → List α) (starts : List α)
    (visited stack : List α) : Prop where
  nodup : visited.Nodup
  reaches : ∀ a ∈ visited, ∃ n, Reaches domain next starts n a
  reachesStack : ∀ a ∈ stack, a ∈ domain → ∃ n, Reaches domain next starts n a
  closed : ∀ a ∈ visited, ∀ b, Step domain next a b → b ∈ visited ∨ b ∈ stack

theorem Descends.visit {rest : List α} (h : Descends domain next starts visited (a :: rest))
    (ha : a ∈ domain) (hnew : a ∉ visited) : Descends domain next starts (visited ++ [a])
      (((next a).filter fun b => b ∉ visited ++ [a]).reverse ++ rest) := by
  have hreached := h.reachesStack a List.mem_cons_self ha
  have hstack : ∀ {b}, b ∈ ((next a).filter fun b => b ∉ visited ++ [a]).reverse ↔
      b ∈ next a ∧ b ∉ visited ++ [a] := by
    intro b
    rw [List.mem_reverse, List.mem_filter, decide_eq_true_eq]
  constructor
  case nodup =>
    exact List.nodup_append'.2 ⟨h.nodup, List.nodup_singleton a, by simpa using hnew⟩
  case reaches =>
    exact List.forall_mem_append.2 ⟨h.reaches, List.forall_mem_singleton.2 hreached⟩
  case reachesStack =>
    intro b hb hdomain
    rcases List.mem_append.1 hb with hb | hb
    · obtain ⟨n, hn⟩ := hreached
      exact ⟨n + 1, hn.step ⟨(hstack.1 hb).1, hdomain⟩⟩
    · exact h.reachesStack b (List.mem_cons_of_mem _ hb) hdomain
  case closed =>
    intro c hc b hstep
    by_cases hvisited : b ∈ visited ++ [a]
    · exact .inl hvisited
    · refine .inr (List.mem_append.2 ?_)
      rcases List.mem_append.1 hc with hc | hc
      · -- What an earlier visit left on the stack is still there, unless it is this point.
        rcases h.closed c hc b hstep with hb | hb
        · exact absurd (List.mem_append_left _ hb) hvisited
        · rcases List.mem_cons.1 hb with rfl | hb
          · exact absurd (List.mem_append_right _ (List.mem_singleton_self b)) hvisited
          · exact .inr hb
      · obtain rfl := List.mem_singleton.1 hc
        exact .inl (hstack.2 ⟨hstep.1, hvisited⟩)

/-- A point that was visited, or is none of the domain, can be taken from the stack. -/
theorem Descends.skip {rest : List α} (h : Descends domain next starts visited (a :: rest))
    (hold : ¬(a ∈ domain ∧ a ∉ visited)) : Descends domain next starts visited rest := by
  refine ⟨h.nodup, h.reaches, fun b hb => h.reachesStack b (List.mem_cons_of_mem _ hb), ?_⟩
  intro c hc b hstep
  rcases h.closed c hc b hstep with hb | hb
  · exact .inl hb
  · rcases List.mem_cons.1 hb with rfl | hb
    · exact .inl (by simpa [hstep.2] using hold)
    · exact .inr hb

theorem Descends.descend (h : Descends domain next starts visited stack) :
    Descends domain next starts (descend domain next visited stack) [] := by
  fun_induction Search.descend domain next visited stack with
  | case1 visited => exact h
  | case2 visited a rest hnew ih => exact ih (h.visit hnew.1 hnew.2)
  | case3 visited a rest hold ih => exact ih (h.skip hold)

/-- What was visited stays visited, in front of all that is visited later. -/
theorem prefix_descend (domain : List α) (next : α → List α) (visited stack : List α) :
    visited <+: descend domain next visited stack := by
  fun_induction descend domain next visited stack with
  | case1 visited => exact List.prefix_rfl
  | case2 visited a rest hnew ih => exact (List.prefix_append visited [a]).trans ih
  | case3 visited a rest hold ih => exact ih

/-- The point on top of the stack is visited, if it was not before. -/
theorem mem_descend (ha : a ∈ domain) (visited rest : List α) :
    a ∈ descend domain next visited (a :: rest) := by
  rw [descend]
  split
  next =>
    refine (prefix_descend _ _ _ _).subset (List.mem_append_right _ ?_)
    exact List.mem_singleton_self a
  next hold =>
    have hvisited : a ∈ visited := by simpa [ha] using hold
    exact (prefix_descend _ _ _ _).subset hvisited

/-- The starting points, one after another. -/
theorem descends_foldl {todo : List α} (htodo : todo ⊆ starts)
    (h : Descends domain next starts visited []) :
    Descends domain next starts
      (todo.foldl (fun visited a => descend domain next visited [a]) visited) [] := by
  induction todo generalizing visited with
  | nil => exact h
  | cons a todo ih =>
    obtain ⟨ha, htodo⟩ := List.cons_subset.1 htodo
    have hstack : Descends domain next starts visited [a] :=
      ⟨h.nodup, h.reaches, fun b hb _ => ⟨0, .start (List.mem_singleton.1 hb ▸ ha)⟩,
        fun b hb c hstep => .inl ((h.closed b hb c hstep).elim id fun hc => nomatch hc)⟩
    exact ih htodo hstack.descend

theorem mem_foldl_descend {todo : List α} (htodo : todo ⊆ domain) (ha : a ∈ todo ∨ a ∈ visited) :
    a ∈ todo.foldl (fun visited a => descend domain next visited [a]) visited := by
  induction todo generalizing visited with
  | nil => exact ha.elim (fun h => nomatch h) id
  | cons b todo ih =>
    obtain ⟨hb, htodo⟩ := List.cons_subset.1 htodo
    refine ih htodo ?_
    rcases ha with ha | ha
    · rcases List.mem_cons.1 ha with rfl | ha
      · exact .inr (mem_descend hb visited [])
      · exact .inl ha
    · exact .inr ((prefix_descend _ _ _ _).subset ha)

theorem descends_depthFirst : Descends domain next starts (depthFirst domain next starts) [] :=
  descends_foldl (List.Subset.refl starts) ⟨List.nodup_nil, by simp, by simp, by simp⟩

theorem nodup_depthFirst : (depthFirst domain next starts).Nodup := descends_depthFirst.nodup

theorem mem_depthFirst_iff (hstarts : starts ⊆ domain) :
    a ∈ depthFirst domain next starts ↔ ∃ n, Reaches domain next starts n a := by
  refine ⟨descends_depthFirst.reaches a, ?_⟩
  rintro ⟨n, h⟩
  induction h with
  | start ha => exact mem_foldl_descend hstarts (.inl ha)
  | step _ hstep ih => exact (descends_depthFirst.closed _ ih _ hstep).elim id fun h => nomatch h

/-- A search visits what a breadth-first search finds. -/
theorem depthFirst_perm (hstarts : starts ⊆ domain) :
    (depthFirst domain next starts).Perm ((breadthFirst domain next starts).map (·.1)) := by
  refine (List.perm_ext_iff_of_nodup nodup_depthFirst nodup_breadthFirst).2 fun a => ?_
  rw [mem_depthFirst_iff hstarts, mem_map_breadthFirst_iff_reaches]

end Stitch.Search
