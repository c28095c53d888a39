/-
What a breadth-first search finds.

* `exists_mem_breadthFirst`: every point of the domain that steps inside the
  domain lead to from a starting point is found, and nothing else is
  (`mem_map_breadthFirst_iff`);
* `mem_breadthFirst_one`: a successor of the only starting point is found at
  distance 1;
* `pos_or_mem_starts`: only starting points have the distance 0;
* `take_breadthFirst_congr`: what comes up to a point is decided by the steps
  from the points before it, so that searches which go the same steps from these
  agree as far.

The search keeps two lists, and its invariant (`Covers`) is that the successors
of every point that was seen were seen too, unless the point is still in the
queue.  At the end the queue is empty, so what was seen is closed.
-/
import Mathlib.Logic.Relation
import Stitch.Search

namespace Stitch.Search

variable {α : Type} [DecidableEq α] {domain : List α} {next : α → List α}

/-- One step of a search: a successor in the domain. -/
def Step (domain : List α) (next : α → List α) (a b : α) : Prop := b ∈ next a ∧ b ∈ domain

/-- The successors of all that was seen were seen too, but for those of the queue. -/
def Covers (domain : List α) (next : α → List α) (seen queue : List (α × Nat)) : Prop :=
  ∀ p ∈ seen, p ∈ queue ∨ ∀ b, Step domain next p.1 b → b ∈ seen.map (·.1)

theorem mem_discovered {seen : List (α × Nat)} {a b : α} :
    b ∈ discovered domain next seen a ↔ Step domain next a b ∧ b ∉ seen.map (·.1) := by
  simp only [discovered, mem_distinct, List.mem_filter, Bool.and_eq_true, decide_eq_true_eq,
    Bool.not_eq_true', List.any_eq_false, Step, List.mem_map, not_exists, not_and, and_assoc]

/-- What was seen stays seen, in front of all that is found later. -/
theorem prefix_run (domain : List α) (next : α → List α) (seen queue : List (α × Nat)) :
    seen <+: run domain next seen queue := by
  fun_induction run domain next seen queue with
  | case1 seen => exact List.prefix_rfl
  | case2 seen a depth rest new ih => exact (List.prefix_append seen new).trans ih

theorem mem_run {seen queue : List (α × Nat)} {p : α × Nat} (h : p ∈ seen) :
    p ∈ run domain next seen queue :=
  (prefix_run domain next seen queue).subset h

theorem covers_step {seen rest : List (α × Nat)} {a : α} {depth : Nat}
    (h : Covers domain next seen ((a, depth) :: rest)) :
    Covers domain next
      (seen ++ (discovered domain next seen a).map fun b => (b, depth + 1))
      (rest ++ (discovered domain next seen a).map fun b => (b, depth + 1)) := by
  intro p hp
  rcases List.mem_append.1 hp with hp | hp
  · rcases h p hp with hqueue | hclosed
    · rcases List.mem_cons.1 hqueue with rfl | hrest
      · -- The point taken from the queue: its successors are old or newly discovered.
        refine .inr fun b hb => ?_
        rw [List.map_append, List.mem_append]
        by_cases hseen : b ∈ seen.map (·.1)
        · exact .inl hseen
        · exact .inr (by simpa using mem_discovered.2 ⟨hb, hseen⟩)
      · exact .inl (List.mem_append_left _ hrest)
    · refine .inr fun b hb => ?_
      rw [List.map_append, List.mem_append]
      exact .inl (hclosed b hb)
  · exact .inl (List.mem_append_right _ hp)

/-- A search that has covered all but its queue ends with a closed list. -/
theorem run_closed (seen queue : List (α × Nat)) (h : Covers domain next seen queue) {a b : α}
    (ha : a ∈ (run domain next seen queue).map (·.1)) (hstep : Step domain next a b) :
    b ∈ (run domain next seen queue).map (·.1) := by
  fun_induction run domain next seen queue with
  | case1 seen =>
    obtain ⟨p, hp, rfl⟩ := List.mem_map.1 ha
    rcases h p hp with hqueue | hclosed
    · cases hqueue
    · exact hclosed b hstep
  | case2 seen c depth rest new ih => exact ih (covers_step h) ha

theorem pos_of_mem_run {seen queue : List (α × Nat)} {p : α × Nat}
    (h : p ∈ run domain next seen queue) : p ∈ seen ∨ 0 < p.2 := by
  fun_induction run domain next seen queue with
  | case1 seen => exact .inl h
  | case2 seen a depth rest new ih =>
    rcases ih h with hseen | hpos
    · rcases List.mem_append.1 hseen with hold | hnew
      · exact .inl hold
      · obtain ⟨b, -, rfl⟩ := List.mem_map.1 hnew
        exact .inr (Nat.succ_pos _)
    · exact .inr hpos

theorem mem_map_breadthFirst {starts : List α} {a b : α} (ha : a ∈ starts)
    (h : Relation.ReflTransGen (Step domain next) a b) :
    b ∈ (breadthFirst domain next starts).map (·.1) := by
  induction h with
  | refl =>
    have hmem : (a, 0) ∈ (distinct starts).map fun a => (a, 0) := by simpa using ha
    exact List.mem_map_of_mem (f := Prod.fst) (mem_run hmem)
  | tail _ hstep ih => exact run_closed _ _ (fun p hp => .inl hp) ih hstep

/-- Whatever steps lead to from a starting point is found, at some distance. -/
theorem exists_mem_breadthFirst {starts : List α} {a b : α} (ha : a ∈ starts)
    (h : Relation.ReflTransGen (Step domain next) a b) :
    ∃ n, (b, n) ∈ breadthFirst domain next starts := by
  obtain ⟨⟨_, n⟩, hmem, rfl⟩ := List.mem_map.1 (mem_map_breadthFirst ha h)
  exact ⟨n, hmem⟩

theorem mem_breadthFirst_one {a b : α} (hne : b ≠ a) (hstep : Step domain next a b) :
    (b, 1) ∈ breadthFirst domain next [a] := by
  have hnew : b ∈ discovered domain next [(a, 0)] a :=
    mem_discovered.2 ⟨hstep, by simpa using hne⟩
  rw [breadthFirst]
  show (b, 1) ∈ run domain next [(a, 0)] [(a, 0)]
  rw [run]
  exact mem_run (List.mem_append_right _ (List.mem_map_of_mem (f := fun b => (b, 1)) hnew))

theorem pos_or_mem_starts {starts : List α} {p : α × Nat}
    (h : p ∈ breadthFirst domain next starts) : p.1 ∈ starts ∨ 0 < p.2 := by
  rcases pos_of_mem_run h with hstart | hpos
  · obtain ⟨a, ha, rfl⟩ := List.mem_map.1 hstart
    exact .inl (mem_distinct.1 ha)
  · exact .inr hpos

/-- Whatever a search finds is a starting point or in the domain. -/
theorem mem_of_mem_run {seen queue : List (α × Nat)} {p : α × Nat}
    (h : p ∈ run domain next seen queue) : p ∈ seen ∨ p.1 ∈ domain := by
  fun_induction run domain next seen queue with
  | case1 seen => exact .inl h
  | case2 seen a depth rest new ih =>
    rcases ih h with hseen | hdomain
    · rcases List.mem_append.1 hseen with hold | hnew
      · exact .inl hold
      · obtain ⟨b, hb, rfl⟩ := List.mem_map.1 hnew
        exact .inr (mem_discovered.1 hb).1.2
    · exact .inr hdomain

theorem mem_starts_or_mem_domain {starts : List α} {p : α × Nat}
    (h : p ∈ breadthFirst domain next starts) : p.1 ∈ starts ∨ p.1 ∈ domain := by
  rcases mem_of_mem_run h with hstart | hdomain
  · obtain ⟨a, ha, rfl⟩ := List.mem_map.1 hstart
    exact .inl (mem_distinct.1 ha)
  · exact .inr hdomain

/-- Whatever a search finds is reached by steps from a starting point. -/
theorem reachable_of_mem_run {starts : List α} {seen queue : List (α × Nat)}
    (hseen : ∀ p ∈ seen, ∃ a ∈ starts, Relation.ReflTransGen (Step domain next) a p.1)
    (hqueue : queue ⊆ seen) {p : α × Nat} (h : p ∈ run domain next seen queue) :
    ∃ a ∈ starts, Relation.ReflTransGen (Step domain next) a p.1 := by
  fun_induction run domain next seen queue with
  | case1 seen => exact hseen p h
  | case2 seen a depth rest new ih =>
    refine ih (fun q hq => ?_) (fun q hq => ?_) h
    · rcases List.mem_append.1 hq with hold | hnew
      · exact hseen q hold
      · obtain ⟨b, hb, rfl⟩ := List.mem_map.1 hnew
        obtain ⟨start, hstart, hreach⟩ := hseen _ (hqueue List.mem_cons_self)
        exact ⟨start, hstart, hreach.tail (mem_discovered.1 hb).1⟩
    · rcases List.mem_append.1 hq with hrest | hnew
      · exact List.mem_append_left _ (hqueue (List.mem_cons_of_mem _ hrest))
      · exact List.mem_append_right _ hnew

theorem mem_map_breadthFirst_iff {starts : List α} {b : α} :
    b ∈ (breadthFirst domain next starts).map (·.1) ↔
      ∃ a ∈ starts, Relation.ReflTransGen (Step domain next) a b := by
  constructor
  · intro h
    obtain ⟨p, hp, rfl⟩ := List.mem_map.1 h
    refine reachable_of_mem_run (fun q hq => ?_) (List.Subset.refl _) hp
    obtain ⟨a, ha, rfl⟩ := List.mem_map.1 hq
    exact ⟨a, mem_distinct.1 ha, .refl⟩
  · rintro ⟨a, ha, hreach⟩
    exact mem_map_breadthFirst ha hreach

/-! ### Searches that are short -/

/-- A search that looks at so many points at most, and gives up if more are left. -/
def runWithin (domain : List α) (next : α → List α) :
    Nat → List (α × Nat) → List (α × Nat) → Option (List (α × Nat))
  | _, seen, [] => some seen
  | 0, _, _ :: _ => none
  | n + 1, seen, (a, depth) :: rest =>
    let new := (discovered domain next seen a).map fun b => (b, depth + 1)
    runWithin domain next n (seen ++ new) (rest ++ new)

theorem run_eq_of_runWithin {n : Nat} {seen queue found : List (α × Nat)}
    (h : runWithin domain next n seen queue = some found) : run domain next seen queue = found := by
  fun_induction runWithin domain next n seen queue with
  | case1 n seen =>
    rw [run]
    exact Option.some.inj h
  | case2 seen p rest => cases h
  | case3 n seen a depth rest new ih =>
    rw [run]
    exact ih h

/-- A short search can be computed step by step. -/
theorem breadthFirst_eq_of_runWithin {n : Nat} {a : α} {found : List (α × Nat)}
    (h : runWithin domain next n [(a, 0)] [(a, 0)] = some found) :
    breadthFirst domain next [a] = found :=
  run_eq_of_runWithin h

/-! ### Searches that agree -/

variable {domain' : List α} {next' : α → List α}

/-- A search that can go more steps finds no less. -/
theorem mem_map_breadthFirst_mono
    (h : ∀ a b, Step domain next a b → Step domain' next' a b) {starts : List α} {b : α}
    (hb : b ∈ (breadthFirst domain next starts).map (·.1)) :
    b ∈ (breadthFirst domain' next' starts).map (·.1) := by
  obtain ⟨a, ha, hreach⟩ := mem_map_breadthFirst_iff.1 hb
  exact mem_map_breadthFirst_iff.2 ⟨a, ha, Relation.ReflTransGen.mono h _ _ hreach⟩

/-- The successors of a point in the domain of a search. -/
def stepsFrom (domain : List α) (next : α → List α) (a : α) : List α :=
  (next a).filter fun b => decide (b ∈ domain)

theorem discovered_eq_of_stepsFrom_eq {a : α}
    (h : stepsFrom domain next a = stepsFrom domain' next' a) (seen : List (α × Nat)) :
    discovered domain next seen a = discovered domain' next' seen a := by
  have hsplit : ∀ (domain : List α) (next : α → List α), discovered domain next seen a =
      distinct ((stepsFrom domain next a).filter fun b => !seen.any fun s => decide (s.1 = b)) := by
    intro domain next
    rw [stepsFrom, List.filter_filter]
    simp only [discovered, Bool.and_comm]
  rw [hsplit, hsplit, h]

/-- Which point a search finds next is decided by the successors of those before it. -/
theorem take_run_congr (done queue : List (α × Nat)) {k : Nat}
    (h : ∀ p ∈ (run domain next (done ++ queue) queue).take k,
      stepsFrom domain next p.1 = stepsFrom domain' next' p.1) :
    (run domain next (done ++ queue) queue).take (k + 1) =
      (run domain' next' (done ++ queue) queue).take (k + 1) := by
  generalize hseen : done ++ queue = seen at h ⊢
  fun_induction run domain next seen queue generalizing done with
  | case1 seen => rw [run]
  | case2 seen a depth rest new ih =>
    rcases Nat.lt_or_ge done.length k with hlt | hle
    · -- The point in front of the queue is among the first `k`, so both searches
      -- discover the same from it.
      have hfront : (a, depth) ∈ (run domain next (seen ++ new) (rest ++ new)).take k := by
        obtain ⟨tail, htail⟩ := prefix_run domain next (seen ++ new) (rest ++ new)
        refine List.mem_iff_getElem?.2 ⟨done.length, ?_⟩
        rw [List.getElem?_take, if_pos hlt, ← htail, ← hseen]
        simp
      have hnew : (discovered domain' next' seen a).map (fun b => (b, depth + 1)) = new := by
        rw [← discovered_eq_of_stepsFrom_eq (h _ hfront)]
      rw [run, hnew]
      exact ih (done ++ [(a, depth)]) (by rw [← hseen]; simp) h
    · -- What was seen already decides the first `k + 1`.
      have hlength : k + 1 ≤ seen.length := by
        rw [← hseen, List.length_append, List.length_cons]
        omega
      obtain ⟨tail, htail⟩ := prefix_run domain next (seen ++ new) (rest ++ new)
      obtain ⟨tail', htail'⟩ := prefix_run domain' next' seen ((a, depth) :: rest)
      rw [← htail, ← htail', List.append_assoc, List.take_append_of_le_length hlength,
        List.take_append_of_le_length hlength]

theorem take_breadthFirst_congr {starts : List α} {k : Nat}
    (h : ∀ p ∈ (breadthFirst domain next starts).take k,
      stepsFrom domain next p.1 = stepsFrom domain' next' p.1) :
    (breadthFirst domain next starts).take (k + 1) =
      (breadthFirst domain' next' starts).take (k + 1) :=
  take_run_congr [] _ h

/-- Searches that go the same steps from all that one of them finds are the same. -/
theorem breadthFirst_congr {starts : List α}
    (h : ∀ p ∈ breadthFirst domain next starts,
      stepsFrom domain next p.1 = stepsFrom domain' next' p.1) :
    breadthFirst domain next starts = breadthFirst domain' next' starts := by
  have htake := take_breadthFirst_congr (k := (breadthFirst domain next starts).length)
    fun p hp => h p (List.mem_of_mem_take hp)
  rw [List.take_of_length_le (Nat.le_succ _)] at htake
  -- The other search finds no more, or its first points would be too many.
  have hlength : (breadthFirst domain' next' starts).length ≤
      (breadthFirst domain next starts).length := by
    have := congrArg List.length htake
    rw [List.length_take] at this
    omega
  rw [List.take_of_length_le (Nat.le_succ_of_le hlength)] at htake
  exact htake

end Stitch.Search
