/-
The distances that a breadth-first search finds.

A point is listed once, with the least number of steps that lead to it from a starting point
(`mem_breadthFirst_iff`), and nearer points come first (`pairwise_breadthFirst`).  So the
order in which the successors of a point are looked at decides nothing but the order among
points of one distance: searches that go the same steps find the same (`breadthFirst_perm`).
No distance is left out, so that none is greater than the number of points allows
(`lt_length_of_mem_breadthFirst`).

The invariant (`KeepsDistances`) is that no point that was seen is farther away than one step
behind the queue, and that the successors of what has left the queue are at most one step
farther away.
-/
import Mathlib.Data.List.Nodup
import Mathlib.Data.List.Perm.Subperm
import Stitch.Proofs.Search

namespace Stitch.Search

variable {α : Type} [DecidableEq α] {domain : List α} {next : α → List α} {starts : List α}

/-- So many steps lead from a starting point to a point. -/
inductive Reaches (domain : List α) (next : α → List α) (starts : List α) : Nat → α → Prop
  | start {a : α} (ha : a ∈ starts) : Reaches domain next starts 0 a
  | step {n : Nat} {a b : α} (ha : Reaches domain next starts n a)
    (hstep : Step domain next a b) : Reaches domain next starts (n + 1) b

/-- What holds of a search between two of its steps. -/
structure KeepsDistances (domain : List α) (next : α → List α) (starts : List α)
    (seen queue : List (α × Nat)) : Prop where
  start : ∀ a ∈ starts, (a, 0) ∈ seen
  reaches : ∀ p ∈ seen, Reaches domain next starts p.2 p.1
  nodup : (seen.map (·.1)).Nodup
  sorted : seen.Pairwise fun p q => p.2 ≤ q.2
  suffix : queue <:+ seen
  near : ∀ p ∈ seen, ∀ q ∈ queue, p.2 ≤ q.2 + 1
  closed : ∀ p ∈ seen, p ∈ queue ∨
    ∀ b, Step domain next p.1 b → ∃ n ≤ p.2 + 1, (b, n) ∈ seen

theorem keepsDistances_starts :
    KeepsDistances domain next starts ((distinct starts).map fun a => (a, 0))
      ((distinct starts).map fun a => (a, 0)) := by
  have hzero : ∀ p ∈ (distinct starts).map fun a => (a, 0), p.2 = 0 ∧ p.1 ∈ starts := by
    intro p hp
    obtain ⟨a, ha, rfl⟩ := List.mem_map.1 hp
    exact ⟨rfl, mem_distinct.1 ha⟩
  refine ⟨fun a ha => List.mem_map.2 ⟨a, mem_distinct.2 ha, rfl⟩, fun p hp => ?_, ?_, ?_,
    List.suffix_rfl, fun p hp q _ => ?_, fun p hp => .inl hp⟩
  · rw [(hzero p hp).1]
    exact .start (hzero p hp).2
  · simpa [Function.comp_def] using nodup_distinct starts
  · exact List.pairwise_of_forall_mem_list fun p hp q _ => by simp [(hzero p hp).1]
  · simp [(hzero p hp).1]

theorem KeepsDistances.step {seen rest : List (α × Nat)} {a : α} {depth : Nat}
    (h : KeepsDistances domain next starts seen ((a, depth) :: rest)) :
    KeepsDistances domain next starts
      (seen ++ (discovered domain next seen a).map fun b => (b, depth + 1))
      (rest ++ (discovered domain next seen a).map fun b => (b, depth + 1)) := by
  obtain ⟨front, hfront⟩ := h.suffix
  have hhead : (a, depth) ∈ seen := h.suffix.subset List.mem_cons_self
  have hrest : ∀ q ∈ rest, depth ≤ q.2 :=
    (List.pairwise_cons.1 (h.sorted.sublist h.suffix.sublist)).1
  have hseen : ∀ p ∈ seen, p.2 ≤ depth + 1 := fun p hp => h.near p hp _ List.mem_cons_self
  have hnew : ∀ p ∈ (discovered domain next seen a).map fun b => (b, depth + 1),
      p.2 = depth + 1 ∧ p.1 ∈ discovered domain next seen a := by
    intro p hp
    obtain ⟨b, hb, rfl⟩ := List.mem_map.1 hp
    exact ⟨rfl, hb⟩
  constructor
  case start => exact fun s hs => List.mem_append_left _ (h.start s hs)
  case reaches =>
    intro p hp
    rcases List.mem_append.1 hp with hp | hp
    · exact h.reaches p hp
    · obtain ⟨hdepth, hb⟩ := hnew p hp
      rw [hdepth]
      exact (h.reaches _ hhead).step (mem_discovered.1 hb).1
  case nodup =>
    rw [List.map_append, List.map_map]
    refine List.nodup_append'.2 ⟨h.nodup, ?_, fun b hb hb' => ?_⟩
    · rw [Function.comp_def, List.map_id']
      exact nodup_distinct _
    · exact (mem_discovered.1 (by simpa [Function.comp_def] using hb')).2 hb
  case sorted =>
    refine List.pairwise_append.2 ⟨h.sorted, ?_, fun p hp q hq => ?_⟩
    · exact List.pairwise_of_forall_mem_list fun p hp q hq =>
        Nat.le_of_eq ((hnew p hp).1.trans (hnew q hq).1.symm)
    · rw [(hnew q hq).1]
      exact hseen p hp
  case suffix => exact ⟨front ++ [(a, depth)], by simp [← hfront]⟩
  case near =>
    intro p hp q hq
    rcases List.mem_append.1 hp with hp | hp <;> rcases List.mem_append.1 hq with hq | hq
    · exact h.near p hp q (List.mem_cons_of_mem _ hq)
    · rw [(hnew q hq).1]
      exact Nat.le_succ_of_le (hseen p hp)
    · rw [(hnew p hp).1]
      exact Nat.succ_le_succ (hrest q hq)
    · rw [(hnew p hp).1, (hnew q hq).1]
      exact Nat.le_succ _
  case closed =>
    intro p hp
    rcases List.mem_append.1 hp with hp | hp
    · rcases h.closed p hp with hqueue | hclosed
      · rcases List.mem_cons.1 hqueue with rfl | hqueue
        · -- The point taken from the queue: its successors are old or newly discovered.
          refine .inr fun b hb => ?_
          by_cases hold : b ∈ seen.map (·.1)
          · obtain ⟨⟨_, n⟩, hmem, rfl⟩ := List.mem_map.1 hold
            exact ⟨n, hseen _ hmem, List.mem_append_left _ hmem⟩
          · exact ⟨depth + 1, Nat.le_refl _, List.mem_append_right _
              (List.mem_map.2 ⟨b, mem_discovered.2 ⟨hb, hold⟩, rfl⟩)⟩
        · exact .inl (List.mem_append_left _ hqueue)
      · refine .inr fun b hb => ?_
        obtain ⟨n, hn, hmem⟩ := hclosed b hb
        exact ⟨n, hn, List.mem_append_left _ hmem⟩
    · exact .inl (List.mem_append_right _ hp)

theorem KeepsDistances.run {seen queue : List (α × Nat)}
    (h : KeepsDistances domain next starts seen queue) :
    KeepsDistances domain next starts (run domain next seen queue) [] := by
  fun_induction Search.run domain next seen queue with
  | case1 seen => exact h
  | case2 seen a depth rest new ih => exact ih h.step

theorem keepsDistances_breadthFirst :
    KeepsDistances domain next starts (breadthFirst domain next starts) [] :=
  keepsDistances_starts.run

omit [DecidableEq α] in
/-- At the end nothing is missed, nor found farther away than it is. -/
theorem KeepsDistances.exists_le {seen : List (α × Nat)}
    (h : KeepsDistances domain next starts seen []) {n : Nat} {b : α}
    (hb : Reaches domain next starts n b) : ∃ m ≤ n, (b, m) ∈ seen := by
  induction hb with
  | start ha => exact ⟨0, Nat.le_refl _, h.start _ ha⟩
  | step _ hstep ih =>
    obtain ⟨m, hm, hmem⟩ := ih
    rcases h.closed _ hmem with hqueue | hclosed
    · cases hqueue
    · obtain ⟨k, hk, hmem⟩ := hclosed _ hstep
      exact ⟨k, Nat.le_trans hk (Nat.succ_le_succ hm), hmem⟩

/-- Every point is found at its distance. -/
theorem mem_breadthFirst_iff {b : α} {n : Nat} :
    (b, n) ∈ breadthFirst domain next starts ↔
      Reaches domain next starts n b ∧ ∀ m < n, ¬Reaches domain next starts m b := by
  have h : KeepsDistances domain next starts (breadthFirst domain next starts) [] :=
    keepsDistances_breadthFirst
  constructor
  · intro hmem
    refine ⟨h.reaches _ hmem, fun m hm hreaches => ?_⟩
    obtain ⟨k, hk, hmem'⟩ := h.exists_le hreaches
    have heq := List.inj_on_of_nodup_map h.nodup hmem hmem' rfl
    rw [Prod.mk.injEq] at heq
    omega
  · rintro ⟨hreaches, hleast⟩
    obtain ⟨m, hm, hmem⟩ := h.exists_le hreaches
    obtain rfl : m = n := by
      by_contra hne
      exact hleast m (Nat.lt_of_le_of_ne hm hne) (h.reaches _ hmem)
    exact hmem

theorem pairwise_breadthFirst :
    (breadthFirst domain next starts).Pairwise fun p q => p.2 ≤ q.2 :=
  keepsDistances_breadthFirst.sorted

theorem nodup_breadthFirst : ((breadthFirst domain next starts).map (·.1)).Nodup :=
  keepsDistances_breadthFirst.nodup

/-- Whatever leads to a point in so many steps, it is found, and no farther away. -/
theorem exists_mem_breadthFirst_le {b : α} {n : Nat} (h : Reaches domain next starts n b) :
    ∃ m ≤ n, (b, m) ∈ breadthFirst domain next starts :=
  keepsDistances_breadthFirst.exists_le h

theorem mem_map_breadthFirst_iff_reaches {b : α} :
    b ∈ (breadthFirst domain next starts).map (·.1) ↔ ∃ n, Reaches domain next starts n b := by
  rw [List.mem_map]
  constructor
  · rintro ⟨⟨_, n⟩, hfound, rfl⟩
    exact ⟨n, (mem_breadthFirst_iff.1 hfound).1⟩
  · rintro ⟨n, hreaches⟩
    obtain ⟨m, -, hfound⟩ := exists_mem_breadthFirst_le hreaches
    exact ⟨(b, m), hfound, rfl⟩

/-- Up to a distance at which something is found, something is found at every distance. -/
theorem exists_mem_breadthFirst_of_le {b : α} {n m : Nat}
    (h : (b, n) ∈ breadthFirst domain next starts) (hm : m ≤ n) :
    ∃ a, (a, m) ∈ breadthFirst domain next starts := by
  induction n generalizing b with
  | zero => exact ⟨b, Nat.le_zero.1 hm ▸ h⟩
  | succ n ih =>
    rcases Nat.lt_or_ge n m with hlt | hle
    · exact ⟨b, Nat.le_antisymm hm hlt ▸ h⟩
    · obtain ⟨hreaches, hleast⟩ := mem_breadthFirst_iff.1 h
      -- The point before the last step is one step nearer, or this one would be nearer too.
      cases hreaches with
      | @step _ a _ ha hstep =>
        refine ih (mem_breadthFirst_iff.2 ⟨ha, fun k hk hnear => ?_⟩) hle
        exact hleast (k + 1) (Nat.succ_lt_succ hk) (hnear.step hstep)

/-- A search from points of the domain finds nothing farther away than the domain is long. -/
theorem lt_length_of_mem_breadthFirst (hstarts : starts ⊆ domain) {b : α} {n : Nat}
    (h : (b, n) ∈ breadthFirst domain next starts) : n < domain.length := by
  have hdistances : List.range (n + 1) ⊆ (breadthFirst domain next starts).map (·.2) := by
    intro m hm
    obtain ⟨a, ha⟩ := exists_mem_breadthFirst_of_le h (Nat.lt_succ_iff.1 (List.mem_range.1 hm))
    exact List.mem_map_of_mem ha
  have hpoints : (breadthFirst domain next starts).map (·.1) ⊆ domain := by
    intro a ha
    obtain ⟨p, hp, rfl⟩ := List.mem_map.1 ha
    exact (mem_starts_or_mem_domain hp).elim (fun hstart => hstarts hstart) id
  have hle := (List.Nodup.subperm List.nodup_range hdistances).length_le
  have hle' := (List.Nodup.subperm nodup_breadthFirst hpoints).length_le
  rw [List.length_range, List.length_map] at hle
  rw [List.length_map] at hle'
  omega

/-- Searches that go the same steps find the same. -/
theorem breadthFirst_perm {domain' : List α} {next' : α → List α}
    (h : ∀ a b, Step domain next a b ↔ Step domain' next' a b) :
    (breadthFirst domain next starts).Perm (breadthFirst domain' next' starts) := by
  have hreaches : ∀ n b, Reaches domain next starts n b ↔ Reaches domain' next' starts n b := by
    refine fun n b => ⟨fun hb => ?_, fun hb => ?_⟩
    · induction hb with
      | start ha => exact .start ha
      | step _ hstep ih => exact ih.step ((h _ _).1 hstep)
    · induction hb with
      | start ha => exact .start ha
      | step _ hstep ih => exact ih.step ((h _ _).2 hstep)
  refine (List.perm_ext_iff_of_nodup nodup_breadthFirst.of_map nodup_breadthFirst.of_map).2
    fun ⟨b, n⟩ => ?_
  simp only [mem_breadthFirst_iff, hreaches]

end Stitch.Search
