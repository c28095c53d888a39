/-
The order in which a breadth-first search finds its points.

A way is written down as the places that its steps have among the successors of the points
that it goes through, and `follow` says where it leads.  Of two ways the shorter one comes
first, and of two that are as long the one whose step has the smaller place where they first
differ: the order of ways is `List.Shortlex`.

* A search lists the points in the order of their first ways (`pairwise_breadthFirst_precedes`).
  So the first point that has something is the end of the first way that leads to such a point
  (`findSome?_breadthFirst_iff`).
* A search that knows no domain comes to the same (`explore_eq_breadthFirst`): if all successors
  are in a domain, its queue is empty after as many rounds as the domain has points, and one more.

The invariant (`KeepsOrder`) is that what was seen comes before all that was not.  A way to an
unseen point leaves what was seen by a step from the queue (`exists_step_of_follow`), and the
first way to the point in front of the queue comes before all ways to the others.
-/
import Mathlib.Data.List.Induction
import Mathlib.Data.List.Shortlex
import Stitch.Proofs.Search.Distance

namespace Stitch

/-- Of two items that stay, the earlier one has a place before every place of the other. -/
theorem pairwise_distinct_filter {α : Type} [DecidableEq α] (p : α → Bool) (as : List α) :
    (distinct (as.filter p)).Pairwise fun a b =>
      ∃ i : Nat, as[i]? = some a ∧ ∀ j : Nat, as[j]? = some b → i < j := by
  induction as with
  | nil => exact List.Pairwise.nil
  | cons c as ih =>
    -- Behind the first item all places are one greater.
    have hshift {a b : α} (hne : b ≠ c)
        (h : ∃ i : Nat, as[i]? = some a ∧ ∀ j : Nat, as[j]? = some b → i < j) :
        ∃ i : Nat, (c :: as)[i]? = some a ∧ ∀ j : Nat, (c :: as)[j]? = some b → i < j := by
      obtain ⟨i, hi, hlt⟩ := h
      refine ⟨i + 1, by simpa using hi, fun j hj => ?_⟩
      cases j with
      | zero => exact absurd (by simpa using hj.symm) hne
      | succ j => exact Nat.succ_lt_succ (hlt j (by simpa using hj))
    by_cases hc : p c
    · rw [List.filter_cons_of_pos hc]
      refine List.pairwise_cons.2 ⟨fun b hb => ⟨0, rfl, fun j hj => ?_⟩, ?_⟩
      · have hne : c ≠ b := by simpa using (List.mem_filter.1 hb).2
        cases j with
        | zero => exact absurd (by simpa using hj) hne
        | succ j => exact Nat.succ_pos j
      · refine (ih.sublist List.filter_sublist).imp_of_mem fun {a b} _ hb h => ?_
        have hne : c ≠ b := by simpa using (List.mem_filter.1 hb).2
        exact hshift hne.symm h
    · rw [List.filter_cons_of_neg hc]
      refine ih.imp_of_mem fun _ hb h => hshift ?_ h
      rintro rfl
      exact hc (List.mem_filter.1 (mem_distinct.1 hb)).2

namespace Search

/-! ### Ways -/

/-- A way comes before another one. -/
abbrev Earlier (v w : List Nat) : Prop := List.Shortlex (· < ·) v w

namespace Earlier

variable {u v w : List Nat}

theorem trans (huv : Earlier u v) (hvw : Earlier v w) : Earlier u w := by
  rw [Earlier, List.shortlex_def] at *
  rcases huv with hlt | ⟨heq, hlex⟩
  · rcases hvw with hlt' | ⟨heq', -⟩ <;> exact .inl (by omega)
  · rcases hvw with hlt' | ⟨heq', hlex'⟩
    · exact .inl (by omega)
    · exact .inr ⟨heq.trans heq', List.lt_trans (α := Nat) hlex hlex'⟩

/-- What comes before a way goes on before it. -/
theorem concat (h : Earlier v w) (i j : Nat) (rest : List Nat) :
    Earlier (v ++ [i]) (w ++ j :: rest) := by
  rw [Earlier, List.shortlex_def] at *
  rcases h with hlt | ⟨heq, hlex⟩
  · exact .inl (by simp; omega)
  · cases rest with
    | cons => exact .inl (by simp; omega)
    | nil =>
      refine .inr ⟨by simpa using heq, ?_⟩
      -- Ways that are as long differ at some step, whatever comes behind.
      induction hlex with
      | nil => simp at heq
      | cons _ ih => exact .cons (ih (by simpa using heq))
      | rel hlt => exact .rel hlt

theorem concat_of_lt {i j : Nat} (h : i < j) (v : List Nat) : Earlier (v ++ [i]) (v ++ [j]) :=
  List.Shortlex.append_left ((List.shortlex_singleton_iff i j).2 h) v

theorem cases (v w : List Nat) : Earlier v w ∨ v = w ∨ Earlier w v := by
  by_contra hnone
  rw [not_or, not_or] at hnone
  exact hnone.2.1 (Std.Trichotomous.trichotomous _ _ hnone.1 hnone.2.2)

end Earlier

variable {α : Type} {next : α → List α} {a b c : α} {v w : List Nat}

/-- Where a way leads. -/
def follow (next : α → List α) (a : α) (way : List Nat) : Option α :=
  way.foldlM (fun b i => (next b)[i]?) a

theorem follow_concat_eq_some_iff {i : Nat} :
    follow next a (v ++ [i]) = some c ↔ ∃ b, follow next a v = some b ∧ (next b)[i]? = some c := by
  rw [follow, List.foldlM_append, Option.bind_eq_bind, Option.bind_eq_some_iff]
  simp [follow]

/-- Of the ways to a point there is a first one. -/
theorem exists_first (h : follow next a v = some b) :
    ∃ v, follow next a v = some b ∧ ∀ w, follow next a w = some b → ¬Earlier w v :=
  (List.Shortlex.wf wellFounded_lt).has_min { v | follow next a v = some b } ⟨v, h⟩

/-- Some way to a point comes before all ways to another. -/
def Precedes (next : α → List α) (a b c : α) : Prop :=
  ∃ v, follow next a v = some b ∧ ∀ w, follow next a w = some c → Earlier v w

/-- The first way to a point comes before all that its ways come before. -/
theorem Precedes.earlier (h : Precedes next a b c)
    (hv : ∀ w, follow next a w = some b → ¬Earlier w v) (hw : follow next a w = some c) :
    Earlier v w := by
  obtain ⟨u, hu, hearlier⟩ := h
  rcases Earlier.cases v u with hlt | rfl | hgt
  · exact hlt.trans (hearlier w hw)
  · exact hearlier w hw
  · exact absurd hgt (hv u hu)

variable [DecidableEq α] {domain : List α}

/-- What holds of a search between two of its steps. -/
structure KeepsOrder (domain : List α) (next : α → List α) (a : α)
    (seen queue : List (α × Nat)) : Prop where
  start : a ∈ seen.map (·.1)
  suffix : queue <:+ seen
  covers : Covers domain next seen queue
  reached : ∀ p ∈ seen, ∃ v, follow next a v = some p.1
  sorted : seen.Pairwise fun p q => Precedes next a p.1 q.1
  unseen : ∀ p ∈ seen, ∀ b, b ∉ seen.map (·.1) → Precedes next a p.1 b

omit [DecidableEq α] in
theorem keepsOrder_start (domain : List α) (next : α → List α) (a : α) :
    KeepsOrder domain next a [(a, 0)] [(a, 0)] where
  start := by simp
  suffix := List.suffix_rfl
  covers _ hp := .inl hp
  reached p hp := ⟨[], by rw [List.mem_singleton.1 hp]; rfl⟩
  sorted := List.pairwise_singleton _ _
  unseen p hp b hb := by
    -- Only the empty way is as short as the empty way.
    refine ⟨[], by rw [List.mem_singleton.1 hp]; rfl, fun w hw => ?_⟩
    rcases List.shortlex_nil_or_eq_nil (r := (· < ·)) w with hlt | rfl
    · exact hlt
    · obtain rfl : a = b := Option.some.inj hw
      simp at hb

section Step

variable (hnext : ∀ b, next b ⊆ domain) {seen rest : List (α × Nat)} {depth : Nat}
include hnext

/-- A way to an unseen point leaves what was seen by a step from the queue. -/
theorem exists_step_of_follow {queue : List (α × Nat)} (hstart : a ∈ seen.map (·.1))
    (hcovers : Covers domain next seen queue) (hw : follow next a w = some c)
    (hc : c ∉ seen.map (·.1)) :
    ∃ v i more, w = v ++ i :: more ∧ ∃ p ∈ queue, follow next a v = some p.1 ∧
      ∃ d, (next p.1)[i]? = some d ∧ d ∉ seen.map (·.1) ∧ (more = [] → d = c) := by
  induction w using List.reverseRecOn generalizing c with
  | nil =>
    obtain rfl : a = c := Option.some.inj hw
    exact absurd hstart hc
  | append_singleton w i ih =>
    obtain ⟨b, hb, hi⟩ := follow_concat_eq_some_iff.1 hw
    by_cases hseen : b ∈ seen.map (·.1)
    · obtain ⟨p, hp, rfl⟩ := List.mem_map.1 hseen
      have hqueue : p ∈ queue := (hcovers p hp).resolve_right fun hclosed =>
        hc (hclosed c ⟨List.mem_of_getElem? hi, hnext _ (List.mem_of_getElem? hi)⟩)
      exact ⟨w, i, [], rfl, p, hqueue, hb, c, hi, hc, fun _ => rfl⟩
    · obtain ⟨v, j, more, rfl, p, hp, hv, d, hd, hunseen, -⟩ := ih hb hseen
      exact ⟨v, j, more ++ [i], by simp, p, hp, hv, d, hd, hunseen, by simp⟩

/-- From the point in front of the queue, a step to an unseen point comes before all ways to
unseen points to which that point has no such step. -/
theorem KeepsOrder.precedes_of_front (h : KeepsOrder domain next a seen ((b, depth) :: rest))
    {i : Nat} {d : α} (hi : (next b)[i]? = some c) (hd : d ∉ seen.map (·.1))
    (hlt : ∀ j, (next b)[j]? = some d → i < j) : Precedes next a c d := by
  obtain ⟨u, hu⟩ := h.reached _ (h.suffix.subset List.mem_cons_self)
  obtain ⟨v, hv, hfirst⟩ := exists_first hu
  refine ⟨v ++ [i], follow_concat_eq_some_iff.2 ⟨b, hv, hi⟩, fun w hw => ?_⟩
  obtain ⟨w', j, more, rfl, p, hp, hw', e, he, -, hlast⟩ :=
    exists_step_of_follow hnext h.start h.covers hw hd
  rcases List.mem_cons.1 hp with rfl | hp
  · rcases Earlier.cases v w' with hearlier | rfl | hlater
    · exact hearlier.concat i j more
    · cases more with
      | nil =>
        obtain rfl := hlast rfl
        exact Earlier.concat_of_lt (hlt j he) v
      | cons k more => exact List.Shortlex.of_length_lt (by simp)
    · exact absurd hlater (hfirst w' hw')
  · -- Another point of the queue comes behind the one in front, with all its ways.
    have hprecedes : Precedes next a b p.1 :=
      (List.pairwise_cons.1 (h.sorted.sublist h.suffix.sublist)).1 p hp
    exact (hprecedes.earlier hfirst hw').concat i j more

theorem KeepsOrder.step (h : KeepsOrder domain next a seen ((b, depth) :: rest)) :
    KeepsOrder domain next a
      (seen ++ (discovered domain next seen b).map fun c => (c, depth + 1))
      (rest ++ (discovered domain next seen b).map fun c => (c, depth + 1)) := by
  have hnew : ∀ p ∈ (discovered domain next seen b).map fun c => (c, depth + 1),
      p.1 ∈ next b ∧ p.1 ∉ seen.map (·.1) := by
    intro p hp
    obtain ⟨c, hc, rfl⟩ := List.mem_map.1 hp
    exact ⟨(mem_discovered.1 hc).1.1, (mem_discovered.1 hc).2⟩
  obtain ⟨front, hfront⟩ := h.suffix
  obtain ⟨v, hv⟩ := h.reached _ (h.suffix.subset List.mem_cons_self)
  constructor
  case start => simpa using .inl (by simpa using h.start)
  case suffix => exact ⟨front ++ [(b, depth)], by simp [← hfront]⟩
  case covers => exact covers_step h.covers
  case reached =>
    intro p hp
    rcases List.mem_append.1 hp with hp | hp
    · exact h.reached p hp
    · obtain ⟨i, hi⟩ := List.mem_iff_getElem?.1 (hnew p hp).1
      exact ⟨v ++ [i], follow_concat_eq_some_iff.2 ⟨b, hv, hi⟩⟩
  case sorted =>
    refine List.pairwise_append.2 ⟨h.sorted, List.pairwise_map.2 ?_,
      fun p hp q hq => h.unseen p hp q.1 (hnew q hq).2⟩
    refine (pairwise_distinct_filter _ _).imp_of_mem fun _ hc hplaces => ?_
    obtain ⟨i, hi, hlt⟩ := hplaces
    exact h.precedes_of_front hnext hi (mem_discovered.1 hc).2 hlt
  case unseen =>
    intro p hp d hd
    rw [List.map_append, List.mem_append, not_or] at hd
    rcases List.mem_append.1 hp with hp | hp
    · exact h.unseen p hp d hd.1
    · obtain ⟨i, hi⟩ := List.mem_iff_getElem?.1 (hnew p hp).1
      refine h.precedes_of_front hnext hi hd.1 fun j hj => ?_
      -- Whatever is unseen now is no successor of the point in front.
      have hmem := List.mem_of_getElem? hj
      exact absurd (by simpa using mem_discovered.2 ⟨⟨hmem, hnext b hmem⟩, hd.1⟩) hd.2

theorem KeepsOrder.run {queue : List (α × Nat)} (h : KeepsOrder domain next a seen queue) :
    KeepsOrder domain next a (run domain next seen queue) [] := by
  fun_induction Search.run domain next seen queue with
  | case1 seen => exact h
  | case2 seen b depth rest new ih => exact ih (h.step hnext)

theorem keepsOrder_breadthFirst (a : α) :
    KeepsOrder domain next a (breadthFirst domain next [a]) [] :=
  (keepsOrder_start domain next a).run hnext

/-- A search lists the points in the order of their first ways. -/
theorem pairwise_breadthFirst_precedes (a : α) :
    (breadthFirst domain next [a]).Pairwise fun p q => Precedes next a p.1 q.1 :=
  (keepsOrder_breadthFirst hnext a).sorted

theorem mem_map_breadthFirst_iff_follow :
    b ∈ (breadthFirst domain next [a]).map (·.1) ↔ ∃ v, follow next a v = some b := by
  have h := keepsOrder_breadthFirst hnext a
  constructor
  · intro hb
    obtain ⟨p, hp, rfl⟩ := List.mem_map.1 hb
    exact h.reached p hp
  · rintro ⟨v, hv⟩
    by_contra hb
    obtain ⟨-, -, -, -, p, hp, -⟩ := exists_step_of_follow hnext h.start h.covers hv hb
    cases hp

/-- The first point that has something is the end of the first way to such a point. -/
theorem findSome?_breadthFirst_iff {β : Type} {f : α → Option β} {g : β} :
    ((breadthFirst domain next [a]).map (·.1)).findSome? f = some g ↔
      ∃ v b, follow next a v = some b ∧ f b = some g ∧
        ∀ w c, follow next a w = some c → (f c).isSome → ¬Earlier w v := by
  have hsound : ∀ g, ((breadthFirst domain next [a]).map (·.1)).findSome? f = some g →
      ∃ v b, follow next a v = some b ∧ f b = some g ∧
        ∀ w c, follow next a w = some c → (f c).isSome → ¬Earlier w v := by
    intro g hg
    obtain ⟨before, b, after, hlist, hb, hnone⟩ := List.findSome?_eq_some_iff.1 hg
    have hmem : b ∈ (breadthFirst domain next [a]).map (·.1) := by simp [hlist]
    obtain ⟨u, hu⟩ := (mem_map_breadthFirst_iff_follow hnext).1 hmem
    obtain ⟨v, hv, hfirst⟩ := exists_first hu
    refine ⟨v, b, hv, hb, fun w c hw hc hearlier => ?_⟩
    have hcmem := (mem_map_breadthFirst_iff_follow hnext).2 ⟨w, hw⟩
    rw [hlist, List.mem_append, List.mem_cons] at hcmem
    rcases hcmem with hbefore | rfl | hafter
    · simp [hnone c hbefore] at hc
    · exact hfirst w hw hearlier
    · have hsorted := List.pairwise_map.2 (pairwise_breadthFirst_precedes hnext a)
      rw [hlist] at hsorted
      have hprecedes : Precedes next a b c :=
        (List.pairwise_cons.1 (List.pairwise_append.1 hsorted).2.1).1 c hafter
      exact Std.Asymm.asymm _ _ (hprecedes.earlier hfirst hw) hearlier
  refine ⟨hsound g, ?_⟩
  rintro ⟨v, b, hv, hb, hfirst⟩
  obtain ⟨g', hg'⟩ : ∃ g', ((breadthFirst domain next [a]).map (·.1)).findSome? f = some g' := by
    rw [← Option.isSome_iff_exists, List.findSome?_isSome_iff]
    exact ⟨b, (mem_map_breadthFirst_iff_follow hnext).2 ⟨v, hv⟩, by simp [hb]⟩
  -- Two first ways are the same, and so are their ends.
  obtain ⟨v', b', hv', hb', hfirst'⟩ := hsound g' hg'
  obtain rfl : v' = v := (Earlier.cases v' v).resolve_left (hfirst v' b' hv' (by simp [hb']))
    |>.resolve_right (hfirst' v b hv (by simp [hb]))
  obtain rfl : b' = b := Option.some.inj (hv'.symm.trans hv)
  rw [hg', ← hb', hb]

end Step

/-! ### Rounds -/

/-- A search that knows no domain, if it comes to its end within so many rounds. -/
def explore (next : α → List α) : Nat → List α → List α → Option (List α)
  | _, seen, [] => some seen
  | 0, _, _ :: _ => none
  | n + 1, seen, a :: queue =>
    let new := distinct ((next a).filter fun b => decide (b ∉ seen))
    explore next n (seen ++ new) (queue ++ new)

theorem any_eq_decide (seen : List (α × Nat)) (b : α) :
    (seen.any fun s => decide (s.1 = b)) = decide (b ∈ seen.map (·.1)) := by
  rw [Bool.eq_iff_iff]
  simp

/-- What a step discovers is no longer unseen. -/
theorem length_unseen_add_le (seen : List (α × Nat)) (a : α) (depth : Nat) :
    (discovered domain next seen a).length +
      (unseen domain (seen ++ (discovered domain next seen a).map fun b => (b, depth))).length ≤
        (unseen domain seen).length := by
  have hnodup : (discovered domain next seen a).Nodup := nodup_distinct _
  have hmem : ∀ b ∈ discovered domain next seen a, b ∈ domain ∧ b ∉ seen.map (·.1) :=
    fun b hb => ⟨(mem_discovered.1 hb).1.2, (mem_discovered.1 hb).2⟩
  generalize discovered domain next seen a = new at hnodup hmem
  have hrest : unseen domain (seen ++ new.map fun b => (b, depth)) =
      (unseen domain seen).filter fun b => !decide (b ∈ new) := by
    rw [unseen, unseen, List.filter_filter]
    refine List.filter_congr fun b _ => ?_
    rw [any_eq_decide, any_eq_decide, List.map_append, List.map_map, Function.comp_def,
      List.map_id', Bool.eq_iff_iff]
    simp only [List.mem_append, Bool.and_eq_true, Bool.not_eq_true', decide_eq_false_iff_not,
      not_or, and_comm]
  have hsubset : new ⊆ (unseen domain seen).filter fun b => decide (b ∈ new) := by
    intro b hb
    refine List.mem_filter.2 ⟨List.mem_filter.2 ⟨(hmem b hb).1, ?_⟩, decide_eq_true hb⟩
    rw [any_eq_decide, decide_eq_false (hmem b hb).2]
    rfl
  have hle := (hnodup.subperm hsubset).length_le
  have hsum := List.length_eq_length_filter_add (l := unseen domain seen) fun b => decide (b ∈ new)
  rw [hrest]
  omega

/-- Where all successors are in the domain, it keeps nothing from being discovered. -/
theorem discovered_eq_of_subset (hnext : ∀ b, next b ⊆ domain) (seen : List (α × Nat)) (a : α) :
    discovered domain next seen a =
      distinct ((next a).filter fun b => decide (b ∉ seen.map (·.1))) := by
  rw [discovered]
  congr 1
  refine List.filter_congr fun b hb => ?_
  rw [any_eq_decide, decide_eq_true (hnext a hb), Bool.true_and, decide_not]

/-- A search that knows no domain comes to what a search in the domain comes to. -/
theorem explore_eq_run (hnext : ∀ b, next b ⊆ domain) {seen queue : List (α × Nat)} :
    ∀ n, queue.length + (unseen domain seen).length ≤ n →
      explore next n (seen.map (·.1)) (queue.map (·.1)) =
        some ((run domain next seen queue).map (·.1)) := by
  fun_induction run domain next seen queue with
  | case1 seen =>
    intro n _
    simp [explore]
  | case2 seen a depth rest new ih =>
    intro n hn
    have hle : (discovered domain next seen a).length + (unseen domain (seen ++ new)).length ≤
        (unseen domain seen).length := length_unseen_add_le seen a (depth + 1)
    have hnew : new.length = (discovered domain next seen a).length := List.length_map _
    obtain ⟨n, rfl⟩ : ∃ m, n = m + 1 := ⟨n - 1, by simp at hn; omega⟩
    have hrounds : (rest ++ new).length + (unseen domain (seen ++ new)).length ≤ n := by
      rw [List.length_append]
      rw [List.length_cons] at hn
      omega
    have hstep := ih n hrounds
    rw [List.map_append, List.map_append, List.map_map, Function.comp_def, List.map_id'] at hstep
    rw [List.map_cons, explore, ← discovered_eq_of_subset hnext, hstep]

theorem explore_eq_breadthFirst (hnext : ∀ b, next b ⊆ domain) (a : α) :
    explore next (domain.length + 1) [a] [a] = some ((breadthFirst domain next [a]).map (·.1)) := by
  have hle : (unseen domain [(a, 0)]).length ≤ domain.length := List.length_filter_le _ _
  have hrounds : [(a, 0)].length + (unseen domain [(a, 0)]).length ≤ domain.length + 1 := by
    rw [List.length_singleton]
    omega
  exact explore_eq_run hnext _ hrounds

end Search

end Stitch
