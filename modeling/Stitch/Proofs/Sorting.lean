/-
Sorting by an order that is transitive on the items of the list.

The library's lemmas about `mergeSort` ask for an order that is transitive
everywhere.  Here it only has to be so where it matters, on the items.

* `pairwise_mergeSort_of_mem`: the result is sorted;
* `isChain_mergeSort`: each item of the result is at most the next one, and for that the order
  need not be transitive anywhere;
* `filter_mergeSort_of_mem`: the sort is stable;
* `map_find?_eq_of_perm`: where keys ascend, the first item that is looked for has the least
  key, in whatever order items of one key come;
* `mergeSort_eq_of_perm`: where only equal items are at most each other, it does not matter
  in which order the items come; so a list whose keys ascend is what any permutation of it is
  sorted to (`mergeSort_eq_of_pairwise_lt`).
-/
import Mathlib.Data.List.Nodup
import Mathlib.Data.List.Pairwise

namespace Stitch

variable {α : Type} {le : α → α → Bool} {as : List α}

/-- The order on the items of a list, as a type of their own. -/
def leOn (le : α → α → Bool) (as : List α) (a b : { a // a ∈ as }) : Bool := le a.1 b.1

theorem map_val_mergeSort_attach :
    (as.attach.mergeSort (leOn le as)).map Subtype.val = as.mergeSort le := by
  have hmap := List.map_mergeSort (r := leOn le as) (s := le) (f := Subtype.val) (l := as.attach)
    fun _ _ _ _ => rfl
  rw [hmap, List.attach_map_subtype_val]

section TransitiveOnItems

variable (htrans : ∀ a ∈ as, ∀ b ∈ as, ∀ c ∈ as, le a b → le b c → le a c)
  (htotal : ∀ a b, le a b || le b a)
include htrans htotal

/-- A list is sorted by merging if the order is total, and transitive on its items. -/
theorem pairwise_mergeSort_of_mem : (as.mergeSort le).Pairwise fun a b => le a b := by
  have hsorted : (as.attach.mergeSort (leOn le as)).Pairwise fun a b => leOn le as a b :=
    List.pairwise_mergeSort (fun a b c => htrans a.1 a.2 b.1 b.2 c.1 c.2)
      (fun a b => htotal a.1 b.1) _
  rw [← map_val_mergeSort_attach, List.pairwise_map]
  exact hsorted

/-- Items that are at most each other stay in their order. -/
theorem filter_mergeSort_of_mem {p : α → Bool} (hp : ∀ a b, p a → p b → le a b) :
    (as.mergeSort le).filter p = as.filter p := by
  have hpairwise : (as.attach.filter (p ·.1)).Pairwise fun a b => leOn le as a b :=
    List.pairwise_of_forall_mem_list fun a ha b hb =>
      hp a.1 b.1 (List.mem_filter.1 ha).2 (List.mem_filter.1 hb).2
  have hsublist : (as.attach.filter (p ·.1)).Sublist (as.attach.mergeSort (leOn le as)) :=
    List.sublist_mergeSort (fun a b c => htrans a.1 a.2 b.1 b.2 c.1 c.2)
      (fun a b => htotal a.1 b.1) hpairwise List.filter_sublist
  have hfilter : (as.attach.filter (p ·.1)).map Subtype.val = as.filter p := by
    have := List.filter_map (p := p) (f := Subtype.val) (l := as.attach)
    rwa [List.attach_map_subtype_val, eq_comm] at this
  have hkept : (as.filter p).Sublist ((as.mergeSort le).filter p) := by
    have := (hsublist.map Subtype.val).filter p
    simpa only [hfilter, map_val_mergeSort_attach, List.filter_filter, Bool.and_self] using this
  -- Sorting adds no item, so nothing else can be there.
  exact (hkept.eq_of_length ((List.mergeSort_perm as le).filter p).length_eq.symm).symm

/-- Sorting leads to the one sorted list of the items. -/
theorem mergeSort_eq_of_perm (hantisymm : ∀ a ∈ as, ∀ b ∈ as, le a b → le b a → a = b)
    {bs : List α} (h : as.Perm bs) : as.mergeSort le = bs.mergeSort le := by
  have hsorted := pairwise_mergeSort_of_mem htrans htotal
  have hsorted' : (bs.mergeSort le).Pairwise fun a b => le a b := pairwise_mergeSort_of_mem
    (fun a ha b hb c hc => htrans a (h.mem_iff.2 ha) b (h.mem_iff.2 hb) c (h.mem_iff.2 hc)) htotal
  refine List.Perm.eq_of_pairwise (fun a b ha hb => ?_) hsorted hsorted'
    ((List.mergeSort_perm as le).trans (h.trans (List.mergeSort_perm bs le).symm))
  exact hantisymm a (List.mem_mergeSort.1 ha) b (h.mem_iff.2 (List.mem_mergeSort.1 hb))

end TransitiveOnItems

section Adjacent

variable (htotal : ∀ a b, le a b || le b a)
include htotal

/-- What may stand before two lists may stand before the merged list. -/
theorem isChain_cons_merge {a : α} {bs cs : List α} (hbs : (a :: bs).IsChain fun a b => le a b)
    (hcs : (a :: cs).IsChain fun a b => le a b) :
    (a :: bs.merge cs le).IsChain fun a b => le a b := by
  induction bs generalizing a cs with
  | nil => simpa using hcs
  | cons b bs ihb =>
    induction cs generalizing a with
    | nil => simpa using hbs
    | cons c cs ihc =>
      obtain ⟨hab, hbs'⟩ := List.isChain_cons_cons.1 hbs
      obtain ⟨hac, hcs'⟩ := List.isChain_cons_cons.1 hcs
      by_cases hle : le b c
      · rw [List.cons_merge_cons_pos _ _ _ hle]
        have hbc : (b :: c :: cs).IsChain fun a b => le a b := .cons_cons hle hcs'
        exact .cons_cons hab (ihb hbs' hbc)
      · -- The order is total, so the item of the second list goes before the other.
        have hcb : le c b := by simpa [hle] using htotal b c
        rw [List.cons_merge_cons_neg _ _ _ hle]
        exact .cons_cons hac (ihc (.cons_cons hcb hbs') hcs')

theorem isChain_merge {as bs : List α} (has : as.IsChain fun a b => le a b)
    (hbs : bs.IsChain fun a b => le a b) : (as.merge bs le).IsChain fun a b => le a b := by
  cases as with
  | nil => simpa using hbs
  | cons a as =>
    cases bs with
    | nil => simpa using has
    | cons b bs =>
      by_cases hle : le a b
      · rw [List.cons_merge_cons_pos _ _ _ hle]
        exact isChain_cons_merge htotal has (.cons_cons hle hbs)
      · have hba : le b a := by simpa [hle] using htotal a b
        rw [List.cons_merge_cons_neg _ _ _ hle]
        exact isChain_cons_merge htotal (.cons_cons hba has) hbs

/-- Each item of a sorted list is at most the next one, be the order transitive or not. -/
theorem isChain_mergeSort (as : List α) : (as.mergeSort le).IsChain fun a b => le a b := by
  induction hn : as.length using Nat.strongRecOn generalizing as with
  | ind n ih =>
    match as with
    | [] => simp
    | [a] => simp
    | a :: b :: as =>
      rw [List.mergeSort]
      -- Both halves are shorter, as the list has two items at least.
      have hleft := (List.MergeSort.Internal.splitInTwo ⟨a :: b :: as, rfl⟩).1.property
      have hright := (List.MergeSort.Internal.splitInTwo ⟨a :: b :: as, rfl⟩).2.property
      have hlength : (a :: b :: as).length = as.length + 2 := rfl
      exact isChain_merge htotal (ih _ (by omega) _ hleft) (ih _ (by omega) _ hright)

end Adjacent
/-- The items of a list whose keys ascend are sorted to that list, in whatever order they come. -/
theorem mergeSort_eq_of_pairwise_lt {key : α → Nat} (h : as.Pairwise fun a b => key a < key b)
    {bs : List α} (hperm : as.Perm bs) : bs.mergeSort (fun a b => key a ≤ key b) = as := by
  have hsorted : as.Pairwise fun a b => decide (key a ≤ key b) :=
    h.imp fun hlt => decide_eq_true (Nat.le_of_lt hlt)
  have hkeys : (as.map key).Nodup := List.pairwise_map.2 (h.imp Nat.ne_of_lt)
  have hantisymm : ∀ a ∈ as, ∀ b ∈ as, decide (key a ≤ key b) → decide (key b ≤ key a) → a = b :=
    fun a ha b hb hab hba => List.inj_on_of_nodup_map hkeys ha hb
      (Nat.le_antisymm (of_decide_eq_true hab) (of_decide_eq_true hba))
  rw [← mergeSort_eq_of_perm (by simpa using fun _ _ _ _ _ _ => Nat.le_trans)
    (fun a b => by simpa using Nat.le_total (key a) (key b)) hantisymm hperm,
    List.mergeSort_of_pairwise hsorted]

theorem map_find?_eq_of_perm {key : α → Nat} {bs : List α} (h : as.Perm bs)
    (has : as.Pairwise fun a b => key a ≤ key b) (hbs : bs.Pairwise fun a b => key a ≤ key b)
    (p : α → Bool) : (as.find? p).map key = (bs.find? p).map key := by
  have hkeys : ∀ {cs : List α}, cs.Pairwise (fun a b => key a ≤ key b) →
      ((cs.filter p).map key).Pairwise (· ≤ ·) := fun hcs =>
    List.pairwise_map.2 (hcs.sublist List.filter_sublist)
  rw [← List.head?_filter, ← List.head?_filter, ← List.head?_map, ← List.head?_map]
  exact congrArg List.head? (((h.filter p).map key).eq_of_pairwise
    (fun _ _ _ _ => Nat.le_antisymm) (hkeys has) (hkeys hbs))

end Stitch
