/-
Lists without repetition by any test: no item that stays is the same as one
before it (`pairwise_distinctBy`), of the items with one key the first stays
(`mem_distinctBy_iff`), and no key is lost (`mem_map_distinctBy`).  Where all keys
differ, a look-up by key finds every item (`find?_eq_some_iff_of_nodup`), and a key has
one place (`place_eq_of_nodup_map`).  The numbers that items get by their places ascend
(`pairwise_zipIdx`).
A list without repetition is left as it is (`distinctBy_eq_self`), and adding the items
one by one, those left out whose key is there, leads to the same list
(`foldl_addNew_eq_distinctBy`).
-/
import Mathlib.Data.List.Nodup
import Stitch.Distinct

namespace Stitch

variable {α κ : Type}

theorem pairwise_distinctBy (same : α → α → Bool) (as : List α) :
    (distinctBy same as).Pairwise fun a b => same a b = false := by
  induction as with
  | nil => exact List.Pairwise.nil
  | cons a as ih =>
    refine List.pairwise_cons.2 ⟨fun b hb => ?_, ih.sublist List.filter_sublist⟩
    simpa using (List.mem_filter.1 hb).2

theorem sublist_distinctBy (same : α → α → Bool) (as : List α) :
    (distinctBy same as).Sublist as := by
  induction as with
  | nil => exact List.Sublist.slnil
  | cons a as ih => exact (List.filter_sublist.trans ih).cons_cons a

theorem mem_distinctBy_iff [DecidableEq κ] (key : α → κ) {a : α} {as : List α} :
    a ∈ distinctBy (fun a b => key a == key b) as ↔
      as.find? (fun b => key b == key a) = some a := by
  induction as with
  | nil => simp [distinctBy]
  | cons b as ih =>
    rw [distinctBy, List.mem_cons, List.mem_filter, ih]
    by_cases hkey : key b = key a
    · rw [List.find?_cons_of_pos (by simpa using hkey)]
      simp [hkey, eq_comm]
    · have hne : a ≠ b := fun h => hkey (congrArg key h.symm)
      rw [List.find?_cons_of_neg (by simpa using hkey)]
      simp [hkey, hne]

theorem mem_map_distinctBy [DecidableEq κ] (key : α → κ) {k : κ} {as : List α} :
    k ∈ (distinctBy (fun a b => key a == key b) as).map key ↔ k ∈ as.map key := by
  constructor
  · exact fun hk => ((sublist_distinctBy _ as).map key).subset hk
  · intro hk
    obtain ⟨a, ha, rfl⟩ := List.mem_map.1 hk
    obtain ⟨b, hb⟩ : ∃ b, as.find? (fun b => key b == key a) = some b := by
      rw [← Option.isSome_iff_exists, List.find?_isSome]
      exact ⟨a, ha, by simp⟩
    have hkey : key b = key a := by simpa using List.find?_some hb
    rw [← hkey] at hb ⊢
    exact List.mem_map_of_mem ((mem_distinctBy_iff key).2 hb)

theorem nodup_map_distinctBy [DecidableEq κ] (key : α → κ) (as : List α) :
    ((distinctBy (fun a b => key a == key b) as).map key).Nodup :=
  List.pairwise_map.2 ((pairwise_distinctBy _ as).imp fun hne => by simpa using hne)

theorem find?_eq_some_iff_of_nodup [DecidableEq κ] {key : α → κ} {k : κ} {a : α} {as : List α}
    (h : (as.map key).Nodup) :
    as.find? (fun b => key b == k) = some a ↔ a ∈ as ∧ key a = k := by
  constructor
  · exact fun hfind => ⟨List.mem_of_find?_eq_some hfind, by simpa using List.find?_some hfind⟩
  · rintro ⟨ha, rfl⟩
    obtain ⟨b, hb⟩ : ∃ b, as.find? (fun b => key b == key a) = some b := by
      rw [← Option.isSome_iff_exists, List.find?_isSome]
      exact ⟨a, ha, by simp⟩
    have hkey : key b = key a := by simpa using List.find?_some hb
    rw [hb, List.inj_on_of_nodup_map h (List.mem_of_find?_eq_some hb) ha hkey]

theorem place_eq_of_nodup_map {key : α → κ} {as : List α} (h : (as.map key).Nodup) {i j : Nat}
    {a b : α} (ha : as[i]? = some a) (hb : as[j]? = some b) (hkey : key a = key b) : i = j := by
  have hi : i < (as.map key).length := by simpa using (List.getElem?_eq_some_iff.1 ha).1
  refine (List.getElem?_inj hi h).1 ?_
  rw [List.getElem?_map, List.getElem?_map, ha, hb, Option.map_some, Option.map_some, hkey]

theorem pairwise_zipIdx (as : List α) : as.zipIdx.Pairwise fun p q => p.2 < q.2 := by
  rw [← List.pairwise_map (f := Prod.snd) (R := (· < ·)), List.zipIdx_map_snd]
  exact List.pairwise_lt_range'

theorem distinctBy_eq_self {same : α → α → Bool} {as : List α}
    (h : as.Pairwise fun a b => same a b = false) : distinctBy same as = as := by
  induction as with
  | nil => rfl
  | cons a as ih =>
    obtain ⟨ha, has⟩ := List.pairwise_cons.1 h
    rw [distinctBy, ih has]
    exact congrArg (a :: ·) (List.filter_eq_self.2 fun b hb => by simp [ha b hb])

/-- Adds an item at the end of a list, unless its key is there. -/
def addNew [DecidableEq κ] (key : α → κ) (as : List α) (a : α) : List α :=
  if as.any fun b => key a == key b then as else as ++ [a]

theorem foldl_addNew [DecidableEq κ] (key : α → κ) (seen as : List α) :
    as.foldl (addNew key) seen = seen ++
      (distinctBy (fun a b => key a == key b) as).filter fun a =>
        !seen.any fun b => key a == key b := by
  induction as generalizing seen with
  | nil => simp [distinctBy]
  | cons a as ih =>
    rw [List.foldl_cons, ih, addNew, distinctBy]
    split
    next hseen =>
      -- What has the key of `a` has one that was seen.
      rw [List.filter_cons_of_neg (by simpa using hseen), List.filter_filter]
      congr 1
      refine List.filter_congr fun b _ => ?_
      by_cases hkey : key a = key b
      · simp only [← hkey, hseen, Bool.not_true, Bool.false_and]
      · simp [hkey]
    next hnew =>
      rw [List.filter_cons_of_pos (by simpa using hnew), List.filter_filter, List.append_assoc,
        List.singleton_append]
      congr 2
      refine List.filter_congr fun b _ => ?_
      simp [List.any_append, BEq.comm (a := key b)]

theorem foldl_addNew_eq_distinctBy [DecidableEq κ] (key : α → κ) (as : List α) :
    as.foldl (addNew key) [] = distinctBy (fun a b => key a == key b) as := by
  rw [foldl_addNew, List.nil_append, List.filter_eq_self]
  simp

end Stitch
