/-
Pieces of a text around separators.

A text without separators is its own only piece (`parts_of_not_mem`), and at a
separator the pieces before it and after it come apart (`parts_append_cons`).  So pieces that
are put together with separators are found again (`parts_intercalate`).  There is no
cut only where there is no separator (`cut_eq_none_iff`).  The last separator is
the one behind which there is no other (`cutLast_eq_some`), and texts that are equal have their
first separators at one place (`append_cons_inj`).
-/
import Mathlib.Data.List.Basic
import Stitch.Text.Split

namespace Stitch.Text

variable {sep : Char} {bs cs ds : List Char}

theorem parts_of_not_mem (h : sep ∉ cs) : parts sep cs = [cs] := by
  induction cs with
  | nil => rfl
  | cons c cs ih =>
    obtain ⟨hc, hcs⟩ := List.ne_and_not_mem_of_not_mem_cons h
    have hrest : parts sep cs = [cs] := ih hcs
    rw [parts] at hrest ⊢
    rw [List.foldr_cons, hrest, if_neg (Ne.symm hc)]

/-- The pieces before a separator and those after it. -/
theorem parts_append_cons (cs ds : List Char) :
    parts sep (cs ++ sep :: ds) = parts sep cs ++ parts sep ds := by
  induction cs with
  | nil => rw [List.nil_append, parts_cons_self, parts_nil, List.singleton_append]
  | cons c cs ih =>
    by_cases hc : c = sep
    · rw [hc, List.cons_append, parts_cons_self, parts_cons_self, ih, List.cons_append]
    · cases hpieces : parts sep cs with
      | nil => exact absurd hpieces (parts_ne_nil sep cs)
      | cons piece pieces =>
        have hcons : ∀ {es piece pieces}, parts sep es = piece :: pieces →
            parts sep (c :: es) = (c :: piece) :: pieces := by
          intro es piece pieces hes
          rw [parts] at hes ⊢
          rw [List.foldr_cons, hes, if_neg hc]
        rw [hpieces, List.cons_append] at ih
        rw [List.cons_append, hcons ih, hcons hpieces, List.cons_append]

theorem intercalate_cons_cons (sep : Char) (piece next : List Char) (pieces : List (List Char)) :
    [sep].intercalate (piece :: next :: pieces) =
      piece ++ sep :: [sep].intercalate (next :: pieces) := by
  simp [List.intercalate]

theorem parts_intercalate {pieces : List (List Char)} (h : ∀ piece ∈ pieces, sep ∉ piece)
    (hne : pieces ≠ []) : parts sep ([sep].intercalate pieces) = pieces := by
  induction pieces with
  | nil => exact absurd rfl hne
  | cons piece pieces ih =>
    rw [List.forall_mem_cons] at h
    cases pieces with
    | nil => simpa [List.intercalate] using parts_of_not_mem h.1
    | cons next pieces =>
      rw [intercalate_cons_cons, parts_append_cons, parts_of_not_mem h.1,
        ih h.2 (List.cons_ne_nil _ _), List.singleton_append]

theorem not_mem_intercalate {c : Char} {pieces : List (List Char)} (hsep : c ≠ sep)
    (h : ∀ piece ∈ pieces, c ∉ piece) : c ∉ [sep].intercalate pieces := by
  induction pieces with
  | nil => simp [List.intercalate]
  | cons piece pieces ih =>
    rw [List.forall_mem_cons] at h
    cases pieces with
    | nil => simpa [List.intercalate] using h.1
    | cons next pieces =>
      rw [intercalate_cons_cons, List.mem_append, List.mem_cons, not_or, not_or]
      exact ⟨h.1, hsep, ih h.2⟩

theorem cut_eq_none_iff : cut sep cs = none ↔ sep ∉ cs := by
  rw [Option.eq_none_iff_forall_ne_some]
  constructor
  · intro h hmem
    obtain ⟨before, after, rfl, hbefore⟩ := List.eq_append_cons_of_mem hmem
    exact h (before, after) (cut_eq_some.2 ⟨rfl, hbefore⟩)
  · rintro h ⟨before, after⟩ hcut
    rw [(cut_eq_some.1 hcut).1] at h
    exact h (List.mem_append_right _ List.mem_cons_self)

theorem cutLast_eq_none_iff : cutLast sep cs = none ↔ sep ∉ cs := by
  induction cs with
  | nil => simp [cutLast]
  | cons c cs ih =>
    rw [cutLast, List.mem_cons, not_or, ← ih]
    cases hrest : cutLast sep cs with
    | some p => simp
    | none => simp [eq_comm]

theorem cutLast_append_cons (h : sep ∉ ds) : cutLast sep (cs ++ sep :: ds) = some (cs, ds) := by
  induction cs with
  | nil =>
    rw [List.nil_append, cutLast, cutLast_eq_none_iff.2 h]
    exact if_pos rfl
  | cons c cs ih => rw [List.cons_append, cutLast, ih]

theorem cutLast_eq_some : cutLast sep cs = some (bs, ds) ↔ cs = bs ++ sep :: ds ∧ sep ∉ ds := by
  constructor
  · intro h
    induction cs generalizing bs with
    | nil => cases h
    | cons c cs ih =>
      rw [cutLast] at h
      cases hrest : cutLast sep cs with
      | some p =>
        rw [hrest] at h
        cases h
        obtain ⟨rfl, hafter⟩ := ih hrest
        exact ⟨rfl, hafter⟩
      | none =>
        rw [hrest] at h
        by_cases hc : c = sep
        · rw [if_pos hc] at h
          cases h
          exact ⟨by rw [hc, List.nil_append], cutLast_eq_none_iff.1 hrest⟩
        · rw [if_neg hc] at h
          cases h
  · rintro ⟨rfl, h⟩
    exact cutLast_append_cons h

/-- Two texts are told apart by what is before their first separators and what is after. -/
theorem append_cons_inj {cs' ds' : List Char} (h : sep ∉ cs) (h' : sep ∉ cs')
    (heq : cs ++ sep :: ds = cs' ++ sep :: ds') : cs = cs' ∧ ds = ds' := by
  have hcut : cut sep (cs ++ sep :: ds) = some (cs, ds) := cut_eq_some.2 ⟨rfl, h⟩
  rw [heq, cut_eq_some.2 ⟨rfl, h'⟩, Option.some.injEq, Prod.mk.injEq] at hcut
  exact ⟨hcut.1.symm, hcut.2.symm⟩

end Stitch.Text
