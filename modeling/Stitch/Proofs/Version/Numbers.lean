/-
Numbers in versions.

Versions that differ in one number only, with separators around it, are ordered as the numbers are
(`compare_ofText_numeral`).  A zero in front of nothing that counts is dropped from the end of a
version, and this makes no difference to the order: where components of the same kinds stand
against each other, comparing them to the end is comparing them to a zero or a release mark
(`compareComponents_withoutTrailing`).

A component holds no number above `maxNumber`, and what is written above it counts as this
(`not_compare_ofText_numeral`).
-/
import Mathlib.Data.List.Forall2
import Stitch.Proofs.Version.Components
import Stitch.Proofs.Version.Order

namespace Stitch

namespace Component

def isNumber : Component → Bool
  | number _ => true
  | qualifier _ => false

variable {a b : Component}

theorem compare_self (a : Component) : a.compare a = .eq := by
  have hswap := compare_swap a a
  revert hswap
  cases a.compare a <;> simp

/-- What is dropped from the end of a version stands there for what follows in the other one. -/
theorem compare_eq_compareToEnd (hkind : a.isNumber = b.isNumber) (hb : b.isTrailing = true) :
    a.compare b = a.compareToEnd := by
  cases a with
  | number m =>
    cases b with
    | number n => rw [compare, compareToEnd, beq_iff_eq.1 hb]
    | qualifier other => cases hkind
  | qualifier name =>
    cases b with
    | number n => cases hkind
    | qualifier other => rw [compare, compareToEnd, String.isEmpty_iff.1 hb]

theorem compare_eq_swap_compareToEnd (hkind : a.isNumber = b.isNumber)
    (ha : a.isTrailing = true) : a.compare b = b.compareToEnd.swap := by
  rw [compare_swap b a, compare_eq_compareToEnd hkind.symm ha]

theorem compare_eq_eq_of_isTrailing (hkind : a.isNumber = b.isNumber) (ha : a.isTrailing = true)
    (hb : b.isTrailing = true) : a.compare b = .eq := by
  rw [compare_eq_compareToEnd hkind hb, ← compare_eq_compareToEnd rfl ha, compare_self]

end Component

namespace Version

open Component

variable {as bs : List Component}

/-- A component that stays in front of the others, or goes with all of them. -/
theorem withoutTrailing_cons_cases (a : Component) (as : List Component) :
    withoutTrailing (a :: as) = a :: withoutTrailing as ∨
      withoutTrailing (a :: as) = [] ∧ withoutTrailing as = [] ∧ a.isTrailing = true := by
  rw [withoutTrailing_cons]
  split
  next hnil =>
    cases ha : a.isTrailing
    · exact .inl (by rw [hnil]; simp [withoutTrailing, ha])
    · exact .inr ⟨withoutTrailing_eq_nil_iff.2 (by simpa using ha), hnil, rfl⟩
  next => exact .inl rfl

/-- Between components of the same kinds, those at the end that say nothing make no difference. -/
theorem compareComponents_withoutTrailing
    (h : List.Forall₂ (fun a b => a.isNumber = b.isNumber) as bs) :
    compareComponents (withoutTrailing as) (withoutTrailing bs) = compareComponents as bs := by
  induction h with
  | nil => rfl
  | @cons a b as bs hkind _ ih =>
    rw [compareComponents, ← ih]
    rcases withoutTrailing_cons_cases a as with ha | ⟨ha, has, hatrailing⟩ <;>
      rcases withoutTrailing_cons_cases b bs with hb | ⟨hb, hbs, hbtrailing⟩
    · rw [ha, hb, compareComponents]
    · rw [ha, hb, hbs, compareComponents, compare_eq_compareToEnd hkind hbtrailing]
    · rw [ha, hb, has, compareComponents, compare_eq_swap_compareToEnd hkind hatrailing]
    · rw [ha, hb, has, hbs, compare_eq_eq_of_isTrailing hkind hatrailing hbtrailing]
      simp [compareComponents]

theorem compareComponents_self (as : List Component) : compareComponents as as = .eq := by
  induction as with
  | nil => rw [compareComponents]
  | cons a as ih => rw [compareComponents, compare_self, ih, Ordering.then_eq]

theorem compareComponents_append_left (ps as bs : List Component) :
    compareComponents (ps ++ as) (ps ++ bs) = compareComponents as bs := by
  induction ps with
  | nil => rfl
  | cons p ps ih =>
    rw [List.cons_append, List.cons_append, compareComponents, compare_self, ih]
    rfl

/-! ### Numbers between separators -/

/-- Digits, and at least one. -/
structure IsNumeral (text : String) : Prop where
  nonempty : text.toList ≠ []
  digits : ∀ c ∈ text.toList, c.isDigit = true

/-- The number that digits are written for. -/
def numberOf (text : String) : Nat := Nat.ofDigitChars 10 text.toList 0

/-- A text after which a component begins. -/
def EndsInSeparator (text : String) : Prop := ∀ c ∈ text.toList.getLast?, isSeparator c = true

/-- A text before which a component ends. -/
def StartsWithSeparator (text : String) : Prop := ∀ c ∈ text.toList.head?, isSeparator c = true

variable {front back m n : String}

theorem IsNumeral.map_toLower (h : IsNumeral m) : m.toList.map Char.toLower = m.toList :=
  (List.map_congr_left fun c hc => Text.toLower_of_isDigit (h.digits c hc)).trans (List.map_id _)

theorem IsNumeral.componentsOf_eq (h : IsNumeral m) :
    componentsOf m.toList = [.number (min (numberOf m) maxNumber)] := by
  rw [componentsOf_token h.nonempty (fun c hc => isSeparator_of_isDigit (h.digits c hc)) h.digits,
    h.map_toLower, ofToken, if_pos (List.all_eq_true.2 h.digits), numberOf]

theorem EndsInSeparator.exists_componentsOf (h : EndsInSeparator front) :
    ∃ ps, ∀ cs, componentsOf (Text.trimStart front.toList ++ cs) = ps ++ componentsOf cs := by
  rcases List.eq_nil_or_concat front.toList with hnil | ⟨ds, c, hfront⟩
  · exact ⟨[], fun cs => by rw [hnil]; rfl⟩
  · have hc : isSeparator c = true := h c (by simp [hfront])
    have htrim : Text.trimStart front.toList = Text.trimStart ds ++ [c] := by
      have := Text.trimStart_around (List.cons_ne_nil c [])
        (by simpa using isBlank_of_isSeparator hc) ds []
      simpa [hfront] using this
    refine ⟨componentsOf (Text.trimStart ds), fun cs => ?_⟩
    rw [htrim, List.append_assoc, List.singleton_append, componentsOf_append_separator hc]

theorem StartsWithSeparator.exists_componentsOf (h : StartsWithSeparator back) :
    ∃ ss, ∀ cs, componentsOf (cs ++ Text.trimEnd back.toList) = componentsOf cs ++ ss := by
  cases hback : back.toList with
  | nil => exact ⟨[], fun cs => by simp [Text.trimEnd]⟩
  | cons c ds =>
    have hc : isSeparator c = true := h c (by simp [hback])
    have htrim : Text.trimEnd (c :: ds) = c :: Text.trimEnd ds :=
      Text.trimEnd_around (List.cons_ne_nil c []) (by simpa using isBlank_of_isSeparator hc) [] ds
    exact ⟨componentsOf (Text.trimEnd ds), fun cs => by
      rw [htrim, componentsOf_append_separator hc]⟩

theorem IsNumeral.components_ofText (hm : IsNumeral m) (ps ss : List Component)
    (hfront : ∀ cs, componentsOf (Text.trimStart front.toList ++ cs) = ps ++ componentsOf cs)
    (hback : ∀ cs, componentsOf (cs ++ Text.trimEnd back.toList) = componentsOf cs ++ ss) :
    (ofText (front ++ m ++ back)).components =
      withoutTrailing (ps ++ .number (min (numberOf m) maxNumber) :: ss) := by
  have hblank : ∀ c ∈ m.toList, Text.isBlank c = false :=
    fun c hc => Text.isBlank_of_isDigit (hm.digits c hc)
  rw [Version.components_ofText, String.toList_append, String.toList_append, List.append_assoc,
    Text.trim_around hm.nonempty hblank, hfront, hback, hm.componentsOf_eq, List.singleton_append]

theorem compare_ofText_eq_compare_min (hfront : EndsInSeparator front)
    (hback : StartsWithSeparator back) (hm : IsNumeral m) (hn : IsNumeral n) :
    (ofText (front ++ m ++ back)).compare (ofText (front ++ n ++ back)) =
      Ord.compare (min (numberOf m) maxNumber) (min (numberOf n) maxNumber) := by
  obtain ⟨ps, hps⟩ := hfront.exists_componentsOf
  obtain ⟨ss, hss⟩ := hback.exists_componentsOf
  have hsame : ∀ as : List Component, List.Forall₂ (fun a b => a.isNumber = b.isNumber) as as :=
    fun as => List.forall₂_same.2 fun _ _ => rfl
  have hkinds : List.Forall₂ (fun a b => a.isNumber = b.isNumber)
      (ps ++ .number (min (numberOf m) maxNumber) :: ss)
      (ps ++ .number (min (numberOf n) maxNumber) :: ss) :=
    List.rel_append (hsame ps) (.cons rfl (hsame ss))
  rw [compare, hm.components_ofText ps ss hps hss, hn.components_ofText ps ss hps hss,
    compareComponents_withoutTrailing hkinds, compareComponents_append_left, compareComponents,
    compareComponents_self, Ordering.then_eq, Component.compare]

/-- **Numbers in versions** are compared as numbers: where two versions differ only in digits that
have separators around them, or an end of the text, the order is that of the numbers.  Numbers that
a component does not hold count as the greatest one that it holds, so this is the order of the
numbers themselves unless both reach it. -/
theorem compare_ofText_numeral (hfront : EndsInSeparator front) (hback : StartsWithSeparator back)
    (hm : IsNumeral m) (hn : IsNumeral n) :
    (ofText (front ++ m ++ back)).compare (ofText (front ++ n ++ back)) =
        Ord.compare (min (numberOf m) maxNumber) (min (numberOf n) maxNumber) ∧
      (¬(maxNumber ≤ numberOf m ∧ maxNumber ≤ numberOf n) →
        (ofText (front ++ m ++ back)).compare (ofText (front ++ n ++ back)) =
          Ord.compare (numberOf m) (numberOf n)) := by
  have hcompare := compare_ofText_eq_compare_min hfront hback hm hn
  refine ⟨hcompare, fun hheld => ?_⟩
  rw [hcompare]
  rcases Nat.lt_trichotomy (numberOf m) (numberOf n) with hlt | heq | hgt
  · rw [Nat.compare_eq_lt.2 hlt, Nat.compare_eq_lt.2 (by omega)]
  · rw [heq, Nat.compare_eq_eq.2 rfl, Nat.compare_eq_eq.2 rfl]
  · rw [Nat.compare_eq_gt.2 hgt, Nat.compare_eq_gt.2 (by omega)]

/-- Zeros in front of a number are no part of it, and zeros behind it are dropped. -/
theorem compare_ofText_numeral_zeros :
    EndsInSeparator " 1.rc-" ∧ StartsWithSeparator ".0.ga " ∧ IsNumeral "000" ∧ IsNumeral "010" ∧
      (ofText (" 1.rc-" ++ "000" ++ ".0.ga ")).compare (ofText (" 1.rc-" ++ "010" ++ ".0.ga ")) =
        .lt := by
  have hfront : EndsInSeparator " 1.rc-" := by rintro c ⟨⟩; rfl
  have hback : StartsWithSeparator ".0.ga " := by rintro c ⟨⟩; rfl
  have hm : IsNumeral "000" := ⟨by decide, List.all_eq_true.1 (by decide)⟩
  have hn : IsNumeral "010" := ⟨by decide, List.all_eq_true.1 (by decide)⟩
  exact ⟨hfront, hback, hm, hn, (compare_ofText_numeral hfront hback hm hn).2 (by decide)⟩

/-- Two numbers that no component holds are compared as if they were the same. -/
theorem not_compare_ofText_numeral :
    EndsInSeparator "" ∧ StartsWithSeparator "" ∧ IsNumeral "18446744073709551615" ∧
      IsNumeral "18446744073709551616" ∧
      (ofText ("" ++ "18446744073709551615" ++ "")).compare
          (ofText ("" ++ "18446744073709551616" ++ "")) = .eq ∧
      Ord.compare (numberOf "18446744073709551615") (numberOf "18446744073709551616") = .lt := by
  have hfront : EndsInSeparator "" := by rintro c ⟨⟩
  have hback : StartsWithSeparator "" := by rintro c ⟨⟩
  have hm : IsNumeral "18446744073709551615" := ⟨by decide, List.all_eq_true.1 (by decide)⟩
  have hn : IsNumeral "18446744073709551616" := ⟨by decide, List.all_eq_true.1 (by decide)⟩
  exact ⟨hfront, hback, hm, hn,
    (compare_ofText_eq_compare_min hfront hback hm hn).trans (by decide), by decide⟩

end Version

end Stitch
