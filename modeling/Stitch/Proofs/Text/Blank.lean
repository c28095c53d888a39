/-
Trimmed texts, and texts whose case is folded.

Trimming twice is trimming once (`trim_trim`), and a text that needs no trimming is not
touched where another one begins with it (`prefix_trim`).  A text is what trimming leaves of it
with blanks around it (`padded_trim`), and no such blanks make a difference to trimming
(`Padded.trim_eq`).  What has no blanks at its ends is safe from trimming, and so is all that
stands between it and another text (`trim_around`).

Only letters change when case is folded (`toLower_congr`), so blanks and digits stay what they are.
-/
import Mathlib.Data.List.DropRight
import Stitch.Text.Blank

namespace Stitch.Text

theorem trimStart_trim (cs : List Char) : trimStart (trim cs) = trim cs := by
  refine List.dropWhile_eq_self_iff.2 fun hpos => ?_
  -- The end is cut off a text that begins with no blank.
  have hstart : trim cs <+: trimStart cs := List.rdropWhile_prefix isBlank (trimStart cs)
  have hpos' : 0 < (trimStart cs).length := hpos.trans_le hstart.length_le
  rw [hstart.getElem hpos]
  exact List.dropWhile_get_zero_not isBlank cs hpos'

theorem trim_trim (cs : List Char) : trim (trim cs) = trim cs := by
  have hend : trimEnd (trim cs) = trim cs := List.rdropWhile_idempotent isBlank (trimStart cs)
  rw [trim, trimStart_trim, hend]

theorem trimStart_append {cs : List Char} (h : trimStart cs = cs) (hne : cs ≠ [])
    (more : List Char) : trimStart (cs ++ more) = cs ++ more := by
  rw [trimStart] at h ⊢
  rw [List.dropWhile_append, h, if_neg (by simpa using hne)]

theorem prefix_trimEnd_append {cs : List Char} (h : trimEnd cs = cs) (more : List Char) :
    cs <+: trimEnd (cs ++ more) := by
  rw [trimEnd] at h ⊢
  rw [List.reverse_append, List.dropWhile_append]
  split
  · exact ⟨[], (List.append_nil cs).trans h.symm⟩
  · rw [List.reverse_append, List.reverse_reverse]
    exact List.prefix_append _ _

theorem trimEnd_append {cs : List Char} (h : trimEnd cs = cs) (hne : cs ≠ [])
    (front : List Char) : trimEnd (front ++ cs) = front ++ cs := by
  rw [trimEnd, List.reverse_eq_iff] at h ⊢
  rw [List.reverse_append, List.dropWhile_append, h,
    if_neg (by simpa using hne)]

/-- What needs no trimming stays at the beginning of a text that is trimmed. -/
theorem prefix_trim {front cs : List Char} (h : trim front = front) (hne : front ≠ [])
    (hfront : front <+: cs) : front <+: trim cs := by
  obtain ⟨more, rfl⟩ := hfront
  have hstart : trimStart front = front := by rw [← h, trimStart_trim]
  have hend : trimEnd front = front := by rwa [trim, hstart] at h
  rw [trim, trimStart_append hstart hne]
  exact prefix_trimEnd_append hend more

/-- A text with blanks around it. -/
def Padded (core cs : List Char) : Prop :=
  ∃ front back, cs = front ++ (core ++ back) ∧
    (∀ c ∈ front, isBlank c = true) ∧ ∀ c ∈ back, isBlank c = true

theorem Padded.mem_or_isBlank {core cs : List Char} (h : Padded core cs) {c : Char}
    (hc : c ∈ cs) : c ∈ core ∨ isBlank c = true := by
  obtain ⟨front, back, rfl, hfront, hback⟩ := h
  rcases List.mem_append.1 hc with hc | hc
  · exact .inr (hfront c hc)
  · exact (List.mem_append.1 hc).imp_right (hback c)

theorem padded_trim (cs : List Char) : Padded (trim cs) cs := by
  refine ⟨cs.takeWhile isBlank, (trimStart cs).rtakeWhile isBlank, ?_, ?_, ?_⟩
  · have hback : trim cs ++ (trimStart cs).rtakeWhile isBlank = trimStart cs :=
      List.rdropWhile_append_rtakeWhile
    rw [hback, trimStart, List.takeWhile_append_dropWhile]
  · exact fun c hc => List.mem_takeWhile_imp hc
  · exact fun c hc => List.mem_rtakeWhile_imp hc

/-- The blanks in front of a text, and what is left behind them. -/
theorem exists_blanks_append (cs : List Char) :
    ∃ blanks rest, cs = blanks ++ rest ∧ (∀ c ∈ blanks, isBlank c = true) ∧
      ∀ c ds, rest = c :: ds → isBlank c = false := by
  refine ⟨cs.takeWhile isBlank, cs.dropWhile isBlank, List.takeWhile_append_dropWhile.symm,
    fun c hc => List.mem_takeWhile_imp hc, ?_⟩
  intro c ds hds
  have hhead := List.head?_dropWhile_not isBlank cs
  rw [hds] at hhead
  simpa using hhead

theorem trimEnd_append_blanks {back : List Char} (h : ∀ c ∈ back, isBlank c = true)
    (cs : List Char) : trimEnd (cs ++ back) = trimEnd cs := by
  rw [trimEnd, List.reverse_append,
    List.dropWhile_append_of_pos fun c hc => h c (List.mem_reverse.1 hc), ← trimEnd]

theorem trim_append_blanks {back : List Char} (h : ∀ c ∈ back, isBlank c = true)
    (cs : List Char) : trim (cs ++ back) = trim cs := by
  rw [trim, trim, trimStart, trimStart, List.dropWhile_append]
  split
  next hnil =>
    -- The whole text is blank, and nothing of it is left.
    rw [List.isEmpty_iff.1 hnil, List.dropWhile_eq_nil_iff.2 h]
  next => exact trimEnd_append_blanks h _

theorem Padded.trim_eq {core cs : List Char} (h : Padded core cs) : trim cs = trim core := by
  obtain ⟨front, back, rfl, hfront, hback⟩ := h
  rw [trim, trimStart, List.dropWhile_append_of_pos hfront, ← trimStart, ← trim,
    trim_append_blanks hback]

theorem mem_of_mem_trim {cs : List Char} {c : Char} (h : c ∈ trim cs) : c ∈ cs := by
  obtain ⟨front, back, hcs, -, -⟩ := padded_trim cs
  rw [hcs]
  exact List.mem_append_right _ (List.mem_append_left _ h)

theorem isBlank_of_trim_eq_cons {cs ds : List Char} {c : Char} (h : trim cs = c :: ds) :
    isBlank c = false := by
  have hstart : List.dropWhile isBlank (c :: ds) = c :: ds := by
    rw [← h]
    exact trimStart_trim cs
  simpa using List.dropWhile_eq_self_iff.1 hstart

/-! ### Texts without blanks -/

theorem trimStart_of_no_blank {cs : List Char} (h : ∀ c ∈ cs, isBlank c = false) :
    trimStart cs = cs :=
  List.dropWhile_eq_self_iff.2 fun hpos => by simp [h _ (List.getElem_mem hpos)]

theorem trimEnd_of_no_blank {cs : List Char} (h : ∀ c ∈ cs, isBlank c = false) :
    trimEnd cs = cs := by
  have hback : trimStart cs.reverse = cs.reverse :=
    trimStart_of_no_blank fun c hc => h c (List.mem_reverse.1 hc)
  exact (congrArg List.reverse hback).trans (List.reverse_reverse cs)

theorem trim_append_of_no_blank {cs ds : List Char} (hcs : trim cs = cs)
    (h : ∀ c ∈ ds, isBlank c = false) : trim (cs ++ ds) = cs ++ ds := by
  by_cases hds : ds = []
  · rw [hds, List.append_nil, hcs]
  · have hstart : trimStart (cs ++ ds) = cs ++ ds := by
      by_cases hnil : cs = []
      · rw [hnil, List.nil_append, trimStart_of_no_blank h]
      · exact trimStart_append (by rw [← hcs, trimStart_trim]) hnil ds
    rw [trim, hstart, trimEnd_append (trimEnd_of_no_blank h) hds]

theorem trimStart_around {core : List Char} (hne : core ≠ []) (h : ∀ c ∈ core, isBlank c = false)
    (front back : List Char) :
    trimStart (front ++ (core ++ back)) = trimStart front ++ (core ++ back) := by
  rw [trimStart, List.dropWhile_append]
  split
  next hnil =>
    rw [trimStart, List.isEmpty_iff.1 hnil, List.nil_append]
    exact trimStart_append (trimStart_of_no_blank h) hne back
  next => rfl

theorem trimEnd_around {core : List Char} (hne : core ≠ []) (h : ∀ c ∈ core, isBlank c = false)
    (front back : List Char) :
    trimEnd (front ++ (core ++ back)) = front ++ (core ++ trimEnd back) := by
  rw [← List.append_assoc, trimEnd, List.reverse_append, List.dropWhile_append]
  split
  next hnil =>
    rw [trimEnd, List.isEmpty_iff.1 hnil, List.reverse_nil, List.append_nil]
    exact trimEnd_append (trimEnd_of_no_blank h) hne front
  next => rw [List.reverse_append, List.reverse_reverse, List.append_assoc, ← trimEnd]

/-- Around a text without blanks, each side is trimmed by itself. -/
theorem trim_around {core : List Char} (hne : core ≠ []) (h : ∀ c ∈ core, isBlank c = false)
    (front back : List Char) :
    trim (front ++ (core ++ back)) = trimStart front ++ (core ++ trimEnd back) := by
  rw [trim, trimStart_around hne h, trimEnd_around hne h]

/-! ### Letter case -/

theorem isAlpha_iff {c : Char} : c.isAlpha = true ↔
    65 ≤ c.toNat ∧ c.toNat ≤ 90 ∨ 97 ≤ c.toNat ∧ c.toNat ≤ 122 := by
  delta Char.isAlpha Char.isUpper Char.isLower
  simp only [Bool.or_eq_true, Bool.and_eq_true, decide_eq_true_eq, ge_iff_le,
    UInt32.le_iff_toNat_le]
  rfl

theorem isDigit_iff {c : Char} : c.isDigit = true ↔ 48 ≤ c.toNat ∧ c.toNat ≤ 57 :=
  Char.isDigit_iff_toNat

/-- What no letter is, is kept when case is folded. -/
theorem toLower_congr {P : Char → Bool} (h : ∀ c : Char, c.isAlpha = true → P c = false)
    (c : Char) : P c.toLower = P c := by
  by_cases hupper : 'A'.val ≤ c.val ∧ c.val ≤ 'Z'.val
  · have hA : 65 ≤ c.toNat := UInt32.le_iff_toNat_le.1 hupper.1
    have hZ : c.toNat ≤ 90 := UInt32.le_iff_toNat_le.1 hupper.2
    have hlower : c.toLower.toNat = c.toNat + 32 := by
      delta Char.toLower
      rw [dif_pos hupper]
      show (c.val + ('a'.val - 'A'.val)).toNat = c.val.toNat + 32
      have hstep : ('a'.val - 'A'.val).toNat = 32 := by decide
      have hbound : c.val.toNat ≤ 90 := hZ
      rw [UInt32.toNat_add, hstep]
      omega
    rw [h c (isAlpha_iff.2 (.inl ⟨hA, hZ⟩)), h c.toLower (isAlpha_iff.2 (.inr (by omega)))]
  · delta Char.toLower
    rw [dif_neg hupper]

theorem isBlank_toLower (c : Char) : isBlank c.toLower = isBlank c :=
  toLower_congr (fun d hd => by
    rw [isAlpha_iff] at hd
    simp only [isBlank, Bool.or_eq_false_iff, Bool.and_eq_false_iff, decide_eq_false_iff_not,
      beq_eq_false_iff_ne]
    omega) c

theorem isDigit_toLower (c : Char) : c.toLower.isDigit = c.isDigit :=
  toLower_congr (P := Char.isDigit) (fun d hd => by
    rw [isAlpha_iff] at hd
    rw [Bool.eq_false_iff, ne_eq, isDigit_iff]
    omega) c

theorem toLower_of_isDigit {c : Char} (h : c.isDigit = true) : c.toLower = c := by
  have hsame := toLower_congr (P := fun d => d == c) (fun d hd => by
    rw [beq_eq_false_iff_ne]
    rintro rfl
    rw [isAlpha_iff] at hd
    rw [isDigit_iff] at h
    omega) c
  simpa using hsame

theorem isBlank_of_isDigit {c : Char} (h : c.isDigit = true) : isBlank c = false := by
  rw [isDigit_iff] at h
  simp only [isBlank, Bool.or_eq_false_iff, Bool.and_eq_false_iff, decide_eq_false_iff_not,
    beq_eq_false_iff_ne]
  omega

end Stitch.Text
