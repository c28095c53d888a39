/-
Range expressions are read back.

A range that was read keeps its expression without the blanks around it.  As
trimming twice is trimming once (`Text.trim_trim`), that expression is read as
the same range again: `Range.parse_text_of_parse_eq_ok`.
-/
import Stitch.Identifier
import Stitch.Proofs.Steps
import Stitch.Proofs.Text.Blank

namespace Stitch

namespace Range

theorem parse_trimmed (text : String) : parse (Text.trimmed text) = parse text := by
  rw [parse, Text.trimmed, String.toList_ofList, Text.trim_trim, ← parse]

/-- A range keeps its expression, up to the blanks at the ends; that of all
versions is a star. -/
theorem text_of_parse_eq_ok {text : String} {r : Range} (h : parse text = .ok r) :
    r = any ∨ r.text = Text.trimmed text := by
  rw [parse] at h
  split at h
  next => exact .inl (Except.ok.inj h).symm
  next => exact .inl (Except.ok.inj h).symm
  next c cs hcs =>
    right
    split at h
    · obtain ⟨intervals, -, hr⟩ := exists_of_bind_eq_ok h
      rw [← Except.ok.inj hr, Text.trimmed]
    · split at h
      · exact absurd h (by simp)
      · rw [← Except.ok.inj h, Text.trimmed, exact]

theorem parse_text_of_parse_eq_ok {text : String} {r : Range} (h : parse text = .ok r) :
    parse r.text = .ok r := by
  rcases text_of_parse_eq_ok h with rfl | htext
  · rfl
  · rw [htext, parse_trimmed, h]

theorem ofText_eq_ok_iff {text : String} {r : Range} :
    ofText text = .ok r ↔ parse text = .ok r := by
  rw [ofText]
  cases parse text <;> simp

/-- The expression of a range that was read is read as that range. -/
theorem ofText_text_of_ofText_eq_ok {text : String} {r : Range} (h : ofText text = .ok r) :
    ofText r.text = .ok r :=
  ofText_eq_ok_iff.2 (parse_text_of_parse_eq_ok (ofText_eq_ok_iff.1 h))

end Range

end Stitch
