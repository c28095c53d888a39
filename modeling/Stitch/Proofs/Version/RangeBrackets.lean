/-
Brackets in range expressions.

Behind an opening bracket the reader looks for the next closing one, and what stands between them
is a version or two.  So each closing bracket ends an interval, and none is read as anything else.
An opening bracket inside an interval is not looked for: it becomes a part of a version
(`nested_bracket_is_read`).

* `takesTurns` looks at the brackets of a text alone, from left to right;
* what spells a list of intervals takes turns, but for opening brackets in its versions
  (`takesTurns_of_spells`);
* **`refused_or_bracketsFit`** puts this together for all texts.
-/
import Stitch.Proofs.Version.RangeGrammar

namespace Stitch

namespace Range

/-- The texts of the versions at the ends of the intervals. -/
def endTexts (r : Range) : List (List Char) :=
  r.intervals.flatMap fun i =>
    (i.lower.toList ++ i.upper.toList).map fun b => b.version.text.toList

/-- Whether the brackets of a text open and close by turns, where one may be open already.  With
`nested`, opening brackets that follow an opening one are passed over. -/
def takesTurns (nested : Bool) : Bool → List Char → Bool
  | isOpen, [] => !isOpen
  | isOpen, c :: cs =>
    if isOpening c then (nested || !isOpen) && takesTurns nested true cs
    else if isClosing c then isOpen && takesTurns nested false cs
    else takesTurns nested isOpen cs

variable {form : IntervalForm} {forms : List IntervalForm} {opening closing : Bool}
  {body core cs rest : List Char} {nested isOpen : Bool}

/-- Whether there is no opening bracket in a text. -/
def isPlain (cs : List Char) : Bool := cs.all fun c => !isOpening c

theorem isPlain_iff : isPlain cs = true ↔ ∀ c ∈ cs, isOpening c = false := by
  simp [isPlain]

theorem isPlain_cons (c : Char) (cs : List Char) :
    isPlain (c :: cs) = (!isOpening c && isPlain cs) :=
  List.all_cons

theorem isPlain_append (cs ds : List Char) : isPlain (cs ++ ds) = (isPlain cs && isPlain ds) :=
  List.all_append

theorem isOpening_of_isBlank {c : Char} (h : Text.isBlank c = true) : isOpening c = false := by
  by_contra hopening
  rw [Bool.not_eq_false, isOpening, Bool.or_eq_true, decide_eq_true_eq, decide_eq_true_eq]
    at hopening
  rcases hopening with rfl | rfl
  · exact absurd h (by decide)
  · exact absurd h (by decide)

theorem isOpening_of_isClosing {c : Char} (h : isClosing c = true) : isOpening c = false := by
  rw [isClosing, Bool.or_eq_true, decide_eq_true_eq, decide_eq_true_eq] at h
  rcases h with rfl | rfl <;> decide

theorem isPlain_of_padded (h : Text.Padded core cs) : isPlain cs = isPlain core := by
  obtain ⟨front, back, rfl, hfront, hback⟩ := h
  have hblanks : ∀ {blanks : List Char}, (∀ c ∈ blanks, Text.isBlank c = true) →
      isPlain blanks = true := fun hblank =>
    isPlain_iff.2 fun c hc => isOpening_of_isBlank (hblank c hc)
  rw [isPlain_append, isPlain_append, hblanks hfront, hblanks hback, Bool.true_and, Bool.and_true]

/-! ### Turns -/

theorem takesTurns_append (h : ∀ c ∈ cs, isOpening c = false ∧ isClosing c = false) :
    takesTurns nested isOpen (cs ++ rest) = takesTurns nested isOpen rest := by
  induction cs with
  | nil => rfl
  | cons c cs ih =>
    obtain ⟨hopening, hclosing⟩ := h c List.mem_cons_self
    rw [List.cons_append, takesTurns, if_neg (by simp [hopening]), if_neg (by simp [hclosing]),
      ih fun d hd => h d (List.mem_cons_of_mem _ hd)]

theorem takesTurns_blanks_append (h : ∀ c ∈ cs, Text.isBlank c = true) :
    takesTurns nested isOpen (cs ++ rest) = takesTurns nested isOpen rest :=
  takesTurns_append fun c hc => ⟨isOpening_of_isBlank (h c hc), isClosing_of_isBlank (h c hc)⟩

theorem takesTurns_of_no_bracket (h : ∀ c ∈ cs, isOpening c = false ∧ isClosing c = false) :
    takesTurns nested false cs = true := by
  rw [← List.append_nil cs, takesTurns_append h]
  rfl

theorem takesTurns_append_blanks (h : ∀ c ∈ rest, Text.isBlank c = true) :
    takesTurns nested isOpen (cs ++ rest) = takesTurns nested isOpen cs := by
  induction cs generalizing isOpen with
  | nil => rw [List.nil_append, ← List.append_nil rest, takesTurns_blanks_append h]
  | cons c cs ih => simp only [List.cons_append, takesTurns, ih]

theorem takesTurns_trim (cs : List Char) :
    takesTurns nested isOpen (Text.trim cs) = takesTurns nested isOpen cs := by
  obtain ⟨front, back, hcs, hfront, hback⟩ := Text.padded_trim cs
  conv_rhs => rw [hcs, takesTurns_blanks_append hfront, takesTurns_append_blanks hback]

/-- The bracket that ends an interval is its turn, unless an opening one stands before it. -/
theorem takesTurns_inside_append {c : Char} (hbody : ∀ d ∈ body, isClosing d = false)
    (hc : isClosing c = true) : takesTurns nested true (body ++ c :: rest) =
      ((nested || isPlain body) && takesTurns nested false rest) := by
  induction body with
  | nil =>
    rw [List.nil_append, takesTurns, if_neg (by simp [isOpening_of_isClosing hc]), if_pos hc,
      isPlain, List.all_nil, Bool.or_true]
  | cons d body ih =>
    rw [List.cons_append, takesTurns, ih fun e he => hbody e (List.mem_cons_of_mem _ he),
      isPlain_cons]
    by_cases hd : isOpening d = true
    · rw [if_pos hd, hd]
      cases nested <;> simp
    · rw [if_neg hd, if_neg (by simp [hbody d List.mem_cons_self]), Bool.eq_false_iff.2 hd,
        Bool.not_false, Bool.true_and]

/-- The versions of an interval. -/
def IntervalForm.texts : IntervalForm → List VersionText
  | exact t => [t]
  | between _ lower upper _ _ => lower.toList ++ upper.toList

theorem isPlain_endText (e : Option VersionText) :
    isPlain (endText e) = e.toList.all fun t => isPlain t.chars := by
  cases e with
  | none => rfl
  | some t => simp [endText]

theorem IntervalForm.Body.isPlain_eq (h : form.Body opening body closing) :
    isPlain body = form.texts.all fun t => isPlain t.chars := by
  cases h with
  | exact hpadded =>
    rw [isPlain_of_padded hpadded]
    simp [texts]
  | between hlow hhigh =>
    have hcomma : isOpening ',' = false := by decide
    rw [texts, List.all_append, ← isPlain_endText, ← isPlain_endText, ← isPlain_of_padded hlow,
      ← isPlain_of_padded hhigh, isPlain_append, isPlain_cons, hcomma, Bool.not_false,
      Bool.true_and]

theorem takesTurns_bracketed_append (h : form.Body opening body closing) :
    takesTurns nested false (bracketed opening body closing ++ rest) =
      ((nested || form.texts.all fun t => isPlain t.chars) && takesTurns nested false rest) := by
  rw [bracketed, List.cons_append, List.append_assoc, List.singleton_append, takesTurns,
    if_pos (isOpening_openingBracket opening), Bool.not_false, Bool.or_true, Bool.true_and,
    takesTurns_inside_append h.isClosing_eq_false (isClosing_closingBracket closing),
    h.isPlain_eq]

/-- The brackets of a list of intervals take turns, unless a version has an opening one. -/
theorem takesTurns_of_spells (h : Spells forms cs) : takesTurns nested false cs =
    (nested || forms.all fun form => form.texts.all fun t => isPlain t.chars) := by
  induction h with
  | last hbody hcs =>
    obtain ⟨front, back, rfl, hfront, hback⟩ := hcs
    have hend : takesTurns nested false back = true := takesTurns_of_no_bracket fun c hc =>
      ⟨isOpening_of_isBlank (hback c hc), isClosing_of_isBlank (hback c hc)⟩
    rw [takesTurns_blanks_append hfront, takesTurns_bracketed_append hbody, hend, Bool.and_true,
      List.all_cons, List.all_nil, Bool.and_true]
  | @cons _ _ _ _ _ _ rest hbody hcs _ ih =>
    obtain ⟨front, back, rfl, hfront, hback⟩ := hcs
    have hcomma : takesTurns nested false (',' :: rest) = takesTurns nested false rest := by
      rw [takesTurns, if_neg (by decide), if_neg (by decide)]
    rw [List.append_assoc, List.append_assoc, takesTurns_blanks_append hfront,
      takesTurns_bracketed_append hbody, takesTurns_blanks_append hback, hcomma, ih,
      List.all_cons, Bool.or_and_distrib_left]

/-! ### Ends -/

theorem VersionText.text_version (t : VersionText) : t.version.text.toList = t.chars := by
  rw [version, Version.ofText]
  simp [t.trim_eq]

theorem map_interval_ends (form : IntervalForm) {t : List Char} :
    t ∈ (form.interval.lower.toList ++ form.interval.upper.toList).map
      (fun b => b.version.text.toList) ↔ t ∈ form.texts.map (·.chars) := by
  cases form with
  | exact t => simp [IntervalForm.interval, Interval.exact, IntervalForm.texts,
      VersionText.text_version]
  | between lowerInclusive lower upper upperInclusive uncrossed =>
    cases lower <;> cases upper <;>
      simp [IntervalForm.interval, IntervalForm.texts, VersionText.text_version]

theorem mem_endTexts_iff {r : Range} (hr : r.intervals = forms.map (·.interval)) {t : List Char} :
    t ∈ r.endTexts ↔ ∃ form ∈ forms, t ∈ form.texts.map (·.chars) := by
  rw [endTexts, hr, List.flatMap_map, List.mem_flatMap]
  exact exists_congr fun form => and_congr_right fun _ => map_interval_ends form

/-! ### Expressions -/

theorem error_or_ok_ofText (text : String) :
    (∃ fault, ofText text = .error (.range text fault)) ∨ ∃ r, ofText text = .ok r := by
  rw [ofText]
  cases parse text with
  | error fault => exact .inl ⟨fault, rfl⟩
  | ok r => exact .inr ⟨r, rfl⟩

/-- A range that is read is that of all versions, has the intervals that its text spells, or has
the version that its text is. -/
theorem cases_of_parse {text : String} {r : Range} (h : parse text = .ok r) :
    (r = any ∧ (Text.trim text.toList = [] ∨ Text.trim text.toList = ['*'])) ∨
      (∃ forms, Spells forms (Text.trim text.toList) ∧ r.intervals = forms.map (·.interval)) ∨
      (r = exact (Text.trimmed text) ∧ ∀ c ∈ Text.trim text.toList,
        c ≠ ',' ∧ isOpening c = false ∧ isClosing c = false) := by
  rw [parse] at h
  split at h
  next hnil => exact .inl ⟨(Except.ok.inj h).symm, .inl hnil⟩
  next hstar => exact .inl ⟨(Except.ok.inj h).symm, .inr hstar⟩
  next c cs _ hcs =>
    split at h
    · obtain ⟨intervals, hintervals, hr⟩ := exists_of_bind_eq_ok h
      obtain ⟨forms, hforms, rfl⟩ := exists_spells_of_intervalsFrom hintervals
      exact .inr (.inl ⟨forms, hforms, by rw [← Except.ok.inj hr]⟩)
    · split at h
      · cases h
      next hplain =>
        refine .inr (.inr ⟨(Except.ok.inj h).symm, ?_⟩)
        simpa [not_or, and_assoc] using hplain

/-- What a text and the range that it is read as have to do with its brackets: the closing ones end
the intervals, and the opening ones begin them or are in a version. -/
structure BracketsFit (text : String) (r : Range) : Prop where
  spells : ∀ c cs, Text.trim text.toList = c :: cs → isOpening c = true →
    ∃ forms, Spells forms (c :: cs) ∧ r.intervals = forms.map (·.interval)
  turns : takesTurns true false text.toList = true
  ends : ∀ t ∈ r.endTexts, ∀ c ∈ t, c ≠ ',' ∧ isClosing c = false
  nested : takesTurns false false text.toList = true ↔
    ∀ t ∈ r.endTexts, ∀ c ∈ t, isOpening c = false

variable {text : String} {r : Range}

theorem BracketsFit.of_spells (h : Spells forms (Text.trim text.toList))
    (hr : r.intervals = forms.map (·.interval)) : BracketsFit text r := by
  have hturns : ∀ nested, takesTurns nested false text.toList =
      (nested || forms.all fun form => form.texts.all fun t => isPlain t.chars) := fun nested => by
    rw [← takesTurns_trim, takesTurns_of_spells h]
  refine ⟨fun c cs hcs _ => ⟨forms, hcs ▸ h, hr⟩, by rw [hturns, Bool.true_or], ?_, ?_⟩
  · intro t ht c hc
    obtain ⟨form, -, ht⟩ := (mem_endTexts_iff hr).1 ht
    obtain ⟨t, -, rfl⟩ := List.mem_map.1 ht
    exact ⟨fun heq => t.comma (heq ▸ hc), t.closing c hc⟩
  · rw [hturns, Bool.false_or]
    simp only [mem_endTexts_iff hr, List.all_eq_true, isPlain_iff, List.mem_map]
    grind

/-- Without brackets there is nothing to be out of turn. -/
theorem BracketsFit.of_no_bracket
    (htext : ∀ c ∈ Text.trim text.toList, isOpening c = false ∧ isClosing c = false)
    (hends : ∀ t ∈ r.endTexts, t = Text.trim text.toList ∧ ',' ∉ t) : BracketsFit text r := by
  have hturns : ∀ nested, takesTurns nested false text.toList = true := fun nested => by
    rw [← takesTurns_trim, takesTurns_of_no_bracket htext]
  refine ⟨fun c cs hcs hc => ?_, hturns true, fun t ht c hc => ?_, ?_⟩
  · rw [(htext c (by simp [hcs])).1] at hc
    cases hc
  · obtain ⟨rfl, hcomma⟩ := hends t ht
    exact ⟨fun heq => hcomma (heq ▸ hc), (htext c hc).2⟩
  · refine iff_of_true (hturns false) fun t ht c hc => ?_
    rw [(hends t ht).1] at hc
    exact (htext c hc).1

theorem endTexts_exact (text : String) :
    (exact (Text.trimmed text)).endTexts =
      [Text.trim text.toList, Text.trim text.toList] := by
  simp [exact, endTexts, Interval.exact, Version.ofText, Text.trimmed, Text.trim_trim]

theorem bracketsFit_of_parse (h : parse text = .ok r) : BracketsFit text r := by
  rcases cases_of_parse h with ⟨rfl, htext⟩ | ⟨forms, hforms, hr⟩ | ⟨rfl, htext⟩
  · have hends : any.endTexts = [] := rfl
    refine .of_no_bracket ?_ (by simp [hends])
    rcases htext with htext | htext <;> simp [htext, isOpening, isClosing]
  · exact .of_spells hforms hr
  · refine .of_no_bracket (fun c hc => (htext c hc).2) fun t ht => ?_
    obtain rfl : t = Text.trim text.toList := by simpa [endTexts_exact] using ht
    exact ⟨rfl, fun hc => (htext ',' hc).1 rfl⟩

/-- **Brackets out of turn are refused**, but for opening ones inside an interval.  A text that is
no range expression is refused, and it spells no intervals.  Of one that is read all closing
brackets end intervals, and it spells these where it begins with a bracket.  There are no commas
and closing brackets in its versions; and its brackets open and close by turns exactly if there are
no opening ones in them either. -/
theorem refused_or_bracketsFit (text : String) :
    ((∃ fault, ofText text = .error (.range text fault)) ∧ ∀ forms, ¬Spells forms text.toList) ∨
      ∃ r, ofText text = .ok r ∧ BracketsFit text r := by
  rcases error_or_ok_ofText text with ⟨fault, hfault⟩ | ⟨r, hr⟩
  · refine .inl ⟨⟨fault, hfault⟩, fun forms h => ?_⟩
    have hread := ofText_eq_ok_iff.2 (parse_of_intervalsFrom (intervalsFrom_of_spells h))
    cases hfault.symm.trans hread
  · exact .inr ⟨r, hr, bracketsFit_of_parse (ofText_eq_ok_iff.1 hr)⟩

/-- An opening bracket inside an interval is read as a part of its version. -/
theorem nested_bracket_is_read :
    takesTurns false false "[[1]".toList = false ∧
      ∃ r, ofText "[[1]" = .ok r ∧ ∃ t ∈ r.endTexts, '[' ∈ t :=
  ⟨by decide, ⟨_, rfl, _, List.mem_cons_self, by decide⟩⟩

end Range

end Stitch
