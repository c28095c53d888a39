/-
The grammar of range expressions.

A list of intervals is said twice: by what its text looks like (`Spells`), and by the reader that
goes through the text once, character by character.  Both mean the same: what spells intervals
is read as these (`intervalsFrom_of_spells`), and whatever is read spells intervals
(`exists_spells_of_intervalsFrom`).

* the body of an interval, between its brackets, holds one text or two with a comma between
  them, and such bodies are read (`interval_of_body`) and no others (`exists_body_of_interval`);
* no body has a closing bracket in it, so the first one behind an opening bracket ends it
  (`intervalsFrom_inside_append`), and a comma behind that is one between intervals;
* blanks are skipped where an interval or a comma is due (`intervalsFrom_blanks_append`), and
  around a text they are trimmed (`bound_of_padded`).

What an interval holds is said by the order of versions alone (`IntervalForm.Holds`), from the
side of the version: it lies above one end and below the other.

The main statement is **`ofText_of_spells`**.
-/
import Stitch.Proofs.Text.Split
import Stitch.Proofs.Version.Order
import Stitch.Proofs.Version.Range

namespace Stitch

namespace Bound

theorem admitsAbove_iff {b : Bound} {v : Version} : b.admitsAbove v = true ↔
    v.compare b.version = .gt ∨ b.inclusive = true ∧ v.compare b.version = .eq := by
  rw [admitsAbove, Version.atMost, Version.before, Version.compare_swap v b.version]
  cases b.inclusive <;> cases v.compare b.version <;> decide

theorem admitsBelow_iff {b : Bound} {v : Version} : b.admitsBelow v = true ↔
    v.compare b.version = .lt ∨ b.inclusive = true ∧ v.compare b.version = .eq := by
  rw [admitsBelow, Version.atMost, Version.before]
  cases b.inclusive <;> cases v.compare b.version <;> decide

end Bound

namespace Range

/-! ### The grammar in words -/

/-- The text of a version in an interval: it is not empty, needs no trimming, and has neither a
comma nor a closing bracket in it.  Opening brackets are nothing special inside an interval. -/
structure VersionText where
  chars : List Char
  ne_nil : chars ≠ []
  trim_eq : Text.trim chars = chars
  comma : ',' ∉ chars
  closing : ∀ c ∈ chars, isClosing c = false

def VersionText.version (t : VersionText) : Version := .ofText (String.ofList t.chars)

/-- The text of an end; that of an absent end is empty. -/
def endText (e : Option VersionText) : List Char := e.elim [] (·.chars)

/-- What an interval says: one version, or two ends, neither of which has to be there.  The lower
end is not above the upper one. -/
inductive IntervalForm where
  | exact (t : VersionText)
  | between (lowerInclusive : Bool) (lower upper : Option VersionText) (upperInclusive : Bool)
    (uncrossed : ∀ l ∈ lower, ∀ u ∈ upper, l.version.compare u.version ≠ .gt)

namespace IntervalForm

def interval : IntervalForm → Interval
  | exact t => .exact t.version
  | between lowerInclusive lower upper upperInclusive _ =>
    ⟨lower.map fun l => ⟨l.version, lowerInclusive⟩, upper.map fun u => ⟨u.version, upperInclusive⟩⟩

/-- The versions in an interval: those that are the same as its one version, or lie between its
ends or at one that is included. -/
def Holds (v : Version) : IntervalForm → Prop
  | exact t => v.compare t.version = .eq
  | between lowerInclusive lower upper upperInclusive _ =>
    (∀ l ∈ lower, v.compare l.version = .gt ∨
      lowerInclusive = true ∧ v.compare l.version = .eq) ∧
    ∀ u ∈ upper, v.compare u.version = .lt ∨
      upperInclusive = true ∧ v.compare u.version = .eq

/-- The body of an interval, and whether the brackets before and behind it are square. -/
inductive Body : IntervalForm → Bool → List Char → Bool → Prop
  | exact {t : VersionText} {body : List Char} (h : Text.Padded t.chars body) :
    Body (.exact t) true body true
  | between {lowerInclusive upperInclusive : Bool} {lower upper : Option VersionText}
    {uncrossed : ∀ l ∈ lower, ∀ u ∈ upper, l.version.compare u.version ≠ .gt}
    {low high : List Char} (hlow : Text.Padded (endText lower) low)
    (hhigh : Text.Padded (endText upper) high) :
    Body (.between lowerInclusive lower upper upperInclusive uncrossed)
      lowerInclusive (low ++ ',' :: high) upperInclusive

end IntervalForm

def openingBracket (square : Bool) : Char := if square then '[' else '('

def closingBracket (square : Bool) : Char := if square then ']' else ')'

@[simp] theorem isBlank_openingBracket (square : Bool) :
    Text.isBlank (openingBracket square) = false := by
  cases square <;> decide

@[simp] theorem isOpening_openingBracket (square : Bool) :
    isOpening (openingBracket square) = true := by
  cases square <;> decide

@[simp] theorem isClosing_closingBracket (square : Bool) :
    isClosing (closingBracket square) = true := by
  cases square <;> decide

@[simp] theorem openingBracket_eq_square (square : Bool) :
    decide (openingBracket square = '[') = square := by
  cases square <;> decide

@[simp] theorem closingBracket_eq_square (square : Bool) :
    decide (closingBracket square = ']') = square := by
  cases square <;> decide

theorem openingBracket_of_isOpening {c : Char} (h : isOpening c = true) :
    openingBracket (c = '[') = c := by
  rw [isOpening, Bool.or_eq_true, decide_eq_true_eq, decide_eq_true_eq] at h
  rcases h with rfl | rfl <;> decide

theorem closingBracket_of_isClosing {c : Char} (h : isClosing c = true) :
    closingBracket (c = ']') = c := by
  rw [isClosing, Bool.or_eq_true, decide_eq_true_eq, decide_eq_true_eq] at h
  rcases h with rfl | rfl <;> decide

def bracketed (opening : Bool) (body : List Char) (closing : Bool) : List Char :=
  openingBracket opening :: (body ++ [closingBracket closing])

/-- The text has these intervals in it, with commas between them, and blanks around each interval
and each comma. -/
inductive Spells : List IntervalForm → List Char → Prop
  | last {form : IntervalForm} {opening closing : Bool} {body cs : List Char}
    (hbody : form.Body opening body closing)
    (hcs : Text.Padded (bracketed opening body closing) cs) :
    Spells [form] cs
  | cons {form : IntervalForm} {opening closing : Bool} {body cs : List Char}
    {forms : List IntervalForm} {rest : List Char}
    (hbody : form.Body opening body closing)
    (hcs : Text.Padded (bracketed opening body closing) cs) (hrest : Spells forms rest) :
    Spells (form :: forms) (cs ++ ',' :: rest)

/-! ### What an interval holds -/

theorem contains_interval_iff {form : IntervalForm} {v : Version} :
    form.interval.contains v = true ↔ form.Holds v := by
  cases form with
  | exact t =>
    rw [IntervalForm.interval, Interval.exact, Interval.contains, Bool.and_eq_true, Option.all_some,
      Option.all_some, Bound.admitsAbove_iff, Bound.admitsBelow_iff, IntervalForm.Holds]
    cases v.compare t.version <;> simp
  | between lowerInclusive lower upper upperInclusive uncrossed =>
    rw [IntervalForm.interval, Interval.contains, Bool.and_eq_true, Option.all_map, Option.all_map,
      Option.all_eq_true, Option.all_eq_true]
    refine and_congr (forall₂_congr fun l _ => ?_) (forall₂_congr fun u _ => ?_)
    · exact Bound.admitsAbove_iff
    · exact Bound.admitsBelow_iff

/-! ### Reading a body -/

variable {form : IntervalForm} {opening closing : Bool} {body core cs rest : List Char}
  {e : Option VersionText} {i : Interval} {is : List Interval} {forms : List IntervalForm}
  {s : Scan}

theorem isClosing_of_isBlank {c : Char} (h : Text.isBlank c = true) : isClosing c = false := by
  by_contra hclosing
  rw [Bool.not_eq_false, isClosing, Bool.or_eq_true, decide_eq_true_eq, decide_eq_true_eq]
    at hclosing
  rcases hclosing with rfl | rfl
  · exact absurd h (by decide)
  · exact absurd h (by decide)

theorem comma_not_mem_of_padded (h : Text.Padded core cs) (hcore : ',' ∉ core) : ',' ∉ cs := by
  intro hc
  rcases h.mem_or_isBlank hc with hc | hblank
  · exact hcore hc
  · exact absurd hblank (by decide)

theorem isClosing_of_padded (h : Text.Padded core cs) (hcore : ∀ c ∈ core, isClosing c = false)
    {c : Char} (hc : c ∈ cs) : isClosing c = false := by
  rcases h.mem_or_isBlank hc with hc | hblank
  · exact hcore c hc
  · exact isClosing_of_isBlank hblank

theorem trim_endText (e : Option VersionText) : Text.trim (endText e) = endText e := by
  cases e with
  | none => rfl
  | some t => exact t.trim_eq

theorem comma_not_mem_endText (e : Option VersionText) : ',' ∉ endText e := by
  cases e with
  | none => exact List.not_mem_nil
  | some t => exact t.comma

theorem isClosing_of_mem_endText : ∀ c ∈ endText e, isClosing c = false := by
  cases e with
  | none => simp [endText]
  | some t => exact t.closing

theorem bound_of_padded (h : Text.Padded (endText e) cs) (inclusive : Bool) :
    bound cs inclusive = e.map fun t => ⟨t.version, inclusive⟩ := by
  rw [bound, h.trim_eq, trim_endText]
  cases e with
  | none => rfl
  | some t =>
    rw [if_neg (by simpa [endText] using t.ne_nil)]
    rfl

theorem exists_versionText (hnil : Text.trim cs ≠ []) (hcomma : ',' ∉ cs)
    (hclosing : ∀ c ∈ cs, isClosing c = false) : ∃ t : VersionText, Text.Padded t.chars cs := by
  refine ⟨⟨Text.trim cs, hnil, Text.trim_trim cs, ?_, ?_⟩, Text.padded_trim cs⟩
  · exact fun hc => hcomma (Text.mem_of_mem_trim hc)
  · exact fun c hc => hclosing c (Text.mem_of_mem_trim hc)

/-- Every text without a comma and a closing bracket is that of an end. -/
theorem exists_endText (hcomma : ',' ∉ cs) (hclosing : ∀ c ∈ cs, isClosing c = false) :
    ∃ e, Text.Padded (endText e) cs := by
  by_cases hnil : Text.trim cs = []
  · refine ⟨none, ?_⟩
    have h := Text.padded_trim cs
    rwa [hnil] at h
  · obtain ⟨t, ht⟩ := exists_versionText hnil hcomma hclosing
    exact ⟨some t, ht⟩

/-- There is no closing bracket in a body. -/
theorem IntervalForm.Body.isClosing_eq_false (h : form.Body opening body closing) :
    ∀ c ∈ body, isClosing c = false := by
  intro c hc
  cases h with
  | @exact t _ hpadded => exact isClosing_of_padded hpadded t.closing hc
  | between hlow hhigh =>
    rcases List.mem_append.1 hc with hc | hc
    · exact isClosing_of_padded hlow isClosing_of_mem_endText hc
    · rcases List.mem_cons.1 hc with rfl | hc
      · decide
      · exact isClosing_of_padded hhigh isClosing_of_mem_endText hc

theorem interval_of_body (h : form.Body opening body closing) :
    interval opening body closing = .ok form.interval := by
  cases h with
  | @exact t _ hpadded =>
    rw [interval, Text.cut_eq_none_iff.2 (comma_not_mem_of_padded hpadded t.comma)]
    show (if _ then _ else _) = _
    rw [hpadded.trim_eq, t.trim_eq, if_neg (by simpa using t.ne_nil)]
    rfl
  | @between _ _ lower upper uncrossed low high hlow hhigh =>
    have hcomma : ',' ∉ low := comma_not_mem_of_padded hlow (comma_not_mem_endText lower)
    have hcomma' : ',' ∉ high := comma_not_mem_of_padded hhigh (comma_not_mem_endText upper)
    rw [interval, Text.cut_eq_some.2 ⟨rfl, hcomma⟩]
    show (if _ then _ else _) = _
    rw [if_neg (by simpa using hcomma'), bound_of_padded hlow, bound_of_padded hhigh]
    cases lower with
    | none => rfl
    | some l =>
      cases upper with
      | none => rfl
      | some u =>
        show (if u.version.before l.version then _ else _) = _
        rw [if_neg fun hbefore =>
          uncrossed l rfl u rfl (Version.before_iff_compare_eq_gt.1 hbefore)]
        rfl

/-- What is read as the body of an interval is one. -/
theorem exists_body_of_interval (hbody : ∀ c ∈ body, isClosing c = false)
    (h : interval opening body closing = .ok i) :
    ∃ form : IntervalForm, form.Body opening body closing ∧ form.interval = i := by
  suffices ∃ form : IntervalForm, form.Body opening body closing by
    obtain ⟨form, hform⟩ := this
    exact ⟨form, hform, Except.ok.inj ((interval_of_body hform).symm.trans h)⟩
  rw [interval] at h
  split at h
  next hcut =>
    have hcomma := Text.cut_eq_none_iff.1 hcut
    dsimp only at h
    split at h
    · cases h
    next hexact =>
      have hexact : Text.trim body ≠ [] ∧ opening = true ∧ closing = true := by
        simpa [and_assoc] using hexact
      obtain ⟨hnil, rfl, rfl⟩ := hexact
      obtain ⟨t, ht⟩ := exists_versionText hnil hcomma hbody
      exact ⟨.exact t, .exact ht⟩
  next low high hcut =>
    obtain ⟨rfl, hlow⟩ := Text.cut_eq_some.1 hcut
    split at h
    · cases h
    next hhigh =>
      have hhigh : ',' ∉ high := by simpa using hhigh
      obtain ⟨lower, hlower⟩ := exists_endText hlow fun c hc => hbody c (List.mem_append_left _ hc)
      obtain ⟨upper, hupper⟩ := exists_endText hhigh fun c hc =>
        hbody c (List.mem_append_right _ (List.mem_cons_of_mem _ hc))
      refine ⟨.between opening lower upper closing ?_, .between hlower hupper⟩
      rintro l rfl u rfl hgt
      -- Ends that are crossed would have been refused.
      rw [bound_of_padded hlower, bound_of_padded hupper] at h
      have h : (if u.version.before l.version then _ else _) = _ := h
      rw [if_pos (Version.before_iff_compare_eq_gt.2 hgt)] at h
      cases h

/-! ### Reading a list of intervals -/

/-- Blanks are skipped where an interval or a comma is due. -/
theorem intervalsFrom_blanks_append (hs : s = .opening ∨ s = .after)
    {blanks : List Char} (h : ∀ c ∈ blanks, Text.isBlank c = true) (cs : List Char) :
    intervalsFrom s (blanks ++ cs) = intervalsFrom s cs := by
  induction blanks with
  | nil => rfl
  | cons c blanks ih =>
    have hc := h c List.mem_cons_self
    rw [List.cons_append, ← ih fun d hd => h d (List.mem_cons_of_mem _ hd)]
    rcases hs with rfl | rfl
    · rw [intervalsFrom, if_pos hc]
    · rw [intervalsFrom, if_pos hc]

/-- The first closing bracket ends an interval. -/
theorem intervalsFrom_inside_append (bracket : Char) (sofar : List Char) {c : Char}
    (hbody : ∀ d ∈ body, isClosing d = false) (hc : isClosing c = true) (rest : List Char) :
    intervalsFrom (.inside bracket sofar) (body ++ c :: rest) = do
      let first ← interval (bracket = '[') (sofar.reverse ++ body) (c = ']')
      let later ← intervalsFrom .after rest
      return first :: later := by
  induction body generalizing sofar with
  | nil => rw [List.nil_append, intervalsFrom, if_pos hc, List.append_nil]
  | cons d body ih =>
    have hd := hbody d List.mem_cons_self
    rw [List.cons_append, intervalsFrom, if_neg (by simp [hd]),
      ih (d :: sofar) fun e he => hbody e (List.mem_cons_of_mem _ he), List.reverse_cons,
      List.append_assoc, List.singleton_append]

theorem intervalsFrom_inside_eq_error (bracket : Char) (sofar : List Char)
    (h : ∀ c ∈ cs, isClosing c = false) :
    intervalsFrom (.inside bracket sofar) cs = .error .missingClosingBracket := by
  induction cs generalizing sofar with
  | nil => rfl
  | cons c cs ih =>
    have hc := h c List.mem_cons_self
    rw [intervalsFrom, if_neg (by simp [hc]), ih _ fun d hd => h d (List.mem_cons_of_mem _ hd)]

/-- An interval is read, and then what is behind it. -/
theorem intervalsFrom_bracketed (h : form.Body opening body closing) (rest : List Char) :
    intervalsFrom .opening (bracketed opening body closing ++ rest) = do
      let later ← intervalsFrom .after rest
      return form.interval :: later := by
  rw [bracketed, List.cons_append, List.append_assoc, List.singleton_append, intervalsFrom,
    if_neg (by simp), if_pos (isOpening_openingBracket opening),
    intervalsFrom_inside_append _ _ h.isClosing_eq_false (isClosing_closingBracket closing),
    openingBracket_eq_square, closingBracket_eq_square, List.reverse_nil, List.nil_append,
    interval_of_body h]
  rfl

theorem intervalsFrom_of_spells (h : Spells forms cs) :
    intervalsFrom .opening cs = .ok (forms.map (·.interval)) := by
  induction h with
  | last hbody hcs =>
    obtain ⟨front, back, rfl, hfront, hback⟩ := hcs
    -- Only blanks are behind the last interval.
    have hafter : intervalsFrom .after back = .ok [] := by
      rw [← List.append_nil back, intervalsFrom_blanks_append (.inr rfl) hback, intervalsFrom]
    rw [intervalsFrom_blanks_append (.inl rfl) hfront, intervalsFrom_bracketed hbody, hafter]
    rfl
  | @cons _ _ _ _ _ _ rest hbody hcs _ ih =>
    obtain ⟨front, back, rfl, hfront, hback⟩ := hcs
    have hafter : intervalsFrom .after (back ++ ',' :: rest) = intervalsFrom .opening rest := by
      rw [intervalsFrom_blanks_append (.inr rfl) hback, intervalsFrom, if_neg (by decide),
        if_pos rfl]
    rw [List.append_assoc, List.append_assoc, intervalsFrom_blanks_append (.inl rfl) hfront,
      intervalsFrom_bracketed hbody, hafter, ih]
    rfl

/-- What is read begins with an interval, and what is behind it is read after it. -/
theorem exists_bracketed_of_intervalsFrom (h : intervalsFrom .opening cs = .ok is) :
    ∃ (form : IntervalForm) (opening closing : Bool) (body front rest : List Char)
      (later : List Interval), form.Body opening body closing ∧
      (∀ c ∈ front, Text.isBlank c = true) ∧
      cs = front ++ (bracketed opening body closing ++ rest) ∧
      intervalsFrom .after rest = .ok later ∧ is = form.interval :: later := by
  obtain ⟨front, cs, rfl, hfront, hhead⟩ := Text.exists_blanks_append cs
  rw [intervalsFrom_blanks_append (.inl rfl) hfront] at h
  cases cs with
  | nil => cases h
  | cons c cs =>
    rw [intervalsFrom, if_neg (by simp [hhead c cs rfl])] at h
    split at h
    next hopening =>
      cases hfind : cs.find? isClosing with
      | none =>
        -- The interval does not end.
        have hnone : ∀ d ∈ cs, isClosing d = false := by simpa using hfind
        rw [intervalsFrom_inside_eq_error c [] hnone] at h
        cases h
      | some d =>
        obtain ⟨hd, body, rest, rfl, hbody⟩ := List.find?_eq_some_iff_append.1 hfind
        have hbody : ∀ e ∈ body, isClosing e = false := by simpa using hbody
        rw [intervalsFrom_inside_append c [] hbody hd, List.reverse_nil, List.nil_append] at h
        obtain ⟨first, hfirst, h⟩ := exists_of_bind_eq_ok h
        obtain ⟨later, hlater, h⟩ := exists_of_bind_eq_ok h
        obtain ⟨form, hform, rfl⟩ := exists_body_of_interval hbody hfirst
        refine ⟨form, _, _, body, front, rest, later, hform, hfront, ?_, hlater,
          (Except.ok.inj h).symm⟩
        rw [bracketed, openingBracket_of_isOpening hopening, closingBracket_of_isClosing hd,
          List.cons_append, List.append_assoc, List.singleton_append]
    · cases h

/-- After an interval stands nothing, or a comma with more intervals behind it. -/
theorem exists_of_intervalsFrom_after (h : intervalsFrom .after cs = .ok is) :
    ∃ back, (∀ c ∈ back, Text.isBlank c = true) ∧
      (cs = back ∧ is = [] ∨
        ∃ rest, cs = back ++ ',' :: rest ∧ intervalsFrom .opening rest = .ok is) := by
  obtain ⟨back, cs, rfl, hback, hhead⟩ := Text.exists_blanks_append cs
  refine ⟨back, hback, ?_⟩
  rw [intervalsFrom_blanks_append (.inr rfl) hback] at h
  cases cs with
  | nil => exact .inl ⟨List.append_nil back, (Except.ok.inj h).symm⟩
  | cons c cs =>
    rw [intervalsFrom, if_neg (by simp [hhead c cs rfl])] at h
    split at h
    next hcomma => exact .inr ⟨cs, by rw [hcomma], h⟩
    · cases h

/-- Only what spells intervals is read. -/
theorem exists_spells_of_intervalsFrom {cs : List Char} {is : List Interval}
    (h : intervalsFrom .opening cs = .ok is) :
    ∃ forms, Spells forms cs ∧ forms.map (·.interval) = is := by
  obtain ⟨form, opening, closing, body, front, rest, later, hbody, hfront, hcs, hrest, rfl⟩ :=
    exists_bracketed_of_intervalsFrom h
  obtain ⟨back, hback, ⟨rfl, rfl⟩ | ⟨rest', rfl, hrest'⟩⟩ := exists_of_intervalsFrom_after hrest
  · exact ⟨[form], .last hbody ⟨front, rest, hcs, hfront, hback⟩, rfl⟩
  · have hshorter : rest'.length < cs.length := by
      rw [hcs]
      simp only [List.length_append, List.length_cons]
      omega
    obtain ⟨forms, hforms, rfl⟩ := exists_spells_of_intervalsFrom hrest'
    refine ⟨form :: forms, ?_, rfl⟩
    have hspells := Spells.cons hbody ⟨front, back, rfl, hfront, hback⟩ hforms
    rw [List.append_assoc, List.append_assoc] at hspells
    rwa [hcs]
termination_by cs.length

/-! ### Reading an expression -/

/-- Blanks at the end make no difference, wherever the reader stands. -/
theorem intervalsFrom_append_blanks {blanks : List Char}
    (h : ∀ c ∈ blanks, Text.isBlank c = true) (s : Scan) (cs : List Char) :
    intervalsFrom s (cs ++ blanks) = intervalsFrom s cs := by
  induction cs generalizing s with
  | nil =>
    cases s with
    | inside bracket sofar =>
      -- The interval does not end, with blanks or without.
      have hclosing : ∀ c ∈ blanks, isClosing c = false :=
        fun c hc => isClosing_of_isBlank (h c hc)
      rw [List.nil_append, intervalsFrom_inside_eq_error bracket sofar hclosing, intervalsFrom]
    | opening | after =>
      rw [List.nil_append, ← List.append_nil blanks, intervalsFrom_blanks_append (by simp) h]
  | cons c cs ih => cases s <;> simp only [List.cons_append, intervalsFrom, ih]

theorem intervalsFrom_opening_trim (cs : List Char) :
    intervalsFrom .opening (Text.trim cs) = intervalsFrom .opening cs := by
  obtain ⟨front, back, hcs, hfront, hback⟩ := Text.padded_trim cs
  conv_rhs => rw [hcs, intervalsFrom_blanks_append (.inl rfl) hfront,
    intervalsFrom_append_blanks hback]

/-- A text with intervals in it is a range expression. -/
theorem parse_of_intervalsFrom {text : String} (h : intervalsFrom .opening text.toList = .ok is) :
    parse text = .ok ⟨Text.trimmed text, is⟩ := by
  rw [← intervalsFrom_opening_trim] at h
  rw [parse]
  split
  next hnil =>
    rw [hnil] at h
    cases h
  next hstar =>
    rw [hstar, intervalsFrom, if_neg (by decide), if_neg (by decide)] at h
    cases h
  next c cs _ hcs =>
    have hblank := Text.isBlank_of_trim_eq_cons hcs
    have hopening : isOpening c = true := by
      by_contra hopening
      rw [hcs, intervalsFrom, if_neg (by simp [hblank]), if_neg hopening] at h
      cases h
    rw [if_pos hopening, h]
    rfl

/-- **Range expressions mean what they say.**  A text that spells intervals is read as a range
with these intervals in their order; it holds the versions that lie in one of them, and its own
text is read as the same range. -/
theorem ofText_of_spells {forms : List IntervalForm} {text : String}
    (h : Spells forms text.toList) :
    ∃ r, ofText text = .ok r ∧ r.intervals = forms.map (·.interval) ∧
      (∀ v, r.contains v = true ↔ ∃ form ∈ forms, form.Holds v) ∧ ofText r.text = .ok r := by
  have hread : ofText text = .ok ⟨Text.trimmed text, forms.map (·.interval)⟩ :=
    ofText_eq_ok_iff.2 (parse_of_intervalsFrom (intervalsFrom_of_spells h))
  refine ⟨_, hread, rfl, fun v => ?_, ofText_text_of_ofText_eq_ok hread⟩
  rw [contains, List.any_map, List.any_eq_true]
  exact exists_congr fun form => and_congr_right fun _ => contains_interval_iff

def lowSample : VersionText where
  chars := "1.5".toList
  ne_nil := by decide
  trim_eq := by decide
  comma := by decide
  closing := by simp [isClosing]

def highSample : VersionText where
  chars := "2".toList
  ne_nil := by decide
  trim_eq := by decide
  comma := by decide
  closing := by simp [isClosing]

theorem compare_lowSample_highSample :
    lowSample.version.compare highSample.version = .lt := by
  have hlow : lowSample.version.components = [.number 1, .number 5] := rfl
  have hhigh : highSample.version.components = [.number 2] := rfl
  rw [Version.compare, hlow, hhigh, Version.compareComponents]
  rfl

/-- The version 1.5, what comes before it, and what comes behind it and not behind 2. -/
def sampleForms : List IntervalForm :=
  [.exact lowSample, .between false none (some lowSample) false nofun,
    .between false (some lowSample) (some highSample) true (by
      rintro l ⟨⟩ u ⟨⟩
      rw [compare_lowSample_highSample]
      decide)]

theorem spells_sampleForms : Spells sampleForms "[ 1.5 ] , (,1.5),( 1.5,2] ".toList := by
  have hspace : ∀ c ∈ [' '], Text.isBlank c = true := by simp [Text.isBlank]
  have hnothing : ∀ c ∈ ([] : List Char), Text.isBlank c = true := List.forall_mem_nil _
  have hone : Text.Padded lowSample.chars " 1.5 ".toList := ⟨[' '], [' '], rfl, hspace, hspace⟩
  have hbefore : Text.Padded (endText none) [] := ⟨[], [], rfl, hnothing, hnothing⟩
  have hbefore' : Text.Padded (endText (some lowSample)) "1.5".toList :=
    ⟨[], [], rfl, hnothing, hnothing⟩
  have hbehind : Text.Padded (endText (some lowSample)) " 1.5".toList :=
    ⟨[' '], [], rfl, hspace, hnothing⟩
  have hbehind' : Text.Padded (endText (some highSample)) "2".toList :=
    ⟨[], [], rfl, hnothing, hnothing⟩
  exact .cons (.exact hone) ⟨[], [' '], rfl, hnothing, hspace⟩
    (.cons (.between hbefore hbefore') ⟨[' '], [], rfl, hspace, hnothing⟩
      (.last (.between hbehind hbehind') ⟨[], [' '], rfl, hnothing, hspace⟩))

/-- With blanks here and there, the three intervals are read and hold what they say. -/
theorem ofText_of_spells_sampleForms :
    Spells sampleForms "[ 1.5 ] , (,1.5),( 1.5,2] ".toList ∧
      ∃ r, ofText "[ 1.5 ] , (,1.5),( 1.5,2] " = .ok r ∧
        r.intervals = sampleForms.map (·.interval) ∧
        (∀ v, r.contains v = true ↔ ∃ form ∈ sampleForms, form.Holds v) ∧
        ofText r.text = .ok r :=
  ⟨spells_sampleForms, ofText_of_spells spells_sampleForms⟩

end Range

end Stitch
