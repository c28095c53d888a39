/-
Patterns of characters and runs of characters.

A pattern is a row of pieces, each of them a character or a run of characters of a class.
A text is split along it (`Splits`) if the pieces stand for its parts one after the other, up
to its end.  Classes may overlap with what comes after them, so that in general there are
several ways to split a text.

`captures?` goes about it as matchers do: a run takes as many characters as it can, and gives
them back one by one until the rest of the pattern fits.  What it finds is a split
(`splits_of_captures?`), and it finds one if there is any (`isSome_captures?`).  So where a
text can be split in one way only, that is what it finds (`captures?_eq_some_iff`).
-/

namespace Stitch.Text

/-- A piece of a pattern. -/
inductive Piece where
  | char (c : Char)
  /-- Characters of a class, at least one if it has to be so. -/
  | run (isNonempty : Bool) (allowed : Char → Bool)

/-- The class of all characters but a few. -/
def noneOf (excluded : List Char) (c : Char) : Bool := !excluded.contains c

/-- Takes a run of a class off a text, the longest one after which the rest can go on. -/
def takeRun {β : Type} (allowed : Char → Bool) (next : List Char → Option β) :
    List Char → Option (List Char × β)
  | [] => (next []).map fun b => ([], b)
  | c :: cs =>
    let longer := if allowed c then takeRun allowed next cs else none
    match longer with
    | some (part, b) => some (c :: part, b)
    | none => (next (c :: cs)).map fun b => ([], b)

/-- The parts of a text that the runs of a pattern take. -/
def captures? : List Piece → List Char → Option (List (List Char))
  | [], [] => some []
  | .char c :: pieces, d :: ds => if d = c then captures? pieces ds else none
  | .run false allowed :: pieces, cs =>
    (takeRun allowed (captures? pieces) cs).map fun p => p.1 :: p.2
  | .run true allowed :: pieces, d :: ds =>
    if allowed d then (takeRun allowed (captures? pieces) ds).map fun p => (d :: p.1) :: p.2
    else none
  | _, _ => none

/-- The parts are those of a text along a pattern. -/
inductive Splits : List Piece → List Char → List (List Char) → Prop
  | nil : Splits [] [] []
  | char {c : Char} {pieces : List Piece} {cs : List Char} {parts : List (List Char)}
    (h : Splits pieces cs parts) : Splits (.char c :: pieces) (c :: cs) parts
  | run {isNonempty : Bool} {allowed : Char → Bool} {pieces : List Piece} {part cs : List Char}
    {parts : List (List Char)} (hallowed : ∀ c ∈ part, allowed c)
    (hne : isNonempty → part ≠ []) (h : Splits pieces cs parts) :
    Splits (.run isNonempty allowed :: pieces) (part ++ cs) (part :: parts)

variable {β : Type} {allowed : Char → Bool} {next : List Char → Option β} {pieces : List Piece}
  {part cs : List Char} {parts : List (List Char)}

theorem forall_noneOf_iff {excluded : List Char} :
    (∀ c ∈ part, noneOf excluded c) ↔ ∀ c ∈ excluded, c ∉ part := by
  simp only [noneOf, Bool.not_eq_true', List.contains_eq_mem, decide_eq_false_iff_not]
  exact ⟨fun h c hc hpart => h c hpart hc, fun h c hc hexcluded => h c hexcluded hc⟩

/-! ### Splits, piece by piece -/

theorem splits_nil_iff : Splits [] cs parts ↔ cs = [] ∧ parts = [] := by
  constructor
  · rintro ⟨⟩
    exact ⟨rfl, rfl⟩
  · rintro ⟨rfl, rfl⟩
    exact .nil

theorem splits_char_iff {c : Char} :
    Splits (.char c :: pieces) cs parts ↔ ∃ ds, cs = c :: ds ∧ Splits pieces ds parts := by
  constructor
  · rintro (_ | h)
    exact ⟨_, rfl, h⟩
  · rintro ⟨ds, rfl, h⟩
    exact .char h

/-- Characters that are written out have to be there. -/
theorem splits_append_iff {word : List Char} :
    Splits (word.map Piece.char ++ pieces) cs parts ↔
      ∃ ds, cs = word ++ ds ∧ Splits pieces ds parts := by
  induction word generalizing cs with
  | nil => simp
  | cons c word ih =>
    rw [List.map_cons, List.cons_append, splits_char_iff]
    simp only [ih]
    constructor
    · rintro ⟨_, rfl, ds, rfl, h⟩
      exact ⟨ds, rfl, h⟩
    · rintro ⟨ds, rfl, h⟩
      exact ⟨_, rfl, ds, rfl, h⟩

theorem splits_run_iff {isNonempty : Bool} :
    Splits (.run isNonempty allowed :: pieces) cs parts ↔
      ∃ part ds rest, cs = part ++ ds ∧ parts = part :: rest ∧ (∀ c ∈ part, allowed c) ∧
        (isNonempty → part ≠ []) ∧ Splits pieces ds rest := by
  constructor
  · rintro (_ | _ | ⟨hallowed, hne, h⟩)
    exact ⟨_, _, _, rfl, rfl, hallowed, hne, h⟩
  · rintro ⟨part, ds, rest, rfl, rfl, hallowed, hne, h⟩
    exact .run hallowed hne h

/-! ### What a matcher finds -/

theorem exists_of_takeRun {b : β} (h : takeRun allowed next cs = some (part, b)) :
    ∃ rest, cs = part ++ rest ∧ (∀ c ∈ part, allowed c) ∧ next rest = some b := by
  induction cs generalizing part with
  | nil =>
    obtain ⟨b', hb', heq⟩ := Option.map_eq_some_iff.1 h
    cases heq
    exact ⟨[], rfl, nofun, hb'⟩
  | cons c cs ih =>
    simp only [takeRun] at h
    split at h
    next longer b' hlonger =>
      cases h
      split at hlonger
      next hc =>
        obtain ⟨rest, rfl, hallowed, hnext⟩ := ih hlonger
        exact ⟨rest, rfl, List.forall_mem_cons.2 ⟨hc, hallowed⟩, hnext⟩
      next => cases hlonger
    next =>
      obtain ⟨b', hb', heq⟩ := Option.map_eq_some_iff.1 h
      cases heq
      exact ⟨c :: cs, rfl, nofun, hb'⟩

theorem isSome_takeRun (hallowed : ∀ c ∈ part, allowed c) (hnext : (next cs).isSome) :
    (takeRun allowed next (part ++ cs)).isSome := by
  induction part with
  | nil =>
    cases cs with
    | nil => simpa [takeRun] using hnext
    | cons c cs =>
      simp only [List.nil_append, takeRun]
      split
      · rfl
      · simpa using hnext
  | cons c part ih =>
    obtain ⟨hc, hpart⟩ := List.forall_mem_cons.1 hallowed
    obtain ⟨longer, hlonger⟩ := Option.isSome_iff_exists.1 (ih hpart)
    simp only [List.cons_append, takeRun, hc, if_true, hlonger, Option.isSome_some]

theorem splits_of_captures? (h : captures? pieces cs = some parts) : Splits pieces cs parts := by
  induction pieces generalizing cs parts with
  | nil =>
    cases cs with
    | nil =>
      cases h
      exact .nil
    | cons c cs => cases h
  | cons piece pieces ih =>
    match piece, cs with
    | .char _, [] => cases h
    | .char c, d :: ds =>
      rw [captures?] at h
      split at h
      next hd => exact hd ▸ .char (ih h)
      next => cases h
    | .run false allowed, cs =>
      rw [captures?] at h
      obtain ⟨⟨part, rest⟩, htake, rfl⟩ := Option.map_eq_some_iff.1 h
      obtain ⟨ds, rfl, hallowed, hrest⟩ := exists_of_takeRun htake
      exact .run hallowed nofun (ih hrest)
    | .run true _, [] => cases h
    | .run true allowed, d :: ds =>
      rw [captures?] at h
      split at h
      next hd =>
        obtain ⟨⟨part, rest⟩, htake, rfl⟩ := Option.map_eq_some_iff.1 h
        obtain ⟨es, rfl, hallowed, hrest⟩ := exists_of_takeRun htake
        have hsplits : Splits (.run true allowed :: pieces) ((d :: part) ++ es)
            ((d :: part) :: rest) :=
          .run (List.forall_mem_cons.2 ⟨hd, hallowed⟩) (fun _ => List.cons_ne_nil d part)
            (ih hrest)
        exact hsplits
      next => cases h

/-- Backtracking overlooks nothing. -/
theorem isSome_captures? (h : Splits pieces cs parts) : (captures? pieces cs).isSome := by
  induction h with
  | nil => rfl
  | char _ ih => simpa [captures?] using ih
  | @run isNonempty allowed pieces part cs parts hallowed hne _ ih =>
    cases isNonempty with
    | false => simpa [captures?] using isSome_takeRun hallowed ih
    | true =>
      cases part with
      | nil => exact absurd rfl (hne rfl)
      | cons c part =>
        obtain ⟨hc, hpart⟩ := List.forall_mem_cons.1 hallowed
        simpa [captures?, hc] using isSome_takeRun hpart ih

theorem captures?_eq_some_iff
    (hunique : ∀ {parts parts'},
      Splits pieces cs parts → Splits pieces cs parts' → parts = parts') :
    captures? pieces cs = some parts ↔ Splits pieces cs parts := by
  refine ⟨splits_of_captures?, fun h => ?_⟩
  obtain ⟨found, hfound⟩ := Option.isSome_iff_exists.1 (isSome_captures? h)
  rw [hfound, hunique (splits_of_captures? hfound) h]

end Stitch.Text
