/-
Cutting a text at a separator.

* `cut` and `cutLast` split at the first and at the last separator;
* `parts` gives all the pieces between separators, one more than there are
  separators.

`parts_ne_nil` says that there is always a piece, and `cut_eq_some` that a cut
loses nothing and leaves no separator in front.
-/

namespace Stitch.Text

/-- The text before the first separator and the text after it. -/
def cut (sep : Char) : List Char → Option (List Char × List Char)
  | [] => none
  | c :: cs => if c = sep then some ([], cs) else (cut sep cs).map fun p => (c :: p.1, p.2)

/-- The text before the last separator and the text after it. -/
def cutLast (sep : Char) : List Char → Option (List Char × List Char)
  | [] => none
  | c :: cs =>
    match cutLast sep cs with
    | some p => some (c :: p.1, p.2)
    | none => if c = sep then some ([], cs) else none

theorem cut_eq_some {sep : Char} {cs before after : List Char} :
    cut sep cs = some (before, after) ↔ cs = before ++ sep :: after ∧ sep ∉ before := by
  induction cs generalizing before with
  | nil => simp [cut]
  | cons c cs ih =>
    by_cases h : c = sep
    · subst h
      cases before with
      | nil => simp [cut, eq_comm]
      | cons b bs => simp +contextual [cut]
    · cases before with
      | nil => simp [cut, h]
      | cons b bs =>
        simp only [cut, h, if_false, Option.map_eq_some_iff, Prod.mk.injEq, List.cons.injEq,
          List.cons_append, List.mem_cons]
        constructor
        · rintro ⟨⟨x, y⟩, hxy, ⟨rfl, rfl⟩, rfl⟩
          obtain ⟨rfl, hn⟩ := ih.1 hxy
          refine ⟨⟨rfl, rfl⟩, ?_⟩
          rintro (e | hm)
          · exact h e.symm
          · exact hn hm
        · rintro ⟨⟨rfl, rfl⟩, hn⟩
          exact ⟨(bs, after), ih.2 ⟨rfl, fun hm => hn (.inr hm)⟩, ⟨rfl, rfl⟩, rfl⟩

/-- The pieces of a text between its separators. -/
def parts (sep : Char) (cs : List Char) : List (List Char) :=
  cs.foldr
    (fun c pieces =>
      if c = sep then [] :: pieces
      else
        match pieces with
        | piece :: rest => (c :: piece) :: rest
        | [] => [[c]])
    [[]]

@[simp] theorem parts_nil (sep : Char) : parts sep [] = [[]] := rfl

theorem parts_cons_self (sep : Char) (cs : List Char) :
    parts sep (sep :: cs) = [] :: parts sep cs := by
  simp [parts]

theorem parts_ne_nil (sep : Char) (cs : List Char) : parts sep cs ≠ [] := by
  cases cs with
  | nil => simp
  | cons c cs =>
    simp only [parts, List.foldr_cons]
    split
    · simp
    · split <;> simp

end Stitch.Text
