/-
The components of a text, part by part.

A separator ends a token whatever stands around it, so the components of a text are those of its
parts between separators (`componentsOf_append_separator`), and a part that is all digits, or has
no digit in it, is one of them (`componentsOf_token`).  Of the components of a text a version keeps
all but the trailing ones that say nothing (`components_ofText`); what stays of two lists in a row
depends on whether anything stays of the second one (`withoutTrailing_append`).
-/
import Stitch.Proofs.Text.Blank
import Stitch.Version.Basic

namespace Stitch.Version

open Component

variable {cs ds : List Char} {as bs : List Component}

/-! ### Tokens -/

theorem isSeparator_iff {c : Char} : isSeparator c = true ↔ c = '.' ∨ c = '-' ∨ c = '_' := by
  rw [isSeparator, Bool.or_eq_true, Bool.or_eq_true, decide_eq_true_eq, decide_eq_true_eq,
    decide_eq_true_eq, or_assoc]

theorem isSeparator_toLower (c : Char) : isSeparator c.toLower = isSeparator c :=
  Text.toLower_congr (fun d hd => by
    by_contra hsep
    rcases isSeparator_iff.1 (Bool.not_eq_false _ ▸ hsep) with rfl | rfl | rfl <;>
      exact absurd hd (by decide)) c

theorem isBlank_of_isSeparator {c : Char} (h : isSeparator c = true) : Text.isBlank c = false := by
  rcases isSeparator_iff.1 h with rfl | rfl | rfl <;> decide

theorem isSeparator_of_isDigit {c : Char} (h : c.isDigit = true) : isSeparator c = false := by
  by_contra hsep
  rcases isSeparator_iff.1 (Bool.not_eq_false _ ▸ hsep) with rfl | rfl | rfl <;>
    exact absurd h (by decide)

/-- Without tokens there are only separators, and at these no token goes on. -/
theorem goesOn_of_tokens_eq_nil (h : tokens cs = []) (c : Char) : goesOn c cs = false := by
  cases cs with
  | nil => rfl
  | cons d cs =>
    rw [tokens] at h
    split at h
    next hsep => rw [goesOn, hsep, Bool.not_true, Bool.false_and]
    next =>
      split at h
      · split at h <;> cases h
      · cases h

/-- A separator ends the token before it. -/
theorem tokens_append_separator {c : Char} (hc : isSeparator c = true) (cs ds : List Char) :
    tokens (cs ++ c :: ds) = tokens cs ++ tokens ds := by
  induction cs with
  | nil => simp [tokens, hc]
  | cons d cs ih =>
    rw [List.cons_append, tokens, tokens]
    split
    · exact ih
    · rw [ih]
      have hgoesOn : goesOn d (cs ++ c :: ds) = goesOn d cs := by
        cases cs with
        | nil => rw [List.nil_append, goesOn, goesOn, hc, Bool.not_true, Bool.false_and]
        | cons e cs => rfl
      cases htokens : tokens cs with
      | nil =>
        rw [hgoesOn, goesOn_of_tokens_eq_nil htokens]
        cases tokens ds <;> rfl
      | cons t ts =>
        rw [List.cons_append, hgoesOn]
        dsimp only
        split <;> rfl

/-- Digits alone are one token, and so is what has neither digits nor separators in it. -/
theorem tokens_eq_singleton (hne : cs ≠ []) (hsep : ∀ c ∈ cs, isSeparator c = false)
    {digits : Bool} (hdigits : ∀ c ∈ cs, c.isDigit = digits) : tokens cs = [cs] := by
  induction cs with
  | nil => exact absurd rfl hne
  | cons c cs ih =>
    rw [tokens, if_neg (by simp [hsep c List.mem_cons_self])]
    cases cs with
    | nil => rfl
    | cons d cs =>
      have hrest := ih (List.cons_ne_nil d cs) (fun e he => hsep e (List.mem_cons_of_mem _ he))
        fun e he => hdigits e (List.mem_cons_of_mem _ he)
      have hgoesOn : goesOn c (d :: cs) = true := by
        rw [goesOn, hsep d (by simp), hdigits c (by simp), hdigits d (by simp)]
        simp
      rw [hrest]
      dsimp only
      rw [if_pos hgoesOn]

/-! ### Components -/

/-- The components of a text, with those at its end that say nothing. -/
def componentsOf (cs : List Char) : List Component :=
  (tokens (cs.map Char.toLower)).map Component.ofToken

theorem components_ofText (text : String) :
    (ofText text).components = withoutTrailing (componentsOf (Text.trim text.toList)) :=
  rfl

theorem componentsOf_append_separator {c : Char} (hc : isSeparator c = true) (cs ds : List Char) :
    componentsOf (cs ++ c :: ds) = componentsOf cs ++ componentsOf ds := by
  rw [componentsOf, List.map_append, List.map_cons,
    tokens_append_separator (by rw [isSeparator_toLower, hc]), List.map_append, componentsOf,
    componentsOf]

theorem componentsOf_token (hne : cs ≠ []) (hsep : ∀ c ∈ cs, isSeparator c = false)
    {digits : Bool} (hdigits : ∀ c ∈ cs, c.isDigit = digits) :
    componentsOf cs = [ofToken (cs.map Char.toLower)] := by
  have hsep' : ∀ c ∈ cs.map Char.toLower, isSeparator c = false := by
    simpa [isSeparator_toLower] using hsep
  have hdigits' : ∀ c ∈ cs.map Char.toLower, c.isDigit = digits := by
    simpa [Text.isDigit_toLower] using hdigits
  rw [componentsOf, tokens_eq_singleton (by simpa using hne) hsep' hdigits', List.map_singleton]

/-! ### Trailing components -/

theorem withoutTrailing_eq_nil_iff : withoutTrailing as = [] ↔ ∀ a ∈ as, a.isTrailing = true :=
  List.rdropWhile_eq_nil_iff

theorem withoutTrailing_withoutTrailing (as : List Component) :
    withoutTrailing (withoutTrailing as) = withoutTrailing as :=
  List.rdropWhile_idempotent _ _

theorem withoutTrailing_append (as bs : List Component) : withoutTrailing (as ++ bs) =
    if withoutTrailing bs = [] then withoutTrailing as else as ++ withoutTrailing bs := by
  rw [withoutTrailing, List.reverse_append, List.dropWhile_append]
  by_cases h : withoutTrailing bs = []
  · rw [if_pos h, if_pos (by simpa [withoutTrailing] using h), withoutTrailing]
  · rw [if_neg h, if_neg (by simpa [withoutTrailing] using h), List.reverse_append,
      List.reverse_reverse, withoutTrailing]

theorem withoutTrailing_cons (a : Component) (as : List Component) : withoutTrailing (a :: as) =
    if withoutTrailing as = [] then withoutTrailing [a] else a :: withoutTrailing as :=
  withoutTrailing_append [a] as

end Stitch.Version
