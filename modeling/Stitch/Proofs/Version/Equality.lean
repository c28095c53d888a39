/-
When two versions are the same.

Versions are the same when neither comes before the other, and that is so exactly if they have the
same components (`compareComponents_eq_eq_iff`): where one of two lists has ended, the other one
may go on with the components that are dropped from the end of a version, and with no others
(`compareToEnd_eq_eq_iff`).  **`beq_isCongruence`** adds what follows from this: no comparison, no
range and no hash tells versions apart that are the same.
-/
import Stitch.Proofs.Version.Components
import Stitch.Proofs.Version.Order
import Stitch.Version.Range

namespace Stitch

namespace Component

/-- The qualifiers that have a place of their own, by their places. -/
def ranked : List String := ["alpha", "beta", "milestone", "rc", "snapshot", "", "sp"]

theorem ranked_rank {name : String} (h : rank name ≠ 7) : ranked[rank name]? = some name := by
  unfold rank at h ⊢
  split_ifs at h ⊢ <;> simp_all [ranked]

theorem compareNames_eq_eq_iff {a b : String} : compareNames a b = .eq ↔ a = b := by
  rw [compareNames]
  split
  next => exact Std.LawfulEqOrd.compare_eq_iff_eq
  next h =>
    rw [Nat.compare_eq_eq]
    constructor
    · intro heq
      have ha : rank a ≠ 7 := fun ha => h ⟨ha, heq ▸ ha⟩
      exact Option.some.inj (by rw [← ranked_rank ha, heq, ranked_rank (heq ▸ ha)])
    · rintro rfl
      rfl

theorem compare_eq_eq_iff {a b : Component} : a.compare b = .eq ↔ a = b := by
  cases a with
  | number m =>
    cases b with
    | number n => exact Nat.compare_eq_eq.trans (by rw [number.injEq])
    | qualifier name => simp [compare]
  | qualifier name =>
    cases b with
    | number n => simp [compare]
    | qualifier other => exact compareNames_eq_eq_iff.trans (by rw [qualifier.injEq])

/-- What counts as the end are the components that are dropped from the end. -/
theorem compareToEnd_eq_eq_iff {a : Component} : a.compareToEnd = .eq ↔ a.isTrailing = true := by
  cases a with
  | number n => exact Nat.compare_eq_eq.trans (by rw [isTrailing, beq_iff_eq])
  | qualifier name =>
    exact compareNames_eq_eq_iff.trans (by rw [isTrailing, String.isEmpty_iff])

end Component

namespace Version

open Component

variable {as bs : List Component}

theorem compareComponents_nil_eq_eq_iff :
    compareComponents as [] = .eq ↔ withoutTrailing as = [] := by
  rw [withoutTrailing_eq_nil_iff]
  induction as with
  | nil => simp [compareComponents]
  | cons a as ih =>
    rw [compareComponents, Ordering.then_eq_eq, compareToEnd_eq_eq_iff, ih, List.forall_mem_cons]

theorem withoutTrailing_of_cons {a : Component} (h : withoutTrailing (a :: as) = a :: as) :
    withoutTrailing as = as := by
  rw [withoutTrailing_cons] at h
  split at h
  next hnil =>
    have hprefix : withoutTrailing [a] <+: [a] := List.rdropWhile_prefix _ _
    have has : (a :: as).length ≤ 1 := h ▸ hprefix.length_le
    rw [hnil, List.eq_nil_of_length_eq_zero (Nat.le_zero.1 (Nat.succ_le_succ_iff.1 has))]
  next => exact (List.cons.inj h).2

/-- Lists from whose ends nothing is dropped are the same only if they are equal. -/
theorem compareComponents_eq_eq_iff (ha : withoutTrailing as = as) (hb : withoutTrailing bs = bs) :
    compareComponents as bs = .eq ↔ as = bs := by
  induction as generalizing bs with
  | nil =>
    rw [compareComponents_swap, Ordering.swap_eq_eq, compareComponents_nil_eq_eq_iff, hb, eq_comm]
  | cons a as ih =>
    cases bs with
    | nil => rw [compareComponents_nil_eq_eq_iff, ha]
    | cons b bs =>
      rw [compareComponents, Ordering.then_eq_eq, compare_eq_eq_iff,
        ih (withoutTrailing_of_cons ha) (withoutTrailing_of_cons hb), List.cons.injEq]

theorem withoutTrailing_components (text : String) :
    withoutTrailing (ofText text).components = (ofText text).components :=
  withoutTrailing_withoutTrailing _

/-- Versions are the same exactly if they have the same components. -/
theorem beq_ofText_iff {a b : String} :
    (ofText a == ofText b) = true ↔ (ofText a).components = (ofText b).components := by
  show ((ofText a).compare (ofText b) == .eq) = true ↔ _
  rw [beq_iff_eq, compare, compareComponents_eq_eq_iff (withoutTrailing_components a)
    (withoutTrailing_components b)]

theorem compare_congr {v w : Version} (h : v.components = w.components) (u : Version) :
    v.compare u = w.compare u ∧ u.compare v = u.compare w := by
  rw [compare, compare, compare, compare, h]
  exact ⟨rfl, rfl⟩

theorem contains_congr {v w : Version} (h : v.components = w.components) (r : Range) :
    r.contains v = r.contains w := by
  simp only [Range.contains, Interval.contains, Bound.admitsAbove, Bound.admitsBelow, atMost,
    before, (compare_congr h _).1, (compare_congr h _).2]

/-! ### Hashing -/

/-- What is written of a version, piece by piece, to be hashed. -/
inductive Piece where
  | length (n : Nat)
  | number (n : Nat)
  | qualifier (name : String)
  deriving DecidableEq

def pieceOf : Component → Piece
  | .number n => .number n
  | .qualifier name => .qualifier name

/-- Writes the number of components and then the components. -/
def hash {σ : Type} (write : σ → Piece → σ) (start : σ) (v : Version) : σ :=
  (v.components.map pieceOf).foldl write (write start (.length v.components.length))

theorem pieceOf_injective : Function.Injective pieceOf := by
  intro a b h
  cases a <;> cases b <;> simp_all [pieceOf]

/-- Versions have the same components exactly if no way of hashing tells them apart. -/
theorem components_eq_iff_hash_eq {v w : Version} : v.components = w.components ↔
    ∀ (σ : Type) (write : σ → Piece → σ) (start : σ), v.hash write start = w.hash write start := by
  constructor
  · intro h σ write start
    rw [hash, hash, h]
  · intro h
    -- Whoever keeps all that is written can read the components from it.
    have hkept : ∀ (ps qs : List Piece), ps.foldl (fun kept p => kept ++ [p]) qs = qs ++ ps := by
      intro ps
      induction ps with
      | nil => simp
      | cons p ps ih => simp [ih]
    have hlists := h (List Piece) (fun kept p => kept ++ [p]) []
    rw [hash, hash, hkept, hkept] at hlists
    have := List.append_inj_right hlists rfl
    exact (List.map_injective_iff.2 pieceOf_injective) this

/-! ### Parts that say nothing -/

/-- Zeros, or a release mark in any letter case. -/
def SaysNothing (cs : List Char) : Prop :=
  (cs ≠ [] ∧ ∀ c ∈ cs, c = '0') ∨
    cs.map Char.toLower ∈ ["ga".toList, "final".toList, "release".toList]

/-- Parts of a version, each with the separator before it. -/
def appended (parts : List (Char × List Char)) : List Char := parts.flatMap fun p => p.1 :: p.2

variable {cs : List Char} {parts : List (Char × List Char)}

theorem ofDigitChars_zeros (h : ∀ c ∈ cs, c = '0') : Nat.ofDigitChars 10 cs 0 = 0 := by
  induction cs with
  | nil => rfl
  | cons c cs ih =>
    rw [h c List.mem_cons_self, Nat.ofDigitChars_cons]
    exact ih fun d hd => h d (List.mem_cons_of_mem _ hd)

theorem forall_of_mem_map_toLower {P : Char → Bool} (hP : ∀ c, P c.toLower = P c)
    {words : List (List Char)} (hwords : (words.all fun w => w.all fun c => !P c) = true)
    (h : cs.map Char.toLower ∈ words) : ∀ c ∈ cs, P c = false := by
  intro c hc
  have hword := List.all_eq_true.1 (List.all_eq_true.1 hwords _ h) _ (List.mem_map_of_mem hc)
  rwa [hP, Bool.not_eq_true'] at hword

theorem SaysNothing.isBlank_eq_false (h : SaysNothing cs) : ∀ c ∈ cs, Text.isBlank c = false := by
  rcases h with ⟨-, hzeros⟩ | hword
  · intro c hc
    rw [hzeros c hc]
    decide
  · exact forall_of_mem_map_toLower Text.isBlank_toLower (by decide) hword

theorem SaysNothing.exists_component (h : SaysNothing cs) :
    ∃ a, a.isTrailing = true ∧ componentsOf cs = [a] := by
  rcases h with ⟨hne, hzeros⟩ | hword
  · have hsep : ∀ c ∈ cs, isSeparator c = false := fun c hc => by
      rw [hzeros c hc]
      decide
    have hdigits : ∀ c ∈ cs, c.isDigit = true := fun c hc => by
      rw [hzeros c hc]
      decide
    have hlower : cs.map Char.toLower = cs :=
      (List.map_congr_left fun c hc => by rw [hzeros c hc]; rfl).trans (List.map_id cs)
    refine ⟨.number 0, rfl, ?_⟩
    rw [componentsOf_token hne hsep hdigits, hlower, ofToken, if_pos (List.all_eq_true.2 hdigits),
      ofDigitChars_zeros hzeros, Nat.zero_min]
  · have hne : cs ≠ [] := by
      rintro rfl
      exact absurd hword (by decide)
    refine ⟨.qualifier "", rfl, ?_⟩
    rw [componentsOf_token hne
      (forall_of_mem_map_toLower isSeparator_toLower (by decide) hword)
      (forall_of_mem_map_toLower Text.isDigit_toLower (by decide) hword)]
    have hwords : ∀ w ∈ ["ga".toList, "final".toList, "release".toList],
        [ofToken w] = [.qualifier ""] := by decide
    exact hwords _ hword

theorem exists_componentsOf_append
    (h : ∀ p ∈ parts, isSeparator p.1 = true ∧ SaysNothing p.2) (cs : List Char) :
    ∃ as, (∀ a ∈ as, a.isTrailing = true) ∧
      componentsOf (cs ++ appended parts) = componentsOf cs ++ as := by
  induction parts generalizing cs with
  | nil => exact ⟨[], List.forall_mem_nil _, by simp [appended]⟩
  | cons p parts ih =>
    obtain ⟨⟨hsep, hnothing⟩, hparts⟩ := List.forall_mem_cons.1 h
    obtain ⟨a, ha, hp⟩ := hnothing.exists_component
    obtain ⟨as, has, hrest⟩ := ih hparts p.2
    refine ⟨a :: as, List.forall_mem_cons.2 ⟨ha, has⟩, ?_⟩
    rw [appended, List.flatMap_cons, List.cons_append, componentsOf_append_separator hsep,
      ← appended, hrest, hp, List.singleton_append]

theorem beq_ofText_append {text : String} (htext : Text.trimmed text = text)
    (h : ∀ p ∈ parts, isSeparator p.1 = true ∧ SaysNothing p.2) :
    (ofText (text ++ String.ofList (appended parts)) == ofText text) = true := by
  have htrim : Text.trim text.toList = text.toList := by
    rw [← htext, Text.trimmed, String.toList_ofList, Text.trim_trim]
  have hblank : ∀ c ∈ appended parts, Text.isBlank c = false := by
    intro c hc
    obtain ⟨p, hp, hc⟩ := List.mem_flatMap.1 hc
    obtain ⟨hsep, hnothing⟩ := h p hp
    rcases List.mem_cons.1 hc with rfl | hc
    · exact isBlank_of_isSeparator hsep
    · exact hnothing.isBlank_eq_false c hc
  obtain ⟨as, has, hcomponents⟩ := exists_componentsOf_append h text.toList
  rw [beq_ofText_iff, components_ofText, components_ofText, String.toList_append,
    String.toList_ofList, Text.trim_append_of_no_blank htrim hblank, hcomponents, htrim,
    withoutTrailing_append, if_pos (withoutTrailing_eq_nil_iff.2 has)]

/-- **Versions that are the same** have the same components, and only they do.  So this is an
equivalence, no way of hashing tells them apart, they compare alike with every version and lie in
the same ranges.  And a version is the same as what it becomes when zeros and release marks are
added at its end. -/
theorem beq_isCongruence :
    (∀ a b : String,
      ((ofText a == ofText b) = true ↔ (ofText a).components = (ofText b).components) ∧
      ((ofText a == ofText b) = true ↔ ∀ (σ : Type) (write : σ → Piece → σ) (start : σ),
        (ofText a).hash write start = (ofText b).hash write start) ∧
      ((ofText a == ofText b) = true →
        (∀ v : Version, (ofText a).compare v = (ofText b).compare v ∧
          v.compare (ofText a) = v.compare (ofText b)) ∧
        ∀ r : Range, r.contains (ofText a) = r.contains (ofText b))) ∧
    Equivalence (fun a b : String => (ofText a == ofText b) = true) ∧
    ∀ text : String, Text.trimmed text = text → ∀ parts : List (Char × List Char),
      (∀ p ∈ parts, isSeparator p.1 = true ∧ SaysNothing p.2) →
        (ofText (text ++ String.ofList (appended parts)) == ofText text) = true := by
  refine ⟨fun a b => ⟨beq_ofText_iff, ?_, fun h => ?_⟩, ⟨?_, ?_, ?_⟩, ?_⟩
  · rw [beq_ofText_iff, components_eq_iff_hash_eq]
  · have hcomponents := beq_ofText_iff.1 h
    exact ⟨compare_congr hcomponents, contains_congr hcomponents⟩
  · exact fun a => beq_ofText_iff.2 rfl
  · exact fun h => beq_ofText_iff.2 (beq_ofText_iff.1 h).symm
  · exact fun h h' => beq_ofText_iff.2 ((beq_ofText_iff.1 h).trans (beq_ofText_iff.1 h'))
  · exact fun text htext parts hparts => beq_ofText_append htext hparts

/-- A version and its general availability, spelled with zeros. -/
theorem beq_isCongruence_release :
    (ofText "1.5.00-GA_Final" == ofText "1.5") = true ∧
      (∀ v : Version, (ofText "1.5.00-GA_Final").compare v = (ofText "1.5").compare v ∧
        v.compare (ofText "1.5.00-GA_Final") = v.compare (ofText "1.5")) ∧
      ∀ r : Range, r.contains (ofText "1.5.00-GA_Final") = r.contains (ofText "1.5") := by
  have hzeros : SaysNothing ['0', '0'] := .inl ⟨List.cons_ne_nil _ _, by simp⟩
  have hga : SaysNothing ['G', 'A'] := .inr (by decide)
  have hfinal : SaysNothing ['F', 'i', 'n', 'a', 'l'] := .inr (by decide)
  have hparts : ∀ p ∈ [('.', ['0', '0']), ('-', ['G', 'A']), ('_', ['F', 'i', 'n', 'a', 'l'])],
      isSeparator p.1 = true ∧ SaysNothing p.2 :=
    List.forall_mem_cons.2 ⟨⟨rfl, hzeros⟩, List.forall_mem_cons.2 ⟨⟨rfl, hga⟩,
      List.forall_mem_singleton.2 ⟨rfl, hfinal⟩⟩⟩
  obtain ⟨hsame, -, happended⟩ := beq_isCongruence
  have h := happended "1.5" (by decide) _ hparts
  exact ⟨h, (hsame "1.5.00-GA_Final" "1.5").2.2 h⟩

end Version

end Stitch
