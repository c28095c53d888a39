/-
Percent codes of several layers.

Encoding writes each character that is not kept as codes of its bytes (`Round`).  In a text
that is encoded character by character, each of them has been through as many rounds as it
likes (`Encodes`), so codes of one layer may stand beside codes of three.

Decoding once takes one layer off every character that has one, and leaves the others as they
are (`Encodes.decode`): a code is used up by itself, so no layer runs into its neighbour, and
the bytes of one character come out together.  Decoding as often as there are layers gives the
text back, if it has no percent sign of its own (`decodeTimes_eq_of_encodes`).
-/
import Mathlib.Logic.Function.Iterate
import Stitch.Proofs.Text.Utf8
import Stitch.Proofs.Text.Blank
import Stitch.Text.Percent

namespace Stitch.Text

theorem utf8EncodeChar_of_lt {c : Char} (h : c.toNat < 128) :
    String.utf8EncodeChar c = [UInt8.ofNat c.toNat] := by
  have hone : c.val.toNat ≤ 127 := Nat.le_of_lt_succ h
  exact if_pos hone

namespace Percent

/-! ### Encoded texts -/

/-- The characters that need no code: the ASCII letters and digits, and `.`, `-`, `_`, `$`. -/
def isKept (c : Char) : Bool := c.isAlphanum || c = '.' || c = '-' || c = '_' || c = '$'

/-- Bytes as codes, with digits of either case. -/
inductive Codes : List UInt8 → List Char → Prop
  | nil : Codes [] []
  | cons {b : UInt8} {high low : Char} {bs : List UInt8} {cs : List Char}
      (hhigh : Hex.digit? high = some (b.toNat / 16)) (hlow : Hex.digit? low = some (b.toNat % 16))
      (h : Codes bs cs) : Codes (b :: bs) ('%' :: high :: low :: cs)

/-- A text is encoded once. -/
inductive Round : List Char → List Char → Prop
  | nil : Round [] []
  | keep {c : Char} {cs ds : List Char} (hc : isKept c = true) (h : Round cs ds) :
      Round (c :: cs) (c :: ds)
  | code {c : Char} {cs codes ds : List Char} (hc : isKept c = false)
      (hcodes : Codes (String.utf8EncodeChar c) codes) (h : Round cs ds) :
      Round (c :: cs) (codes ++ ds)

/-- A text is encoded a number of times. -/
def Rounds : Nat → List Char → List Char → Prop
  | 0, cs, ds => ds = cs
  | n + 1, cs, ds => ∃ es, Rounds n cs es ∧ Round es ds

/-- Each character of a text is encoded by itself, at least and at most so many times. -/
inductive Encodes (least most : Nat) : List Char → List Char → Prop
  | nil : Encodes least most [] []
  | cons {c : Char} {cs piece ds : List Char} {n : Nat} (hn : least ≤ n ∧ n ≤ most)
      (hpiece : Rounds n [c] piece) (h : Encodes least most cs ds) :
      Encodes least most (c :: cs) (piece ++ ds)

variable {c high low : Char} {cs ds es : List Char} {b : UInt8} {bs rest : List UInt8}
  {n k least most : Nat}

/-! ### Their characters -/

/-- The characters of encoded texts. -/
def isWritten (c : Char) : Bool := isKept c || c = '%'

theorem isKept_iff : isKept c = true ↔
    (65 ≤ c.toNat ∧ c.toNat ≤ 90 ∨ 97 ≤ c.toNat ∧ c.toNat ≤ 122) ∨
      (48 ≤ c.toNat ∧ c.toNat ≤ 57) ∨
        c.toNat = 46 ∨ c.toNat = 45 ∨ c.toNat = 95 ∨ c.toNat = 36 := by
  have heq {d : Char} : c = d ↔ c.toNat = d.toNat := Char.toNat_inj.symm
  simp only [isKept, Char.isAlphanum, Bool.or_eq_true, decide_eq_true_eq, isAlpha_iff, isDigit_iff,
    or_assoc, heq]
  rfl

theorem toNat_lt_of_isKept (h : isKept c = true) : c.toNat < 128 := by
  rw [isKept_iff] at h
  omega

theorem isKept_of_digit? (h : Hex.digit? c = some n) : isKept c = true := by
  have hval : c.val.toNat = c.toNat := rfl
  simp only [Hex.digit?, Char.le_def, UInt32.le_iff_toNat_le, hval] at h
  rw [isKept_iff]
  grind

theorem isBlank_of_isWritten (h : isWritten c = true) : isBlank c = false := by
  rw [isWritten, Bool.or_eq_true, isKept_iff, decide_eq_true_eq, ← Char.toNat_inj] at h
  have hmark : '%'.toNat = 37 := rfl
  simp only [isBlank, Bool.or_eq_false_iff, Bool.and_eq_false_iff, decide_eq_false_iff_not,
    beq_eq_false_iff_ne]
  omega

theorem isWritten_of_isKept (h : isKept c = true) : isWritten c = true := by
  rw [isWritten, h, Bool.true_or]

theorem Codes.isWritten (h : Codes bs cs) : ∀ c ∈ cs, isWritten c = true := by
  induction h with
  | nil => exact fun _ hc => absurd hc List.not_mem_nil
  | cons hhigh hlow _ ih =>
    rw [List.forall_mem_cons, List.forall_mem_cons, List.forall_mem_cons]
    exact ⟨rfl, isWritten_of_isKept (isKept_of_digit? hhigh),
      isWritten_of_isKept (isKept_of_digit? hlow), ih⟩

theorem Round.isWritten (h : Round cs ds) : ∀ c ∈ ds, isWritten c = true := by
  induction h with
  | nil => exact fun _ hc => absurd hc List.not_mem_nil
  | keep hc _ ih => exact List.forall_mem_cons.2 ⟨isWritten_of_isKept hc, ih⟩
  | code _ hcodes _ ih => exact List.forall_mem_append.2 ⟨hcodes.isWritten, ih⟩

/-- What has been encoded at all has kept characters and percent signs only. -/
theorem Encodes.isWritten (h : Encodes 1 most cs ds) : ∀ c ∈ ds, isWritten c = true := by
  induction h with
  | nil => exact fun _ hc => absurd hc List.not_mem_nil
  | @cons _ _ _ _ n hn hpiece _ ih =>
    obtain ⟨m, rfl⟩ := Nat.exists_eq_add_of_le' hn.1
    obtain ⟨es, -, hround⟩ := hpiece
    exact List.forall_mem_append.2 ⟨hround.isWritten, ih⟩

theorem Codes.mark_mem (h : Codes bs cs) (hbs : bs ≠ []) : '%' ∈ cs := by
  cases h with
  | nil => exact absurd rfl hbs
  | cons => exact List.mem_cons_self

theorem Round.ne_nil (h : Round cs ds) (hcs : cs ≠ []) : ds ≠ [] := by
  cases h with
  | nil => exact absurd rfl hcs
  | keep => exact List.cons_ne_nil _ _
  | code _ hcodes _ =>
    have hmark := hcodes.mark_mem String.utf8EncodeChar_ne_nil
    exact List.append_ne_nil_of_left_ne_nil (List.ne_nil_of_mem hmark) _

theorem Rounds.ne_nil (h : Rounds n cs ds) (hcs : cs ≠ []) : ds ≠ [] := by
  induction n generalizing ds with
  | zero =>
    obtain rfl : ds = cs := h
    exact hcs
  | succ n ih =>
    obtain ⟨es, hrounds, hround⟩ := h
    exact hround.ne_nil (ih hrounds)

theorem Encodes.ne_nil (h : Encodes least most cs ds) (hcs : cs ≠ []) : ds ≠ [] := by
  cases h with
  | nil => exact absurd rfl hcs
  | cons _ hpiece _ =>
    exact List.append_ne_nil_of_left_ne_nil (hpiece.ne_nil (List.cons_ne_nil _ _)) _

/-! ### What no percent sign is left in -/

theorem Round.eq_of_not_mem (h : Round cs ds) (hds : '%' ∉ ds) : ds = cs := by
  induction h with
  | nil => rfl
  | keep _ _ ih => rw [ih (List.not_mem_of_not_mem_cons hds)]
  | code _ hcodes _ _ =>
    exact absurd (List.mem_append_left _ (hcodes.mark_mem String.utf8EncodeChar_ne_nil)) hds

theorem Rounds.eq_of_not_mem (h : Rounds n cs ds) (hds : '%' ∉ ds) : ds = cs := by
  induction n generalizing ds with
  | zero => exact h
  | succ n ih =>
    obtain ⟨es, hrounds, hround⟩ := h
    obtain rfl := hround.eq_of_not_mem hds
    exact ih hrounds hds

theorem Encodes.eq_of_not_mem (h : Encodes least most cs ds) (hds : '%' ∉ ds) : ds = cs := by
  induction h with
  | nil => rfl
  | cons _ hpiece _ ih =>
    rw [List.mem_append, not_or] at hds
    rw [hpiece.eq_of_not_mem hds.1, ih hds.2, List.singleton_append]

/-! ### Decoding bytes -/

theorem decodeBytes_cons (h : b ≠ mark) : decodeBytes (b :: rest) = b :: decodeBytes rest := by
  match rest with
  -- No code is looked for where there is no room for one.
  | [] => rfl
  | [_] => rfl
  | _ :: _ :: _ => rw [decodeBytes, if_neg h]

theorem decodeBytes_append (h : mark ∉ bs) :
    decodeBytes (bs ++ rest) = bs ++ decodeBytes rest := by
  induction bs with
  | nil => rfl
  | cons b bs ih =>
    rw [List.mem_cons, not_or] at h
    rw [List.cons_append, decodeBytes_cons (Ne.symm h.1), ih h.2, List.cons_append]

/-- No byte of a character looks like the beginning of a code, unless it is a percent sign. -/
theorem mark_not_mem_utf8EncodeChar (h : c ≠ '%') : mark ∉ String.utf8EncodeChar c := by
  have hmark {n : Nat} (hn : n < 256) : mark = UInt8.ofNat n ↔ 37 = n := by
    rw [← UInt8.toNat_inj, UInt8.toNat_ofNat_of_lt' hn]
    rfl
  have hc : c.val.toNat ≠ 37 := fun hn =>
    h (by rw [← Char.ofNat_toNat c, show c.toNat = 37 from hn])
  rw [String.utf8EncodeChar]
  split_ifs <;> simp only [List.mem_cons, List.not_mem_nil, or_false] <;>
    simp (disch := omega) only [hmark] <;> omega

theorem ofNat_toNat_ofNat (h : c.toNat < 128) : Char.ofNat (UInt8.ofNat c.toNat).toNat = c := by
  rw [UInt8.toNat_ofNat_of_lt' (Nat.lt_trans h (by decide)), Char.ofNat_toNat]

theorem byte?_of_digits (hhigh : Hex.digit? high = some (b.toNat / 16))
    (hlow : Hex.digit? low = some (b.toNat % 16)) :
    byte? (UInt8.ofNat high.toNat) (UInt8.ofNat low.toNat) = some b := by
  have hplus : high ≠ '+' := by
    rintro rfl
    exact absurd hhigh (by rw [show Hex.digit? '+' = none from rfl]; nofun)
  have hvalue : 16 * (b.toNat / 16) + b.toNat % 16 = b.toNat := Nat.div_add_mod _ _
  simp only [byte?, ofNat_toNat_ofNat (toNat_lt_of_isKept (isKept_of_digit? hhigh)),
    ofNat_toNat_ofNat (toNat_lt_of_isKept (isKept_of_digit? hlow)), hhigh, hlow, hplus, if_false,
    Option.bind_eq_bind, Option.bind_some, hvalue, UInt8.ofNat_toNat, Option.pure_def]

/-- The bytes of codes are those that the codes stand for. -/
theorem Codes.decodeBytes (h : Codes bs cs) :
    decodeBytes (cs.flatMap String.utf8EncodeChar ++ rest) = bs ++ decodeBytes rest := by
  induction h with
  | nil => rfl
  | @cons b high low bs cs hhigh hlow _ ih =>
    have hpercent : String.utf8EncodeChar '%' = [mark] := rfl
    simp only [List.flatMap_cons, hpercent,
      utf8EncodeChar_of_lt (toNat_lt_of_isKept (isKept_of_digit? hhigh)),
      utf8EncodeChar_of_lt (toNat_lt_of_isKept (isKept_of_digit? hlow)), List.cons_append,
      List.nil_append]
    rw [Percent.decodeBytes, if_pos rfl, byte?_of_digits hhigh hlow]
    exact congrArg (b :: ·) ih

/-- Decoding takes off what one round has put on. -/
theorem Round.decodeBytes (h : Round cs ds) :
    decodeBytes (ds.flatMap String.utf8EncodeChar ++ rest) =
      cs.flatMap String.utf8EncodeChar ++ decodeBytes rest := by
  induction h with
  | nil => rfl
  | keep hc _ ih =>
    have hmark := mark_not_mem_utf8EncodeChar (ne_of_apply_ne isKept (by rw [hc]; decide))
    rw [List.flatMap_cons, List.append_assoc, decodeBytes_append hmark, ih, List.flatMap_cons,
      List.append_assoc]
  | code _ hcodes _ ih =>
    rw [List.flatMap_append, List.append_assoc, hcodes.decodeBytes, ih, List.flatMap_cons,
      List.append_assoc]

/-! ### Decoding texts -/

theorem Encodes.exists_decodeBytes (h : Encodes 0 (k + 1) cs ds) (hcs : '%' ∉ cs) :
    ∃ es, Encodes 0 k cs es ∧
      decodeBytes (ds.flatMap String.utf8EncodeChar) = es.flatMap String.utf8EncodeChar := by
  induction h with
  | nil => exact ⟨[], .nil, rfl⟩
  | @cons c cs piece ds n hn hpiece _ ih =>
    rw [List.mem_cons, not_or] at hcs
    obtain ⟨es, hes, hdecoded⟩ := ih hcs.2
    rw [List.flatMap_append]
    cases n with
    | zero =>
      -- There is no layer left on the character, and no percent sign either.
      obtain rfl : piece = [c] := hpiece
      refine ⟨[c] ++ es, .cons ⟨le_rfl, k.zero_le⟩ (rfl : Rounds 0 [c] [c]) hes, ?_⟩
      rw [List.flatMap_append, List.flatMap_singleton,
        decodeBytes_append (mark_not_mem_utf8EncodeChar (Ne.symm hcs.1)), hdecoded]
    | succ n =>
      obtain ⟨inner, hrounds, hround⟩ := hpiece
      refine ⟨inner ++ es, .cons ⟨n.zero_le, Nat.le_of_succ_le_succ hn.2⟩ hrounds hes, ?_⟩
      rw [hround.decodeBytes, hdecoded, List.flatMap_append]

/-- Decoding once takes one layer off every character that has one. -/
theorem Encodes.decode (h : Encodes 0 (k + 1) cs ds) (hcs : '%' ∉ cs) :
    ∃ es, Encodes 0 k cs es ∧ decode (.ofList ds) = .ofList es := by
  obtain ⟨es, hes, hdecoded⟩ := h.exists_decodeBytes hcs
  refine ⟨es, hes, ?_⟩
  -- What is left are characters, so their bytes are text again.
  rw [Percent.decode, Utf8.bytes_ofList, hdecoded, ← Utf8.bytes_ofList, Utf8.lossy_bytes]

theorem Encodes.eq_of_zero (h : Encodes 0 0 cs ds) : ds = cs := by
  induction h with
  | nil => rfl
  | cons hn hpiece _ ih =>
    obtain rfl := Nat.le_zero.1 hn.2
    obtain rfl : _ = _ := hpiece
    rw [ih, List.singleton_append]

/-- Decoding takes off as many layers as there are, and stops where there is no code left. -/
theorem decodeTimes_eq_of_encodes (h : Encodes 0 k cs ds) (hcs : '%' ∉ cs) :
    decodeTimes k (.ofList ds) = .ofList cs := by
  induction k generalizing ds with
  | zero => rw [decodeTimes, h.eq_of_zero]
  | succ k ih =>
    rw [decodeTimes]
    split
    next =>
      obtain ⟨es, hes, hdecoded⟩ := h.decode hcs
      rw [hdecoded, ih hes]
    next hmark =>
      rw [String.toList_ofList, List.contains_iff_mem] at hmark
      rw [h.eq_of_not_mem hmark]

theorem Encodes.mono {least' most' : Nat} (h : Encodes least most cs ds) (hleast : least' ≤ least)
    (hmost : most ≤ most') : Encodes least' most' cs ds := by
  induction h with
  | nil => exact .nil
  | cons hn hpiece _ ih => exact .cons ⟨hleast.trans hn.1, hn.2.trans hmost⟩ hpiece ih

theorem Encodes.append {cs' ds' : List Char} (h : Encodes least most cs ds)
    (h' : Encodes least most cs' ds') : Encodes least most (cs ++ cs') (ds ++ ds') := by
  induction h with
  | nil => exact h'
  | cons hn hpiece _ ih =>
    rw [List.append_assoc]
    exact .cons hn hpiece ih

/-! ### Ways to encode -/

theorem encodes_self (h : ∀ c ∈ cs, isKept c = true) (hmost : 1 ≤ most) : Encodes 1 most cs cs := by
  induction cs with
  | nil => exact .nil
  | cons c cs ih =>
    rw [List.forall_mem_cons] at h
    exact .cons ⟨le_rfl, hmost⟩ ⟨[c], rfl, .keep h.1 .nil⟩ (ih h.2)

/-- Another layer on a text that has been encoded: a code for each percent sign. -/
def again (cs : List Char) : List Char :=
  cs.flatMap fun c => if c = '%' then ['%', '2', '5'] else [c]

theorem round_again (h : ∀ c ∈ cs, isWritten c = true) : Round cs (again cs) := by
  induction cs with
  | nil => exact .nil
  | cons c cs ih =>
    rw [List.forall_mem_cons] at h
    rw [again, List.flatMap_cons]
    by_cases hc : c = '%'
    · rw [if_pos hc, hc]
      exact .code (by decide) (.cons rfl rfl .nil) (ih h.2)
    · rw [if_neg hc]
      have hkept : isKept c = true := by simpa [isWritten, hc] using h.1
      exact .keep hkept (ih h.2)

theorem rounds_again {codes : List Char} (hc : isKept c = false)
    (hcodes : Codes (String.utf8EncodeChar c) codes) (n : Nat) :
    Rounds (n + 1) [c] (again^[n] codes) := by
  induction n with
  | zero =>
    have hround := Round.code hc hcodes .nil
    rw [List.append_nil] at hround
    exact ⟨[c], rfl, hround⟩
  | succ n ih =>
    have hwritten : ∀ c ∈ again^[n] codes, isWritten c = true := by
      obtain ⟨es, -, hround⟩ := ih
      exact hround.isWritten
    rw [Function.iterate_succ_apply']
    exact ⟨_, ih, round_again hwritten⟩

/-- A character that is not kept, with layers as many as are allowed. -/
theorem encodes_again {codes : List Char} (hc : isKept c = false)
    (hcodes : Codes (String.utf8EncodeChar c) codes) (hn : n < most) :
    Encodes 1 most [c] (again^[n] codes) := by
  have hpiece := Encodes.cons ⟨Nat.le_add_left 1 n, hn⟩ (rounds_again hc hcodes n) .nil
  rwa [List.append_nil] at hpiece

end Percent

end Stitch.Text
