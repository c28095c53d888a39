/-
Indented documents are read back.

The reader is two machines in a row, a scanner of characters and a builder of
values.  A text leads from a state of both to a value being due or delivered:

* `Settles x b` says that the state `x` is as good as the builder's state `b`
  between tokens.  After a string, an array or an object it is that state; a
  number or a word is only complete when a comma or a line break comes, or the
  end of the text.
* `Leads x text b` says that a text leads from `x` to a state that settles as `b`.

The texts of scalars lead to the delivery of their value (`leads_scalar`), and
those of arrays and objects do if the texts of their parts do (`leads_block`).  By
induction on the value:

* **`parse?_pretty`**: a value without decimals is read back from its indented text.
-/
import Mathlib.Data.List.TakeWhile
import Stitch.Json.Parser
import Stitch.Json.Printer

namespace Stitch.Json

/-- A value whose numbers are integers. -/
inductive IsExact : Json → Prop where
  | null : IsExact .null
  | bool (value : Bool) : IsExact (.bool value)
  | int (value : Int) : IsExact (.int value)
  | string (value : String) : IsExact (.string value)
  | array {items : List Json} (h : ∀ v ∈ items, IsExact v) : IsExact (.array items)
  | object {members : List (String × Json)} (h : ∀ m ∈ members, IsExact m.2) :
    IsExact (.object members)

/-! ### Reading texts -/

/-- The state of the reader after a text. -/
def readFrom (x : Scanner × Builder) (text : List Char) : Option (Scanner × Builder) :=
  text.foldlM readChar x

variable {x y : Scanner × Builder} {b b' : Builder} {frames : List Frame} {v : Json}

@[simp] theorem readFrom_nil (x : Scanner × Builder) : readFrom x [] = some x := rfl

theorem readFrom_cons (x : Scanner × Builder) (c : Char) (text : List Char) :
    readFrom x (c :: text) = readChar x c >>= (readFrom · text) := rfl

theorem readFrom_append (x : Scanner × Builder) (text more : List Char) :
    readFrom x (text ++ more) = readFrom x text >>= (readFrom · more) :=
  List.foldlM_append

/-- A state that becomes a state between tokens when a comma or a line break is
read, or when the text ends. -/
structure Settles (x : Scanner × Builder) (b : Builder) : Prop where
  readChar : ∀ c, c = ',' ∨ c = '\n' → readChar x c = readChar (.between, b) c
  finish : x.1.finish >>= (fun tokens => tokens.foldlM Builder.step x.2) = some b

theorem settles_between (b : Builder) : Settles (.between, b) b := ⟨fun _ _ => rfl, rfl⟩

/-- A text leads to a state between tokens, up to the comma, the line break or the
end that completes its last token. -/
def Leads (x : Scanner × Builder) (text : List Char) (b : Builder) : Prop :=
  ∃ y, readFrom x text = some y ∧ Settles y b

theorem Leads.of_eq {text : List Char} (h : readFrom x text = some (.between, b)) :
    Leads x text b := ⟨_, h, settles_between b⟩

/-- After a text that leads to `b`, a text that begins with a comma or a line break
is read as from `b`. -/
theorem Leads.append {text more : List Char} (h : Leads x text b)
    (hhead : more.head? = some ',' ∨ more.head? = some '\n')
    (hmore : Leads (.between, b) more b') : Leads x (text ++ more) b' := by
  obtain ⟨y, hy, hsettles⟩ := h
  obtain ⟨z, hz, hz'⟩ := hmore
  cases more with
  | nil => simp at hhead
  | cons c more =>
    have hc : c = ',' ∨ c = '\n' := by simpa using hhead
    refine ⟨z, ?_, hz'⟩
    rw [readFrom_append, hy, Option.bind_eq_bind, Option.bind_some, readFrom_cons,
      hsettles.readChar c hc, ← readFrom_cons, hz]

theorem Leads.prepend {text more : List Char} (h : readFrom x text = some y)
    (hmore : Leads y more b) : Leads x (text ++ more) b := by
  obtain ⟨z, hz, hsettles⟩ := hmore
  exact ⟨z, by rw [readFrom_append, h]; exact hz, hsettles⟩

/-! ### Scalars -/

/-- A value is due, for the innermost of these arrays and objects. -/
structure Builder.Awaits (b : Builder) (frames : List Frame) : Prop where
  scalar : ∀ v, b.step (.scalar v) = some (Builder.deliver v frames)
  openArray : b.step .openArray = some (.firstItem frames)
  openObject : b.step .openObject = some (.firstName frames)

/-- A token that is not complete before the next character is. -/
theorem settles_pending {scanner : Scanner} (hb : b.Awaits frames)
    (hcomma : scanner.step ',' = some (.between, [.scalar v, .comma]))
    (hbreak : scanner.step '\n' = some (.between, [.scalar v]))
    (hfinish : scanner.finish = some [.scalar v]) :
    Settles (scanner, b) (Builder.deliver v frames) where
  readChar c hc := by
    have hstart : Scanner.step .between ',' = some (.between, [.comma]) ∧
        Scanner.step .between '\n' = some (.between, []) := ⟨rfl, rfl⟩
    rcases hc with rfl | rfl
    · simp only [Json.readChar, hcomma, hstart, Option.bind_eq_bind, Option.bind_some,
        List.foldlM_cons, hb.scalar]
    · simp only [Json.readChar, hbreak, hstart, Option.bind_eq_bind, Option.bind_some,
        List.foldlM_cons, hb.scalar]
  finish := by simp [hfinish, hb.scalar]

/-- Characters that a scanner's state collects. -/
theorem readFrom_collect {state : List Char → Scanner} {p : Char → Bool}
    (hstep : ∀ read c, p c → (state read).step c = some (state (c :: read), []))
    {text : List Char} (h : ∀ c ∈ text, p c) (read : List Char) :
    readFrom (state read, b) text = some (state (text.reverse ++ read), b) := by
  induction text generalizing read with
  | nil => rfl
  | cons c text ih =>
    have hc : readChar (state read, b) c = some (state (c :: read), b) := by
      simp [readChar, hstep read c (h c List.mem_cons_self)]
    rw [readFrom_cons, hc, Option.bind_eq_bind, Option.bind_some,
      ih fun d hd => h d (List.mem_cons_of_mem c hd)]
    simp

/-- A word or a number: the scanner collects its characters, and asks for its
value when the next character does not belong to it. -/
theorem leads_collected {state : List Char → Scanner} {p : Char → Bool} {c : Char}
    {text : List Char} (hb : b.Awaits frames) (hstart : Scanner.start c = some (state [c], []))
    (hstep : ∀ read d, p d → (state read).step d = some (state (d :: read), []))
    (htext : ∀ d ∈ text, p d)
    (hcomma : (state (text.reverse ++ [c])).step ',' = some (.between, [.scalar v, .comma]))
    (hbreak : (state (text.reverse ++ [c])).step '\n' = some (.between, [.scalar v]))
    (hfinish : (state (text.reverse ++ [c])).finish = some [.scalar v]) :
    Leads (.between, b) (c :: text) (Builder.deliver v frames) := by
  have hfirst : readChar (.between, b) c = some (state [c], b) := by
    simp [readChar, Scanner.step, hstart]
  refine ⟨(state (text.reverse ++ [c]), b), ?_, settles_pending hb hcomma hbreak hfinish⟩
  rw [readFrom_cons, hfirst]
  exact readFrom_collect hstep htext [c]

theorem leads_word {c : Char} {text : List Char} (hb : b.Awaits frames)
    (hstart : Scanner.start c = some (.word [c], [])) (htext : text.all Char.isLower)
    (hword : word? (c :: text) = some v) :
    Leads (.between, b) (c :: text) (Builder.deliver v frames) := by
  refine leads_collected hb hstart (fun read d hd => by simp [Scanner.step, hd])
    (List.all_eq_true.1 htext) ?_ ?_ ?_
  · simp [Scanner.step, hword, Scanner.start]
  · simp [Scanner.step, hword, Scanner.start]
  · simp [Scanner.finish, hword]

theorem leads_number {c : Char} {text : List Char} (hb : b.Awaits frames)
    (hstart : Scanner.start c = some (.number [c], []))
    (htext : ∀ d ∈ text, Scanner.isNumberChar d) (hnumber : number? (c :: text) = some v) :
    Leads (.between, b) (c :: text) (Builder.deliver v frames) := by
  refine leads_collected hb hstart (fun read d hd => by simp [Scanner.step, hd]) htext ?_ ?_ ?_
  · simp [Scanner.step, hnumber, Scanner.start, Scanner.isNumberChar]
  · simp [Scanner.step, hnumber, Scanner.start, Scanner.isNumberChar]
  · simp [Scanner.finish, hnumber]

/-! ### Integers -/

theorem takeDigits_of_all {digits : List Char} (h : ∀ d ∈ digits, d.isDigit) :
    takeDigits digits = (digits, []) := by
  rw [takeDigits, List.takeWhile_eq_self_iff.2 h, List.dropWhile_eq_nil_iff.2 h]

theorem isInteger_cons {c : Char} {cs : List Char} :
    isInteger (c :: cs) = true ↔ c = '0' → cs = [] := by
  cases cs with
  | nil => by_cases hc : c = '0' <;> simp [isInteger, hc]
  | cons d ds => simp [isInteger]

/-- Only the number zero is written with a zero in front. -/
theorem isInteger_toDigits (n : Nat) : isInteger (Nat.toDigits 10 n) := by
  induction n using Nat.strongRecOn with
  | ind n ih =>
    rw [Nat.toDigits_eq_if (by decide)]
    split
    · exact isInteger_cons.2 fun _ => rfl
    next hn =>
      have hless : n / 10 < n := by omega
      cases hdigits : Nat.toDigits 10 (n / 10) with
      | nil => exact absurd hdigits Nat.toDigits_ne_nil
      | cons c cs =>
        refine isInteger_cons.2 fun hc => ?_
        have hcs : cs = [] := isInteger_cons.1 (hdigits ▸ ih (n / 10) hless) hc
        have hvalue : Nat.ofDigitChars 10 (Nat.toDigits 10 (n / 10)) 0 = n / 10 :=
          Nat.ofDigitChars_ten_toDigits
        rw [hdigits, hc, hcs] at hvalue
        have hzero : n / 10 = 0 := hvalue.symm
        omega

theorem isDigit_of_mem_toDigits {n : Nat} {c : Char} (h : c ∈ Nat.toDigits 10 n) : c.isDigit :=
  Nat.isDigit_of_mem_toDigits (by decide) (by decide) h

theorem takeDigits_toDigits (n : Nat) :
    takeDigits (Nat.toDigits 10 n) = (Nat.toDigits 10 n, []) :=
  takeDigits_of_all fun _ => isDigit_of_mem_toDigits

theorem number?_toDigits (n : Nat) : number? (Nat.toDigits 10 n) = some (.int n) := by
  have hvalue : Nat.ofDigitChars 10 (Nat.toDigits 10 n) 0 = n := Nat.ofDigitChars_ten_toDigits
  cases hdigits : Nat.toDigits 10 n with
  | nil => exact absurd hdigits Nat.toDigits_ne_nil
  | cons c cs =>
    have hsign : c ≠ '-' := by
      rintro rfl
      have hdigit : '-'.isDigit = true := isDigit_of_mem_toDigits (n := n) (by simp [hdigits])
      exact absurd hdigit (by decide)
    have htake := takeDigits_toDigits n
    have hinteger := isInteger_toDigits n
    rw [hdigits] at hvalue htake hinteger
    simp [number?, hsign, htake, hinteger, hvalue, isTail, isExponent]

theorem number?_neg_toDigits {n : Nat} (hn : n ≠ 0) :
    number? ('-' :: Nat.toDigits 10 n) = some (.int (-n)) := by
  have hvalue : Nat.ofDigitChars 10 (Nat.toDigits 10 n) 0 = n := Nat.ofDigitChars_ten_toDigits
  simp [number?, takeDigits_toDigits, isInteger_toDigits, hvalue, isTail, isExponent, hn]

theorem start_of_isDigit {c : Char} (h : c.isDigit) : Scanner.start c = some (.number [c], []) := by
  have hne : ∀ d : Char, d.isDigit = false → c ≠ d := by
    rintro d hd rfl
    exact absurd h (by simp [hd])
  simp [Scanner.start, h, hne ' ' rfl, hne '\n' rfl, hne '\t' rfl, hne '\r' rfl, hne '[' rfl,
    hne ']' rfl, hne '{' rfl, hne '}' rfl, hne ',' rfl, hne ':' rfl, hne '"' rfl]

theorem leads_int (hb : b.Awaits frames) (i : Int) :
    Leads (.between, b) (toString i).toList (Builder.deliver (.int i) frames) := by
  have hdigits {n : Nat} : ∀ d ∈ Nat.toDigits 10 n, Scanner.isNumberChar d := fun d hd => by
    simp [Scanner.isNumberChar, isDigit_of_mem_toDigits hd]
  cases i with
  | ofNat n =>
    have htext : (toString (Int.ofNat n)).toList = Nat.toDigits 10 n := Nat.toList_repr
    cases hn : Nat.toDigits 10 n with
    | nil => exact absurd hn Nat.toDigits_ne_nil
    | cons c cs =>
      have hc : c.isDigit := isDigit_of_mem_toDigits (n := n) (by simp [hn])
      rw [htext, hn]
      refine leads_number hb (start_of_isDigit hc) (fun d hd => hdigits (n := n) d ?_) ?_
      · rw [hn]
        exact List.mem_cons_of_mem c hd
      · rw [← hn]
        exact number?_toDigits n
  | negSucc n =>
    have htext : (toString (Int.negSucc n)).toList = '-' :: Nat.toDigits 10 (n + 1) := by
      rw [Int.toString_eq_repr, Int.repr_eq_if, if_neg (by simp), String.toList_append,
        Nat.toList_repr, Int.neg_negSucc, Int.toNat_natCast]
      rfl
    rw [htext]
    exact leads_number hb rfl hdigits (number?_neg_toDigits (Nat.succ_ne_zero n))

/-! ### Strings -/

theorem digit?_digitChar {n : Nat} (h : n < 16) : Text.Hex.digit? n.digitChar = some n := by
  have hall : ∀ n < 16, Text.Hex.digit? n.digitChar = some n := by decide
  exact hall n h

/-- The four digits of a control character's code. -/
theorem readFrom_code {n : Nat} (h : n < 0x20) (read : List Char) :
    readFrom (.code read none 4 0, b) ('0' :: '0' :: Text.Hex.lowerDigits n.toUInt8) =
      some (.text (Char.ofNat n :: read), b) := by
  have hbyte : n.toUInt8.toNat = n := by simp; omega
  have hhigh : Text.Hex.digit? (n / 16).digitChar = some (n / 16) := digit?_digitChar (by omega)
  have hlow : Text.Hex.digit? (n % 16).digitChar = some (n % 16) := digit?_digitChar (by omega)
  have hzero : Text.Hex.digit? '0' = some 0 := by decide
  have hvalue : n / 16 * 16 + n % 16 = n := by omega
  have hpoint : codePoint? read none n = some (.text (Char.ofNat n :: read)) := by
    rw [codePoint?, if_neg (by simp; omega), if_neg (by simp; omega)]
  simp [Text.Hex.lowerDigits, hbyte, readFrom_cons, readChar, Scanner.step, hzero, hhigh, hlow,
    hvalue, hpoint]

/-- Every character is read back as it was escaped. -/
theorem readFrom_escape (c : Char) (read : List Char) :
    readFrom (.text read, b) (escape c) = some (.text (c :: read), b) := by
  by_cases hcontrol : c ∈ ['"', '\\', '\x08', '\x0c', '\n', '\r', '\t']
  · simp only [List.mem_cons, List.not_mem_nil, or_false] at hcontrol
    rcases hcontrol with rfl | rfl | rfl | rfl | rfl | rfl | rfl <;> rfl
  · simp only [List.mem_cons, List.not_mem_nil, or_false, not_or] at hcontrol
    obtain ⟨hquote, hslash, h8, hc, hn, hr, ht⟩ := hcontrol
    simp only [escape, hquote, hslash, h8, hc, hn, hr, ht, if_false]
    split
    · next hlow =>
      have hbackslash : readFrom (.text read, b) ['\\', 'u'] = some (.code read none 4 0, b) := rfl
      have hcode := readFrom_code (b := b) hlow read
      rw [Char.ofNat_toNat] at hcode
      rw [show ['\\', 'u', '0', '0'] ++ Text.Hex.lowerDigits c.toNat.toUInt8 = ['\\', 'u'] ++
        ('0' :: '0' :: Text.Hex.lowerDigits c.toNat.toUInt8) from rfl, readFrom_append, hbackslash]
      exact hcode
    · next hlow =>
      simp [readFrom_cons, readChar, Scanner.step, hquote, hslash, hlow]

theorem readFrom_escapes (cs read : List Char) :
    readFrom (.text read, b) (cs.flatMap escape) = some (.text (cs.reverse ++ read), b) := by
  induction cs generalizing read with
  | nil => rfl
  | cons c cs ih =>
    rw [List.flatMap_cons, readFrom_append, readFrom_escape, Option.bind_eq_bind, Option.bind_some,
      ih]
    simp

/-- A string literal is one token. -/
theorem readFrom_quoted {s : String} (h : b.step (.scalar (.string s)) = some b') :
    readFrom (.between, b) (quoted s).toList = some (.between, b') := by
  have hopen : readChar (.between, b) '"' = some (.text [], b) := rfl
  have hclose : readChar (.text s.toList.reverse, b) '"' = some (.between, b') := by
    simp [readChar, Scanner.step, h]
  have htext : (quoted s).toList = '"' :: (s.toList.flatMap escape ++ ['"']) := by
    simp [quoted]
  rw [htext, readFrom_cons, hopen, Option.bind_eq_bind, Option.bind_some, readFrom_append,
    readFrom_escapes, List.append_nil, Option.bind_eq_bind, Option.bind_some, readFrom_cons, hclose]
  rfl

/-! ### Arrays and objects -/

theorem toList_lineBreak (level : Nat) :
    (lineBreak level).toList = '\n' :: List.replicate (2 * level) ' ' := by
  simp [lineBreak]

theorem readFrom_lineBreak (level : Nat) :
    readFrom (.between, b) (lineBreak level).toList = some (.between, b) := by
  have hspaces : ∀ n, readFrom (.between, b) (List.replicate n ' ') = some (.between, b) := by
    intro n
    induction n with
    | zero => rfl
    | succ n ih => exact ih
  rw [toList_lineBreak]
  exact hspaces (2 * level)

theorem toList_intercalate_cons (separator line : String) (lines : List String) :
    (String.intercalate separator (line :: lines)).toList =
      line.toList ++ lines.flatMap fun l => separator.toList ++ l.toList := by
  induction lines generalizing line with
  | nil => simp
  | cons l lines ih => rw [String.intercalate_cons_cons, String.toList_append, ih]; simp

section Blocks

variable {α : Type} {items : List α} {text : α → String} (due after : List α → Builder)

/-- Lines after the first one, each with a comma and a line break before it.  `due acc` and
`after acc` are the builder's states before and after a line, where `acc` are the items of the
lines that have been read, backwards. -/
theorem leads_lines (level : Nat) (hcomma : ∀ acc, (after acc).step .comma = some (due acc))
    (hitem : ∀ a ∈ items, ∀ acc, Leads (.between, due acc) (text a).toList (after (a :: acc)))
    {read : List Char} {acc : List α} (hread : Leads x read (after acc)) :
    Leads x (read ++ (items.map text).flatMap fun l => ("," ++ lineBreak level).toList ++ l.toList)
      (after (items.reverse ++ acc)) := by
  induction items generalizing read acc with
  | nil => simpa using hread
  | cons a items ih =>
    have hseparator : readFrom (.between, after acc) ("," ++ lineBreak level).toList =
        some (.between, due acc) := by
      have hfirst : readChar (.between, after acc) ',' = some (.between, due acc) := by
        simp [readChar, Scanner.step, Scanner.start, hcomma]
      rw [String.toList_append]
      show readChar (.between, after acc) ',' >>= _ = _
      rw [hfirst]
      exact readFrom_lineBreak level
    have hline : Leads x (read ++ (("," ++ lineBreak level).toList ++ (text a).toList))
        (after (a :: acc)) := by
      have hmore := Leads.prepend hseparator (hitem a List.mem_cons_self acc)
      exact hread.append (.inl (by simp)) hmore
    have hrest := ih (fun a' ha' => hitem a' (List.mem_cons_of_mem a ha')) hline
    simpa using hrest

/-- Lines between brackets. -/
theorem leads_block {first done : Builder} {left right : String} (level : Nat)
    (hleft : readFrom (.between, b) left.toList = some (.between, first))
    (hempty : items = [] → readFrom (.between, first) right.toList = some (.between, done))
    (hfirst : ∀ a ∈ items, Leads (.between, first) (text a).toList (after [a]))
    (hcomma : ∀ acc, (after acc).step .comma = some (due acc))
    (hitem : ∀ a ∈ items, ∀ acc, Leads (.between, due acc) (text a).toList (after (a :: acc)))
    (hright : readFrom (.between, after items.reverse) right.toList = some (.between, done)) :
    Leads (.between, b) (block left right level (items.map text)).toList done := by
  cases items with
  | nil =>
    refine .of_eq ?_
    rw [List.map_nil, block, String.toList_append, readFrom_append, hleft]
    exact hempty rfl
  | cons a items =>
    have hopen : readFrom (.between, b) (left.toList ++ (lineBreak (level + 1)).toList) =
        some (.between, first) := by
      rw [readFrom_append, hleft]
      exact readFrom_lineBreak (level + 1)
    have hclose : readFrom (.between, after (a :: items).reverse)
        ((lineBreak level).toList ++ right.toList) = some (.between, done) := by
      rw [readFrom_append, readFrom_lineBreak]
      exact hright
    have hlines := leads_lines due after (level + 1) hcomma
      (fun a' ha' => hitem a' (List.mem_cons_of_mem a ha')) (hfirst a List.mem_cons_self)
    rw [← List.reverse_cons] at hlines
    have hbreak : ((lineBreak level).toList ++ right.toList).head? = some '\n' := by
      rw [toList_lineBreak]
      rfl
    have hall := (Leads.prepend hopen hlines).append (.inr hbreak) (.of_eq hclose)
    simpa only [List.map_cons, block, String.toList_append, toList_intercalate_cons,
      List.append_assoc] using hall

end Blocks

theorem prettyItems_eq_map (level : Nat) (items : List Json) :
    prettyItems level items = items.map (prettyAt level) := by
  induction items with
  | nil => rfl
  | cons v items ih => rw [prettyItems, ih, List.map_cons]

theorem prettyMembers_eq_map (level : Nat) (members : List (String × Json)) :
    prettyMembers level members =
      members.map fun m => quoted m.1 ++ ": " ++ prettyAt level m.2 := by
  induction members with
  | nil => rfl
  | cons m members ih => rw [prettyMembers, ih, List.map_cons]

theorem awaits_value (frames : List Frame) : (Builder.value frames).Awaits frames :=
  ⟨fun _ => rfl, rfl, rfl⟩

theorem awaits_firstItem (frames : List Frame) :
    (Builder.firstItem frames).Awaits (.array [] :: frames) :=
  ⟨fun _ => rfl, rfl, rfl⟩

/-- A name, the colon after it and the value. -/
theorem leads_member {name : String} {value : List Char} {members : List (String × Json)}
    (hname : b.step (.scalar (.string name)) = some (.colon members name frames))
    (hvalue : Leads (.between, .value (.object members name :: frames)) value
      (.afterMember ((name, v) :: members) frames)) :
    Leads (.between, b) ((quoted name ++ ": ").toList ++ value)
      (.afterMember ((name, v) :: members) frames) := by
  refine .prepend ?_ hvalue
  rw [String.toList_append, readFrom_append, readFrom_quoted hname]
  rfl

theorem leads_prettyAt (h : IsExact v) (level : Nat) (hb : b.Awaits frames) :
    Leads (.between, b) (prettyAt level v).toList (Builder.deliver v frames) := by
  induction h generalizing b frames level with
  | null =>
    rw [prettyAt]
    show Leads _ ('n' :: ['u', 'l', 'l']) _
    exact leads_word hb rfl rfl rfl
  | bool value =>
    cases value
    · rw [prettyAt, if_neg (by decide)]
      show Leads _ ('f' :: ['a', 'l', 's', 'e']) _
      exact leads_word hb rfl rfl rfl
    · rw [prettyAt, if_pos rfl]
      show Leads _ ('t' :: ['r', 'u', 'e']) _
      exact leads_word hb rfl rfl rfl
  | int i => exact leads_int hb i
  | string s => exact .of_eq (readFrom_quoted (hb.scalar _))
  | @array items h ih =>
    have hopen : readFrom (.between, b) "[".toList = some (.between, .firstItem frames) := by
      show readFrom (.between, b) ['['] = _
      simp [readFrom_cons, readChar, Scanner.step, Scanner.start, hb.openArray]
    rw [prettyAt, prettyItems_eq_map]
    refine leads_block (fun acc => .value (.array acc :: frames))
      (fun acc => .afterItem acc frames) level hopen ?_ ?_ ?_ ?_ ?_
    · rintro rfl
      rfl
    · exact fun v hv => ih v hv (level + 1) (awaits_firstItem frames)
    · exact fun _ => rfl
    · exact fun v hv acc => ih v hv (level + 1) (awaits_value (.array acc :: frames))
    · show some (Scanner.between, Builder.deliver (.array items.reverse.reverse) frames) = _
      rw [List.reverse_reverse]
  | @object members h ih =>
    have hopen : readFrom (.between, b) "\x7b".toList = some (.between, .firstName frames) := by
      show readFrom (.between, b) ['{'] = _
      simp [readFrom_cons, readChar, Scanner.step, Scanner.start, hb.openObject]
    rw [prettyAt, prettyMembers_eq_map]
    refine leads_block (fun acc => .name acc frames)
      (fun acc => .afterMember acc frames) level hopen ?_ ?_ ?_ ?_ ?_
    · rintro rfl
      rfl
    · intro m hm
      rw [String.toList_append]
      exact leads_member rfl (ih m hm (level + 1) (awaits_value _))
    · exact fun _ => rfl
    · intro m hm acc
      rw [String.toList_append]
      exact leads_member rfl (ih m hm (level + 1) (awaits_value _))
    · show some (Scanner.between, Builder.deliver (.object members.reverse.reverse) frames) = _
      rw [List.reverse_reverse]

/-- **Indented documents are read back**, if their numbers are integers. -/
theorem parse?_pretty (h : IsExact v) : parse? v.pretty = some v := by
  obtain ⟨⟨scanner, builder⟩, hread, hsettles⟩ := leads_prettyAt h 0 (awaits_value [])
  have hread : v.pretty.toList.foldlM readChar (.between, .value []) = some (scanner, builder) :=
    hread
  obtain ⟨tokens, hfinish, hbuild⟩ := Option.bind_eq_some_iff.1 hsettles.finish
  rw [parse?, hread]
  simp only [Option.bind_eq_bind, Option.bind_some] at hfinish hbuild ⊢
  rw [hfinish, Option.bind_some, hbuild]
  rfl

end Stitch.Json
