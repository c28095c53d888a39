/-
The grammar of method URIs.

What a URI looks like is said three times, and each time the same is meant:

* in words, by the parts of its text (`IsLocal`, `IsGlobal`, and `Spells` for the URI that
  has these parts);
* by two patterns, `localPattern` and `globalPattern`, whose runs take the parts
  (`capture?`);
* by the cuts that `read?` makes.

The runs of the patterns overlap with what follows them: a type may hold dots, a version
anything but a slash.  Still there is only one way to split a text (`IsLocal.unique`,
`IsGlobal.unique`), because every part ends at the first or last of its separators.  So it
does not matter how far a matcher goes and comes back, and both readers read the grammar
(`read?_eq_some_iff`, `capture?_eq_read?`).

The main statement is **`ofText_reads_grammar`**.
-/
import Stitch.Proofs.Coordinate
import Stitch.Proofs.MethodUri
import Stitch.Proofs.Text.Pattern

namespace Stitch.MethodUri

/-! ### The grammar in words -/

/-- The text is `/package/type.method(rest`. -/
structure IsLocal (cs package type method rest : List Char) : Prop where
  text : cs = '/' :: (package ++ '/' :: (type ++ '.' :: (method ++ '(' :: rest)))
  package : '/' ∉ package
  type_ne_nil : type ≠ []
  type : '/' ∉ type ∧ '(' ∉ type
  method_ne_nil : method ≠ []
  method : '.' ∉ method ∧ '/' ∉ method ∧ '(' ∉ method
  rest : '\n' ∉ rest

/-- The text is `fasten://forge!product$version` with a slash and more behind it, and no line
feed from there on. -/
structure IsGlobal (cs forge product version member : List Char) : Prop where
  text : cs = scheme.toList ++
    (forge ++ '!' :: (product ++ '$' :: (version ++ '/' :: member)))
  forge_ne_nil : forge ≠ []
  forge : '!' ∉ forge ∧ '/' ∉ forge
  product_ne_nil : product ≠ []
  product : '$' ∉ product ∧ '/' ∉ product
  version : '/' ∉ version
  member : '\n' ∉ member

/-- The URI that a text spells. -/
inductive Spells (cs : List Char) : MethodUri → Prop
  | ofLocal {package type method rest : List Char} (h : IsLocal cs package type method rest) :
    Spells cs ⟨none, .ofList package, .ofList type, .ofList (method ++ '(' :: rest)⟩
  | ofGlobal {forge product version member package type method rest : List Char}
    (hglobal : IsGlobal cs forge product version member)
    (hlocal : IsLocal ('/' :: member) package type method rest) :
    Spells cs ⟨some ⟨.ofList forge, .ofList product, .ofList version⟩, .ofList package,
      .ofList type, .ofList (method ++ '(' :: rest)⟩

variable {cs : List Char} {uri : MethodUri}

theorem IsLocal.not_mem_head {package type method rest : List Char}
    (h : IsLocal cs package type method rest) : '(' ∉ type ++ '.' :: method := by
  simp [h.type.2, h.method.2.2]

/-- A local URI has its parts in one way. -/
theorem IsLocal.unique {package type method rest package' type' method' rest' : List Char}
    (h : IsLocal cs package type method rest) (h' : IsLocal cs package' type' method' rest') :
    package = package' ∧ type = type' ∧ method = method' ∧ rest = rest' := by
  have htext := h.text.symm.trans h'.text
  rw [List.cons.injEq] at htext
  obtain ⟨hpackage, hmember⟩ := Text.append_cons_inj h.package h'.package htext.2
  have hmember : (type ++ '.' :: method) ++ '(' :: rest =
      (type' ++ '.' :: method') ++ '(' :: rest' := by simpa using hmember
  obtain ⟨hhead, hrest⟩ := Text.append_cons_inj h.not_mem_head h'.not_mem_head hmember
  -- Between the slash and the parenthesis the last dot counts.
  have hlast : Text.cutLast '.' (type ++ '.' :: method) = some (type, method) :=
    Text.cutLast_append_cons h.method.1
  rw [hhead, Text.cutLast_append_cons h'.method.1, Option.some.injEq, Prod.mk.injEq] at hlast
  exact ⟨hpackage, hlast.1.symm, hlast.2.symm, hrest⟩

theorem IsGlobal.unique {forge product version member forge' product' version' member' : List Char}
    (h : IsGlobal cs forge product version member)
    (h' : IsGlobal cs forge' product' version' member') :
    forge = forge' ∧ product = product' ∧ version = version' ∧ member = member' := by
  have htext := List.append_cancel_left (h.text.symm.trans h'.text)
  obtain ⟨hforge, htext⟩ := Text.append_cons_inj h.forge.1 h'.forge.1 htext
  obtain ⟨hproduct, htext⟩ := Text.append_cons_inj h.product.1 h'.product.1 htext
  obtain ⟨hversion, hmember⟩ := Text.append_cons_inj h.version h'.version htext
  exact ⟨hforge, hproduct, hversion, hmember⟩

theorem IsGlobal.scheme_prefix {forge product version member : List Char}
    (h : IsGlobal cs forge product version member) : scheme.toList <+: cs := by
  rw [h.text]
  exact List.prefix_append _ _

/-- A local URI does not begin with the scheme. -/
theorem IsLocal.not_scheme_prefix {package type method rest : List Char}
    (h : IsLocal cs package type method rest) : ¬scheme.toList <+: cs := by
  rintro ⟨more, hmore⟩
  rw [h.text, show scheme.toList = 'f' :: "asten://".toList from rfl, List.cons_append,
    List.cons.injEq] at hmore
  exact absurd hmore.1 (by decide)

/-! ### What is spelled is written -/

theorem toList_localText (u : MethodUri) : u.localText.toList =
    '/' :: (u.package.toList ++ '/' :: (u.typeName.toList ++ '.' :: u.signature.toList)) := by
  rw [show u.localText = "/" ++ u.package ++ "/" ++ u.typeName ++ "." ++ u.signature from rfl]
  simp

theorem toList_ownerText (a : UriAuthority) : (ownerText a).toList = scheme.toList ++
    (a.forge.toList ++ '!' :: (a.product.toList ++ '$' :: a.version.toList)) := by
  rw [show ownerText a = scheme ++ a.forge ++ "!" ++ a.product ++ "$" ++ a.version from rfl]
  simp

theorem IsLocal.toList_localText {package type method rest : List Char}
    {authority : Option UriAuthority} (h : IsLocal cs package type method rest) :
    (localText ⟨authority, .ofList package, .ofList type,
      .ofList (method ++ '(' :: rest)⟩).toList = cs := by
  simp only [MethodUri.toList_localText, String.toList_ofList]
  exact h.text.symm

theorem Spells.toList_text (h : Spells cs uri) : uri.text.toList = cs := by
  cases h with
  | ofLocal h => rw [text, String.toList_append, h.toList_localText]; rfl
  | ofGlobal hglobal hlocal =>
    rw [text, String.toList_append, hlocal.toList_localText, hglobal.text]
    simp [toList_ownerText]

/-! ### Reading by cuts -/

theorem local?_eq_some_iff : local? cs = some uri ↔
    ∃ package type method rest, IsLocal cs package type method rest ∧
      uri = ⟨none, .ofList package, .ofList type, .ofList (method ++ '(' :: rest)⟩ := by
  constructor
  · intro h
    unfold local? at h
    split at h
    next afterSlash =>
      simp only [Option.bind_eq_bind, Option.bind_eq_some_iff, Prod.exists] at h
      obtain ⟨package, member, hslash, head, rest, hparenthesis, type, method, hdot, h⟩ := h
      obtain ⟨rfl, hpackage⟩ := Text.cut_eq_some.1 hslash
      obtain ⟨rfl, hhead⟩ := Text.cut_eq_some.1 hparenthesis
      obtain ⟨rfl, hmethod⟩ := Text.cutLast_eq_some.1 hdot
      split at h
      next => cases h
      next hparts =>
        cases h
        simp only [Bool.or_eq_true, not_or, List.isEmpty_iff, List.contains_iff_mem,
          List.mem_append, List.mem_cons] at hparts hhead
        obtain ⟨⟨⟨⟨hslash, -, hslash'⟩, htype⟩, hmethod'⟩, hrest⟩ := hparts
        exact ⟨package, type, method, rest, ⟨by simp, hpackage, htype, ⟨hslash, hhead.1⟩,
          hmethod', ⟨hmethod, hslash', hhead.2.2⟩, hrest⟩, rfl⟩
    next => cases h
  · rintro ⟨package, type, method, rest, h, rfl⟩
    have hslash : Text.cut '/' (package ++ '/' :: (type ++ '.' :: (method ++ '(' :: rest))) =
        some (package, type ++ '.' :: (method ++ '(' :: rest)) :=
      Text.cut_eq_some.2 ⟨rfl, h.package⟩
    have hparenthesis : Text.cut '(' (type ++ '.' :: (method ++ '(' :: rest)) =
        some (type ++ '.' :: method, rest) := Text.cut_eq_some.2 ⟨by simp, h.not_mem_head⟩
    have hdot : Text.cutLast '.' (type ++ '.' :: method) = some (type, method) :=
      Text.cutLast_append_cons h.method.1
    rw [h.text]
    simp [local?, hslash, hparenthesis, hdot, h.type.1, h.method.2.1, h.type_ne_nil,
      h.method_ne_nil, h.rest]

theorem authority?_eq_some_iff {owner : UriAuthority} {text : List Char} :
    authority? cs = some (owner, text) ↔
      ∃ forge product version member, IsGlobal cs forge product version member ∧
        owner = ⟨.ofList forge, .ofList product, .ofList version⟩ ∧ text = '/' :: member := by
  constructor
  · intro h
    simp only [authority?, Option.bind_eq_bind, Option.bind_eq_some_iff, Prod.exists] at h
    obtain ⟨more, hscheme, forge, _, hforge, product, _, hproduct, version, member, hversion,
      h⟩ := h
    obtain rfl := List.isPrefixOf?_eq_some_iff_append_eq.1 hscheme
    obtain ⟨rfl, hexclamation⟩ := Text.cut_eq_some.1 hforge
    obtain ⟨rfl, hdollar⟩ := Text.cut_eq_some.1 hproduct
    obtain ⟨rfl, hversion'⟩ := Text.cut_eq_some.1 hversion
    split at h
    next => cases h
    next hparts =>
      cases h
      simp only [Bool.or_eq_true, not_or, List.isEmpty_iff, List.contains_iff_mem] at hparts
      obtain ⟨⟨⟨⟨hforge', hslash⟩, hproduct'⟩, hslash'⟩, hmember⟩ := hparts
      exact ⟨forge, product, version, member, ⟨rfl, hforge', ⟨hexclamation, hslash⟩,
        hproduct', ⟨hdollar, hslash'⟩, hversion', hmember⟩, rfl, rfl⟩
  · rintro ⟨forge, product, version, member, h, rfl, rfl⟩
    have hscheme := List.isPrefixOf?_eq_some_iff_append_eq.2 h.text.symm
    have hforge : Text.cut '!' (forge ++ '!' :: (product ++ '$' :: (version ++ '/' :: member))) =
        some (forge, product ++ '$' :: (version ++ '/' :: member)) :=
      Text.cut_eq_some.2 ⟨rfl, h.forge.1⟩
    have hproduct : Text.cut '$' (product ++ '$' :: (version ++ '/' :: member)) =
        some (product, version ++ '/' :: member) := Text.cut_eq_some.2 ⟨rfl, h.product.1⟩
    have hversion : Text.cut '/' (version ++ '/' :: member) = some (version, member) :=
      Text.cut_eq_some.2 ⟨rfl, h.version⟩
    simp [authority?, hscheme, hforge, hproduct, hversion, h.forge.2, h.product.2,
      h.forge_ne_nil, h.product_ne_nil, h.member]

/-- Cutting at separators reads the grammar. -/
theorem read?_eq_some_iff : read? cs = some uri ↔ Spells cs uri := by
  rw [read?]
  split
  next hscheme =>
    constructor
    · intro h
      obtain ⟨⟨owner, text⟩, howner, h⟩ := Option.bind_eq_some_iff.1 h
      obtain ⟨member, hmember, h⟩ := Option.bind_eq_some_iff.1 h
      obtain ⟨forge, product, version, member, hglobal, rfl, rfl⟩ :=
        authority?_eq_some_iff.1 howner
      obtain ⟨package, type, method, rest, hlocal, rfl⟩ := local?_eq_some_iff.1 hmember
      cases h
      exact .ofGlobal hglobal hlocal
    · rintro (h | ⟨hglobal, hlocal⟩)
      · exact absurd (List.isPrefixOf_iff_prefix.1 hscheme) h.not_scheme_prefix
      · have howner := authority?_eq_some_iff.2 ⟨_, _, _, _, hglobal, rfl, rfl⟩
        have hmember := local?_eq_some_iff.2 ⟨_, _, _, _, hlocal, rfl⟩
        simp only [howner, hmember, Option.bind_eq_bind, Option.bind_some, Option.pure_def]
  next hscheme =>
    rw [local?_eq_some_iff]
    constructor
    · rintro ⟨package, type, method, rest, h, rfl⟩
      exact .ofLocal h
    · rintro (h | ⟨hglobal, -⟩)
      · exact ⟨_, _, _, _, h, rfl⟩
      · exact absurd (List.isPrefixOf_iff_prefix.2 hglobal.scheme_prefix) hscheme

/-! ### Reading by patterns -/

open Text (Piece captures? noneOf Splits)

/-- `/`, the package, `/`, the type, `.`, the method, `(` and the rest. -/
def localPattern : List Piece :=
  [.char '/', .run false (noneOf ['/']), .char '/', .run true (noneOf ['/', '(']), .char '.',
    .run true (noneOf ['.', '/', '(']), .char '(', .run false (noneOf ['\n'])]

/-- The scheme, the forge, `!`, the product, `$`, the version, `/` and the rest. -/
def globalPattern : List Piece :=
  scheme.toList.map Piece.char ++
    [.run true (noneOf ['!', '/']), .char '!', .run true (noneOf ['$', '/']), .char '$',
      .run false (noneOf ['/']), .char '/', .run false (noneOf ['\n'])]

/-- The local URI that the pattern takes apart. -/
def captureLocal? (cs : List Char) : Option MethodUri :=
  match captures? localPattern cs with
  | some [package, type, method, rest] =>
    some ⟨none, .ofList package, .ofList type, .ofList (method ++ '(' :: rest)⟩
  | _ => none

/-- The URI that the patterns take apart.  What the pattern of global URIs fits is read as
one, and what else begins with the scheme is no URI. -/
def capture? (cs : List Char) : Option MethodUri :=
  match captures? globalPattern cs with
  | some [forge, product, version, member] =>
    (captureLocal? ('/' :: member)).map fun uri =>
      { uri with authority := some ⟨.ofList forge, .ofList product, .ofList version⟩ }
  | _ => if scheme.toList.isPrefixOf cs then none else captureLocal? cs

variable {parts : List (List Char)}

theorem splits_localPattern_iff : Splits localPattern cs parts ↔
    ∃ package type method rest, IsLocal cs package type method rest ∧
      parts = [package, type, method, rest] := by
  simp only [localPattern, Text.splits_char_iff, Text.splits_run_iff, Text.splits_nil_iff,
    Text.forall_noneOf_iff, List.forall_mem_cons, List.not_mem_nil, Bool.false_eq_true,
    false_imp_iff, implies_true, and_true, true_and, forall_const]
  constructor
  · rintro ⟨_, rfl, package, _, _, rfl, rfl, hpackage, _, rfl, type, _, _, rfl, rfl, htype,
      htype', _, rfl, method, _, _, rfl, rfl, hmethod, hmethod', _, rfl, rest, _, _, rfl, rfl,
      hrest, rfl, rfl⟩
    exact ⟨package, type, method, rest, ⟨by simp, hpackage, htype', htype, hmethod', hmethod,
      hrest⟩, rfl⟩
  · rintro ⟨package, type, method, rest, h, rfl⟩
    exact ⟨_, h.text, package, _, _, rfl, rfl, h.package, _, rfl, type, _, _, rfl, rfl, h.type,
      h.type_ne_nil, _, rfl, method, _, _, rfl, rfl, h.method, h.method_ne_nil, _, rfl, rest, [],
      [], by simp, rfl, h.rest, rfl, rfl⟩

theorem splits_globalPattern_iff : Splits globalPattern cs parts ↔
    ∃ forge product version member, IsGlobal cs forge product version member ∧
      parts = [forge, product, version, member] := by
  simp only [globalPattern, Text.splits_append_iff, Text.splits_char_iff, Text.splits_run_iff,
    Text.splits_nil_iff, Text.forall_noneOf_iff, List.forall_mem_cons, List.not_mem_nil,
    Bool.false_eq_true, false_imp_iff, implies_true, and_true, true_and, forall_const]
  constructor
  · rintro ⟨_, rfl, forge, _, _, rfl, rfl, hforge, hforge', _, rfl, product, _, _, rfl, rfl,
      hproduct, hproduct', _, rfl, version, _, _, rfl, rfl, hversion, _, rfl, member, _, _, rfl,
      rfl, hmember, rfl, rfl⟩
    exact ⟨forge, product, version, member, ⟨by simp, hforge', hforge, hproduct', hproduct,
      hversion, hmember⟩, rfl⟩
  · rintro ⟨forge, product, version, member, h, rfl⟩
    exact ⟨_, h.text, forge, _, _, rfl, rfl, h.forge, h.forge_ne_nil, _, rfl, product, _, _, rfl,
      rfl, h.product, h.product_ne_nil, _, rfl, version, _, _, rfl, rfl, h.version, _, rfl,
      member, [], [], by simp, rfl, h.member, rfl, rfl⟩

theorem captures?_localPattern_iff : captures? localPattern cs = some parts ↔
    ∃ package type method rest, IsLocal cs package type method rest ∧
      parts = [package, type, method, rest] := by
  rw [Text.captures?_eq_some_iff, splits_localPattern_iff]
  intro parts parts' hsplits hsplits'
  obtain ⟨package, type, method, rest, h, rfl⟩ := splits_localPattern_iff.1 hsplits
  obtain ⟨package', type', method', rest', h', rfl⟩ := splits_localPattern_iff.1 hsplits'
  obtain ⟨rfl, rfl, rfl, rfl⟩ := h.unique h'
  rfl

theorem captures?_globalPattern_iff : captures? globalPattern cs = some parts ↔
    ∃ forge product version member, IsGlobal cs forge product version member ∧
      parts = [forge, product, version, member] := by
  rw [Text.captures?_eq_some_iff, splits_globalPattern_iff]
  intro parts parts' hsplits hsplits'
  obtain ⟨forge, product, version, member, h, rfl⟩ := splits_globalPattern_iff.1 hsplits
  obtain ⟨forge', product', version', member', h', rfl⟩ := splits_globalPattern_iff.1 hsplits'
  obtain ⟨rfl, rfl, rfl, rfl⟩ := h.unique h'
  rfl

theorem captureLocal?_eq_local? : captureLocal? cs = local? cs := by
  refine Option.ext fun uri => ?_
  rw [local?_eq_some_iff, captureLocal?]
  constructor
  · intro h
    split at h
    next package type method rest hcaptures =>
      cases h
      obtain ⟨_, _, _, _, h, heq⟩ := captures?_localPattern_iff.1 hcaptures
      cases heq
      exact ⟨package, type, method, rest, h, rfl⟩
    next => cases h
  · rintro ⟨package, type, method, rest, h, rfl⟩
    rw [captures?_localPattern_iff.2 ⟨package, type, method, rest, h, rfl⟩]

/-- Matching the patterns reads what cutting at separators does. -/
theorem capture?_eq_read? (cs : List Char) : capture? cs = read? cs := by
  rw [capture?]
  split
  next forge product version member hcaptures =>
    obtain ⟨_, _, _, _, h, heq⟩ := captures?_globalPattern_iff.1 hcaptures
    cases heq
    have howner := authority?_eq_some_iff.2 ⟨_, _, _, _, h, rfl, rfl⟩
    rw [captureLocal?_eq_local?, read?,
      if_pos (List.isPrefixOf_iff_prefix.2 h.scheme_prefix), howner]
    cases hlocal : local? ('/' :: member) <;> simp [hlocal]
  next hcaptures =>
    rw [captureLocal?_eq_local?, read?]
    by_cases hscheme : scheme.toList.isPrefixOf cs
    · -- There is no owner, or the pattern would have found its parts.
      have hnone : authority? cs = none := by
        refine Option.eq_none_iff_forall_ne_some.2 fun p howner => ?_
        obtain ⟨forge, product, version, member, h, -, -⟩ := authority?_eq_some_iff.1 howner
        exact hcaptures _ _ _ _ (captures?_globalPattern_iff.2 ⟨_, _, _, _, h, rfl⟩)
      rw [if_pos hscheme, if_pos hscheme, hnone]
      rfl
    · rw [if_neg hscheme, if_neg hscheme]

/-! ### Reading texts -/

variable {text : String}

theorem ofText_eq_ok_iff : ofText text = .ok uri ↔ Spells (Text.trim text.toList) uri := by
  rw [ofText, ← read?_eq_some_iff]
  cases read? (Text.trim text.toList) <;> simp

/-- Putting an owner in front of a local URI makes a global URI of it. -/
theorem isGlobal_qualify {owner : Coordinate} {member : List Char}
    (hforge : owner.forge ≠ "" ∧ '!' ∉ owner.forge.toList ∧ '/' ∉ owner.forge.toList)
    (hproduct : '$' ∉ owner.artifact.text.toList ∧ '/' ∉ owner.artifact.text.toList)
    (hversion : '/' ∉ owner.version.toList) (hmember : '\n' ∉ member) :
    IsGlobal (qualify owner (.ofList ('/' :: member))).toList owner.forge.toList
      owner.artifact.text.toList owner.version.toList member where
  text := by
    rw [show qualify owner (.ofList ('/' :: member)) = scheme ++ (owner.forge ++ "!" ++
      owner.artifact.text ++ "$" ++ owner.version) ++ .ofList ('/' :: member) from rfl]
    simp
  forge_ne_nil := by simpa using hforge.1
  forge := hforge.2
  product_ne_nil := by
    rw [show owner.artifact.text = owner.artifact.group ++ ":" ++ owner.artifact.name from rfl]
    simp
  product := hproduct
  version := hversion
  member := hmember

/-- The owner in front holds off a blank at the start. -/
theorem trim_qualify {owner : Coordinate} {member : String} (hne : member ≠ "")
    (hblank : Text.trim member.toList = member.toList) :
    Text.trim (qualify owner member).toList = (qualify owner member).toList := by
  have hstart : Text.trimStart scheme.toList = scheme.toList := by decide +kernel
  have hend : Text.trimEnd member.toList = member.toList := by
    have hmember := Text.trimStart_trim member.toList
    rw [hblank] at hmember
    rwa [Text.trim, hmember] at hblank
  rw [qualify, String.append_assoc, String.toList_append, Text.trim,
    Text.trimStart_append hstart (by decide), ← String.toList_append, ← String.append_assoc,
    String.toList_append, Text.trimEnd_append hend (by simpa using hne)]

/-- **The grammar of method URIs.**  A text is read if and only if it spells a URI when it is
trimmed, and then that is the result; matching the two patterns reads the same, and anything
else is refused with the trimmed text.  The result is written as the trimmed text.  The parts
of a URI can be told in one way only.

So where an artifact puts its coordinate in front of a local URI, both are read back. -/
theorem ofText_reads_grammar :
    (∀ text uri, ofText text = .ok uri ↔ Spells (Text.trim text.toList) uri) ∧
    (∀ text, ofText text =
      (capture? (Text.trim text.toList)).elim (.error (.methodUri (Text.trimmed text))) .ok) ∧
    (∀ text uri, ofText text = .ok uri → uri.text = Text.trimmed text) ∧
    (∀ {cs package type method rest package' type' method' rest' : List Char},
      IsLocal cs package type method rest → IsLocal cs package' type' method' rest' →
        package = package' ∧ type = type' ∧ method = method' ∧ rest = rest') ∧
    (∀ {cs forge product version member forge' product' version' member' : List Char},
      IsGlobal cs forge product version member → IsGlobal cs forge' product' version' member' →
        forge = forge' ∧ product = product' ∧ version = version' ∧ member = member') ∧
    ∀ (owner : Coordinate) (member : String) {package type method rest : List Char},
      (owner.forge ≠ "" ∧ '!' ∉ owner.forge.toList ∧ '/' ∉ owner.forge.toList) →
      ('$' ∉ owner.artifact.text.toList ∧ '/' ∉ owner.artifact.text.toList) →
      '/' ∉ owner.version.toList →
      IsLocal member.toList package type method rest → '\n' ∉ member.toList →
      Text.trim member.toList = member.toList →
        ∃ uri, ofText (qualify owner member) = .ok uri ∧ uri.localText = member ∧
          uri.authority = some ⟨owner.forge, owner.artifact.text, owner.version⟩ := by
  refine ⟨fun text uri => ofText_eq_ok_iff, fun text => ?_, fun text uri h => ?_,
    IsLocal.unique, IsGlobal.unique, ?_⟩
  · rw [capture?_eq_read?, ofText]
    cases read? (Text.trim text.toList) <;> rfl
  · exact String.toList_injective
      ((ofText_eq_ok_iff.1 h).toList_text.trans String.toList_ofList.symm)
  · intro owner member package type method rest hforge hproduct hversion hlocal hfeed hblank
    obtain ⟨inner, hinner⟩ : ∃ inner, member.toList = '/' :: inner := ⟨_, hlocal.text⟩
    obtain rfl : member = .ofList ('/' :: inner) :=
      String.toList_injective (hinner.trans String.toList_ofList.symm)
    rw [hinner] at hlocal hfeed
    have hglobal := isGlobal_qualify hforge hproduct hversion
      fun hmem => hfeed (List.mem_cons_of_mem _ hmem)
    rw [← trim_qualify (by simp) hblank] at hglobal
    refine ⟨_, ofText_eq_ok_iff.2 (.ofGlobal hglobal hlocal), ?_, by simp⟩
    exact String.toList_injective (hlocal.toList_localText.trans hinner.symm)

/-- The version holds a `!` and a `$`, the type a `$` and a dot, and the parameters a dot. -/
theorem ofText_reads_grammar_qualify :
    ∃ uri, ofText (qualify ⟨"mvn", ⟨"org.acme", "lib"⟩, "1!0$a"⟩ "/org.acme/Lib$In.ner.f(%2Fa.B)V") =
        .ok uri ∧ uri.localText = "/org.acme/Lib$In.ner.f(%2Fa.B)V" ∧
      uri.authority = some ⟨"mvn", "org.acme:lib", "1!0$a"⟩ ∧
      uri.text = Text.trimmed
        (qualify ⟨"mvn", ⟨"org.acme", "lib"⟩, "1!0$a"⟩ "/org.acme/Lib$In.ner.f(%2Fa.B)V") := by
  have hlocal : IsLocal "/org.acme/Lib$In.ner.f(%2Fa.B)V".toList "org.acme".toList
      "Lib$In.ner".toList "f".toList "%2Fa.B)V".toList := by
    constructor <;> decide +kernel
  obtain ⟨-, -, htext, -, -, hqualify⟩ := ofText_reads_grammar
  obtain ⟨uri, hread, hmember, howner⟩ := hqualify ⟨"mvn", ⟨"org.acme", "lib"⟩, "1!0$a"⟩ _
    (by decide +kernel) (by decide +kernel) (by decide +kernel) hlocal (by decide +kernel)
    (by decide +kernel)
  exact ⟨uri, hread, hmember, howner, htext _ uri hread⟩

end Stitch.MethodUri
