/-
Descriptors of encoded signatures.

`Describes` says what the descriptor of a type text is: the trailing bracket pairs come to the
front, a primitive type is its letter, a type in a package is a class, and any other text stays
as it is.  Each text has one descriptor (`describes_iff`).

In a URI the types are encoded, each character as often as it likes.  An encoded type holds
none of the separators, so the signature comes apart where it was put together
(`ofText_uriText`), and decoding gives each type back before it is described.

**`method?_uriText`** puts these together.
-/
import Mathlib.Data.List.Forall2
import Stitch.CallGraph.Jcg
import Stitch.Proofs.MethodUri.Grammar
import Stitch.Proofs.Text.Percent

namespace Stitch.Jcg

open Text.Percent (Encodes isKept isWritten again encodes_self encodes_again)

/-! ### What descriptors are -/

/-- The letters of the primitive types, by their names in the package `java.lang`. -/
inductive IsPrimitive : String → Char → Prop
  | void : IsPrimitive "VoidType" 'V'
  | boolean : IsPrimitive "BooleanType" 'Z'
  | byte : IsPrimitive "ByteType" 'B'
  | character : IsPrimitive "CharacterType" 'C'
  | short : IsPrimitive "ShortType" 'S'
  | integer : IsPrimitive "IntegerType" 'I'
  | long : IsPrimitive "LongType" 'J'
  | float : IsPrimitive "FloatType" 'F'
  | double : IsPrimitive "DoubleType" 'D'

/-- The descriptor of the class of a name in a package, which may be empty. -/
inductive DescribesClass : List Char → List Char → List Char → Prop
  | bare (name : List Char) : DescribesClass [] name ('L' :: (name ++ [';']))
  | inPackage {package : List Char} (name : List Char) (h : package ≠ []) :
      DescribesClass package name
        ('L' :: (package.map (fun c => if c = '.' then '/' else c) ++ '/' :: (name ++ [';'])))

/-- The descriptor of a type that is no array. -/
inductive DescribesBase : List Char → List Char → Prop
  | primitive {name : List Char} {letter : Char} (h : IsPrimitive (.ofList name) letter) :
      DescribesBase ('/' :: ("java.lang".toList ++ '/' :: name)) [letter]
  | class {package name d : List Char} (hpackage : '/' ∉ package)
      (hprimitive : package = "java.lang".toList → ∀ letter, ¬IsPrimitive (.ofList name) letter)
      (h : DescribesClass package name d) : DescribesBase ('/' :: (package ++ '/' :: name)) d
  | other {text : List Char}
      (h : ∀ package name, '/' ∉ package → text ≠ '/' :: (package ++ '/' :: name)) :
      DescribesBase text text

/-- The descriptor of a type. -/
inductive Describes : List Char → List Char → Prop
  | base {text d : List Char} (hbrackets : ¬['[', ']'] <:+ text) (h : DescribesBase text d) :
      Describes text d
  | array {text d : List Char} (h : Describes text d) : Describes (text ++ ['[', ']']) ('[' :: d)

variable {package name text d : List Char}

theorem primitive?_eq_some_iff {letter : Char} :
    primitive? name = some letter ↔ IsPrimitive (.ofList name) letter := by
  constructor
  · intro h
    obtain ⟨⟨known, letter⟩, hfind, rfl⟩ := Option.map_eq_some_iff.1 h
    have hname := List.find?_some hfind
    obtain rfl : known.toList = name := eq_of_beq hname
    have hmem := List.mem_of_find?_eq_some hfind
    rw [String.ofList_toList]
    simp only [List.mem_cons, Prod.mk.injEq, List.not_mem_nil, or_false] at hmem
    rcases hmem with ⟨rfl, rfl⟩ | ⟨rfl, rfl⟩ | ⟨rfl, rfl⟩ | ⟨rfl, rfl⟩ | ⟨rfl, rfl⟩ | ⟨rfl, rfl⟩ |
      ⟨rfl, rfl⟩ | ⟨rfl, rfl⟩ | ⟨rfl, rfl⟩ <;> constructor
  · intro h
    rw [← String.toList_ofList (l := name)]
    generalize String.ofList name = known at h
    cases h <;> decide +kernel

theorem describesClass_iff : DescribesClass package name d ↔ d = classDescriptor package name := by
  constructor
  · intro h
    cases h with
    | bare => rfl
    | inPackage _ h => simp [classDescriptor, h]
  · rintro rfl
    rcases eq_or_ne package [] with rfl | h
    · exact .bare name
    · have hclass := DescribesClass.inPackage name h
      simpa [classDescriptor, h] using hclass

/-! ### Types that are no arrays -/

theorem baseDescriptor_of_path (h : '/' ∉ package) :
    baseDescriptor ('/' :: (package ++ '/' :: name)) =
      if package = "java.lang".toList then
        (primitive? name).elim (classDescriptor package name) fun letter => [letter]
      else classDescriptor package name := by
  have hcut : Text.cut '/' (package ++ '/' :: name) = some (package, name) :=
    Text.cut_eq_some.2 ⟨rfl, h⟩
  simp only [baseDescriptor, hcut]
  cases primitive? name <;> rfl

theorem baseDescriptor_of_not_path
    (h : ∀ package name, '/' ∉ package → text ≠ '/' :: (package ++ '/' :: name)) :
    baseDescriptor text = text := by
  rw [baseDescriptor.eq_def]
  split
  next path =>
    split
    next package name hcut =>
      obtain ⟨rfl, hpackage⟩ := Text.cut_eq_some.1 hcut
      exact absurd rfl (h package name hpackage)
    next => rfl
  next => rfl

theorem describesBase_iff : DescribesBase text d ↔ d = baseDescriptor text := by
  constructor
  · rintro (h | ⟨hpackage, hprimitive, h⟩ | h)
    · rw [baseDescriptor_of_path (by decide), if_pos rfl, primitive?_eq_some_iff.2 h]
      rfl
    · rw [baseDescriptor_of_path hpackage, describesClass_iff.1 h]
      split
      next hjava =>
        rw [Option.eq_none_iff_forall_ne_some.2 fun letter hletter =>
          hprimitive hjava letter (primitive?_eq_some_iff.1 hletter)]
        rfl
      next => rfl
    · exact (baseDescriptor_of_not_path h).symm
  · rintro rfl
    by_cases hpath : ∃ package name, '/' ∉ package ∧ text = '/' :: (package ++ '/' :: name)
    · obtain ⟨package, name, hpackage, rfl⟩ := hpath
      rw [baseDescriptor_of_path hpackage]
      have hclass := describesClass_iff.2 (rfl : classDescriptor package name = _)
      split
      next hjava =>
        cases hletter : primitive? name with
        | some letter =>
          rw [hjava]
          exact .primitive (primitive?_eq_some_iff.1 hletter)
        | none =>
          refine .class hpackage (fun _ letter h => ?_) hclass
          rw [primitive?_eq_some_iff.2 h] at hletter
          cases hletter
      next hjava => exact .class hpackage (fun h => absurd h hjava) hclass
    · have hother : ∀ package name, '/' ∉ package → text ≠ '/' :: (package ++ '/' :: name) :=
        fun package name hpackage htext => hpath ⟨package, name, hpackage, htext⟩
      rw [baseDescriptor_of_not_path hother]
      exact .other hother

/-! ### Arrays -/

/-- The descriptor of a type, by counting its dimensions. -/
def descriptor (text : List Char) : List Char :=
  List.replicate (dimensions text.reverse).1 '[' ++
    baseDescriptor (dimensions text.reverse).2.reverse

theorem descriptor_append_brackets (text : List Char) :
    descriptor (text ++ ['[', ']']) = '[' :: descriptor text := by
  have hreverse : (text ++ ['[', ']']).reverse = ']' :: '[' :: text.reverse := by simp
  rw [descriptor, hreverse, dimensions, List.replicate_succ, List.cons_append, descriptor]

theorem descriptor_of_not_suffix (h : ¬['[', ']'] <:+ text) :
    descriptor text = baseDescriptor text := by
  have hnone : dimensions text.reverse = (0, text.reverse) := by
    rw [dimensions.eq_def]
    split
    next cs hcs =>
      refine absurd ⟨cs.reverse, ?_⟩ h
      rw [← List.reverse_inj, hcs]
      simp
    next => rfl
  rw [descriptor, hnone, List.reverse_reverse, List.replicate_zero, List.nil_append]

theorem describes_descriptor (text : List Char) : Describes text (descriptor text) := by
  induction hlength : text.length using Nat.strong_induction_on generalizing text with
  | _ length ih =>
    by_cases h : ['[', ']'] <:+ text
    -- What stands in front of the brackets is a shorter text.
    · obtain ⟨front, rfl⟩ := h
      rw [descriptor_append_brackets]
      rw [List.length_append] at hlength
      exact .array (ih front.length (by simp at hlength; omega) front rfl)
    · rw [descriptor_of_not_suffix h]
      exact .base h (describesBase_iff.2 rfl)

/-- Every text has one descriptor. -/
theorem describes_iff : Describes text d ↔ d = descriptor text := by
  constructor
  · intro h
    induction h with
    | base hbrackets h => rw [descriptor_of_not_suffix hbrackets, describesBase_iff.1 h]
    | array _ ih => rw [descriptor_append_brackets, ih]
  · rintro rfl
    exact describes_descriptor text

/-! ### Encoded types -/

theorem typeDescriptor_of_encodes {encoded : List Char} (h : Encodes 1 3 text encoded)
    (htext : '%' ∉ text) : typeDescriptor encoded = .ofList (descriptor text) := by
  have hdecoded := Text.Percent.decodeTimes_eq_of_encodes (h.mono (Nat.zero_le 1) le_rfl) htext
  rw [typeDescriptor, hdecoded, String.toList_ofList]
  rfl

theorem map_typeDescriptor_of_encodes {params encoded : List (List Char)}
    (h : List.Forall₂ (Encodes 1 3) params encoded) (hparams : ∀ p ∈ params, '%' ∉ p) :
    encoded.map typeDescriptor = (params.map descriptor).map .ofList := by
  induction h with
  | nil => simp only [List.map_nil]
  | cons hhead _ ih =>
    rw [List.forall_mem_cons] at hparams
    simp only [List.map_cons, typeDescriptor_of_encodes hhead hparams.1, ih hparams.2]

/-- An encoded type has no separators in it. -/
theorem not_mem_of_encodes {c : Char} {encoded : List Char} (h : Encodes 1 3 text encoded)
    (hc : isWritten c = false) : c ∉ encoded := fun hmem =>
  Bool.false_ne_true (hc.symm.trans (h.isWritten c hmem))

theorem forall_mem_of_encodes {params encoded : List (List Char)}
    (h : List.Forall₂ (Encodes 1 3) params encoded) (hparams : ∀ p ∈ params, p ≠ []) :
    ∀ p ∈ encoded, p ≠ [] ∧ ',' ∉ p ∧ '\n' ∉ p := by
  induction h with
  | nil => exact fun _ hp => absurd hp List.not_mem_nil
  | cons hhead _ ih =>
    rw [List.forall_mem_cons] at hparams ⊢
    exact ⟨⟨hhead.ne_nil hparams.1, not_mem_of_encodes hhead rfl, not_mem_of_encodes hhead rfl⟩,
      ih hparams.2⟩

/-! ### Method URIs -/

/-- The text of a local URI. -/
def uriText (package type name : List Char) (params : List (List Char)) (result : List Char) :
    List Char :=
  '/' :: (package ++ '/' :: (type ++ '.' ::
    (name ++ '(' :: ([','].intercalate params ++ ')' :: result))))

variable {type result encodedResult : List Char} {params encoded : List (List Char)}

theorem trim_uriText (h : ∀ c ∈ result, Text.isBlank c = false) :
    Text.trim (uriText package type name params result) =
      uriText package type name params result := by
  have hback : ∀ c ∈ ')' :: result, Text.isBlank c = false := by
    rw [List.forall_mem_cons]
    exact ⟨by decide, h⟩
  have hend := Text.trimEnd_append (Text.trimEnd_of_no_blank hback) (List.cons_ne_nil _ _)
    (package ++ '/' :: (type ++ '.' :: (name ++ '(' :: [','].intercalate params)))
  have hslash := Text.trim_around (List.cons_ne_nil '/' []) (List.forall_mem_singleton.2 rfl) []
    (package ++ '/' :: (type ++ '.' :: (name ++ '(' :: [','].intercalate params)) ++ ')' :: result)
  rw [hend] at hslash
  simpa [uriText, Text.trimStart] using hslash

/-- The parts of a URI are read as they were put together. -/
theorem ofText_uriText (hpackage : '/' ∉ package) (htype : type ≠ [] ∧ '/' ∉ type ∧ '(' ∉ type)
    (hname : name ≠ [] ∧ '.' ∉ name ∧ '/' ∉ name ∧ '(' ∉ name)
    (hparams : ∀ p ∈ params, '\n' ∉ p) (hresult : ∀ c ∈ result, Text.isBlank c = false) :
    MethodUri.ofText (.ofList (uriText package type name params result)) =
      .ok ⟨none, .ofList package, .ofList type,
        .ofList (name ++ '(' :: ([','].intercalate params ++ ')' :: result))⟩ := by
  rw [MethodUri.ofText_eq_ok_iff, String.toList_ofList, trim_uriText hresult]
  refine .ofLocal ⟨rfl, hpackage, htype.1, htype.2, hname.1, hname.2, fun hmem => ?_⟩
  rcases List.mem_append.1 hmem with hmem | hmem
  · exact Text.not_mem_intercalate (by decide) hparams hmem
  · rcases List.mem_cons.1 hmem with heq | hmem
    · exact absurd heq (by decide)
    · exact absurd (hresult _ hmem) (by decide)

theorem filter_parts_intercalate (h : ∀ p ∈ params, p ≠ [] ∧ ',' ∉ p) :
    (Text.parts ',' ([','].intercalate params)).filter (fun p => !p.isEmpty) = params := by
  rcases eq_or_ne params [] with rfl | hne
  · rfl
  · rw [Text.parts_intercalate (fun p hp => (h p hp).2) hne, List.filter_eq_self]
    intro p hp
    simpa using (h p hp).1

/-- **Encoded signatures are exported with the descriptors of their types.**  The types of the
parameters and of the result are encoded, each character that needs it once to three times; the
method has the descriptors of what they were before, the parameters in order. -/
theorem method?_uriText (hpackage : '/' ∉ package)
    (htype : type ≠ [] ∧ '/' ∉ type ∧ '(' ∉ type)
    (hname : name ≠ [] ∧ '.' ∉ name ∧ '/' ∉ name ∧ '(' ∉ name)
    (hparams : ∀ p ∈ params, p ≠ [] ∧ '%' ∉ p) (hresult : '%' ∉ result)
    (hencoded : List.Forall₂ (Encodes 1 3) params encoded)
    (hencodedResult : Encodes 1 3 result encodedResult) :
    ∃ declaring returned descriptors, DescribesClass package type declaring ∧
      Describes result returned ∧ List.Forall₂ Describes params descriptors ∧
      method? (.ofList (uriText package type name encoded encodedResult)) =
        some { name := .ofList name
               declaringClass := .ofList declaring
               returnType := .ofList returned
               parameterTypes := descriptors.map .ofList } := by
  have hpieces := forall_mem_of_encodes hencoded fun p hp => (hparams p hp).1
  refine ⟨_, _, params.map descriptor, describesClass_iff.2 rfl, describes_descriptor result, ?_,
    ?_⟩
  · exact List.forall₂_map_right_iff.2 (List.forall₂_same.2 fun p _ => describes_descriptor p)
  · have hread := ofText_uriText hpackage htype hname (fun p hp => (hpieces p hp).2.2)
      fun c hc => Text.Percent.isBlank_of_isWritten (hencodedResult.isWritten c hc)
    have hopen : Text.cut '(' (name ++ '(' :: ([','].intercalate encoded ++ ')' :: encodedResult)) =
        some (name, [','].intercalate encoded ++ ')' :: encodedResult) :=
      Text.cut_eq_some.2 ⟨rfl, hname.2.2.2⟩
    have hclose : Text.cutLast ')' ([','].intercalate encoded ++ ')' :: encodedResult) =
        some ([','].intercalate encoded, encodedResult) :=
      Text.cutLast_append_cons (not_mem_of_encodes hencodedResult rfl)
    have hparts := filter_parts_intercalate fun p hp => ⟨(hpieces p hp).1, (hpieces p hp).2.1⟩
    rw [method?, hread]
    simp only [Except.toOption, Option.bind_eq_bind, Option.bind_some, String.toList_ofList, hopen,
      hclose, hparts, typeDescriptor_of_encodes hencodedResult hresult,
      map_typeDescriptor_of_encodes hencoded fun p hp => (hparams p hp).2, Option.pure_def]

/-- Characters of one to three layers beside each other, one of them of two bytes. -/
theorem method?_uriText_layers :
    method? ("/org.acme/Lib$In.find(%2fjava.lang%252FIntegerType%25255B%5d,%2F%25C3%25A9%2FT)" ++
      "%2Fjava.lang%2FVoidType") = some ⟨"find", "Lorg/acme/Lib$In;", "V", ["[I", "Lé/T;"]⟩ := by
  have hkept (s : String) (h : s.toList.all isKept = true) : Encodes 1 3 s.toList s.toList :=
    encodes_self (List.all_eq_true.1 h) (by decide)
  have hslash {n : Nat} (hn : n < 3) : Encodes 1 3 ['/'] (again^[n] ['%', '2', 'F']) :=
    encodes_again rfl (.cons rfl rfl .nil) hn
  have hlower : Encodes 1 3 ['/'] (again^[0] ['%', '2', 'f']) :=
    encodes_again rfl (.cons rfl rfl .nil) (by decide)
  have hopen : Encodes 1 3 ['['] (again^[2] ['%', '5', 'B']) :=
    encodes_again rfl (.cons rfl rfl .nil) (by decide)
  have hclose : Encodes 1 3 [']'] (again^[0] ['%', '5', 'd']) :=
    encodes_again rfl (.cons rfl rfl .nil) (by decide)
  have haccent : Encodes 1 3 ['é'] (again^[1] ['%', 'C', '3', '%', 'A', '9']) :=
    encodes_again rfl (.cons rfl rfl (.cons rfl rfl .nil)) (by decide)
  have hjava := hkept "java.lang" (by decide +kernel)
  have hinteger := hlower.append <| hjava.append <| (hslash (n := 1) (by decide)).append <|
    (hkept "IntegerType" (by decide +kernel)).append <| hopen.append hclose
  have haccented := (hslash (n := 0) (by decide)).append <| haccent.append <|
    (hslash (n := 0) (by decide)).append (hkept "T" (by decide +kernel))
  have hvoid := (hslash (n := 0) (by decide)).append <| hjava.append <|
    (hslash (n := 0) (by decide)).append (hkept "VoidType" (by decide +kernel))
  obtain ⟨declaring, returned, descriptors, hdeclaring, hreturned, hdescriptors, h⟩ :=
    method?_uriText (show '/' ∉ "org.acme".toList by decide +kernel)
      (show "Lib$In".toList ≠ [] ∧ '/' ∉ "Lib$In".toList ∧ '(' ∉ "Lib$In".toList by
        decide +kernel)
      (show "find".toList ≠ [] ∧ '.' ∉ "find".toList ∧ '/' ∉ "find".toList ∧ '(' ∉ "find".toList by
        decide +kernel) (by decide +kernel) (by decide +kernel)
      (.cons hinteger (.cons haccented .nil)) hvoid
  rw [describesClass_iff] at hdeclaring
  rw [describes_iff] at hreturned
  simp only [List.forall₂_cons_left_iff, List.forall₂_nil_left_iff, describes_iff] at hdescriptors
  obtain ⟨_, _, rfl, ⟨_, _, rfl, rfl, rfl⟩, rfl⟩ := hdescriptors
  rw [hdeclaring, hreturned] at h
  refine Eq.trans (congrArg method? ?_) (h.trans ?_) <;> decide +kernel

end Stitch.Jcg
