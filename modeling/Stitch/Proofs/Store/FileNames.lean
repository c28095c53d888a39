/-
The names of stored graphs' files tell coordinates apart.

A percent code begins with a percent sign, which no kept byte is, so a text is
determined by its codes (`Percent.encode_injective`).  Codes and kept bytes have no
underscore, so the four fields of a coordinate are found again between the
underscores of its stem:

* **`stem_injective`**: different coordinates have different stems.
* `fileName_inj`: with an extension, the coordinate and the extension are told apart.
* `isFileName_fileName`: a stem with an extension is the name of a file.
-/
import Stitch.Proofs.Files.Path
import Stitch.Store.Directory

namespace Stitch

/-! ### Percent codes -/

namespace Text

theorem Hex.digit?_toUpper_digitChar {n : Nat} (h : n < 16) :
    Hex.digit? n.digitChar.toUpper = some n := by
  have hall : ∀ n < 16, Hex.digit? n.digitChar.toUpper = some n := by decide
  exact hall n h

theorem Hex.upperDigits_injective : Function.Injective Hex.upperDigits := by
  intro b b' h
  simp only [upperDigits, lowerDigits, List.map_cons, List.map_nil, List.cons.injEq, and_true] at h
  have hb := b.toNat_lt
  have hb' := b'.toNat_lt
  have hhigh := congrArg Hex.digit? h.1
  have hlow := congrArg Hex.digit? h.2
  rw [digit?_toUpper_digitChar (by omega), digit?_toUpper_digitChar (by omega),
    Option.some.injEq] at hhigh hlow
  exact UInt8.toNat_inj.1 (by omega)

namespace Percent

variable {keep : UInt8 → Bool}

/-- How one byte is written. -/
def code (keep : UInt8 → Bool) (b : UInt8) : List Char :=
  if keep b then [Char.ofNat b.toNat] else '%' :: Hex.upperDigits b

theorem code_of_keep {b : UInt8} (h : keep b = true) : code keep b = [Char.ofNat b.toNat] :=
  if_pos h

theorem code_of_not_keep {b : UInt8} (h : keep b = false) :
    code keep b = '%' :: Hex.upperDigits b :=
  if_neg (by simp [h])

theorem toNat_ofNat_toNat (b : UInt8) : (Char.ofNat b.toNat).toNat = b.toNat := by
  have hvalid : b.toNat.isValidChar := .inl (Nat.lt_trans b.toNat_lt (by decide))
  rw [Char.ofNat, dif_pos hvalid]
  rfl

theorem eq_of_ofNat_toNat_eq {b b' : UInt8} (h : Char.ofNat b.toNat = Char.ofNat b'.toNat) :
    b = b' :=
  UInt8.toNat_inj.1 (by rw [← toNat_ofNat_toNat b, h, toNat_ofNat_toNat b'])

/-- Codes are told apart by their beginning, so they can be put one behind the other. -/
theorem code_append_inj (hmark : keep mark = false) {b b' : UInt8} {cs cs' : List Char}
    (h : code keep b ++ cs = code keep b' ++ cs') : b = b' ∧ cs = cs' := by
  -- A byte that is kept does not look like the beginning of a code.
  have hkept : ∀ {b : UInt8}, keep b = true → Char.ofNat b.toNat ≠ '%' := by
    rintro b hb heq
    have hbyte : b = mark := eq_of_ofNat_toNat_eq heq
    rw [hbyte, hmark] at hb
    cases hb
  cases hb : keep b <;> cases hb' : keep b'
  · rw [code_of_not_keep hb, code_of_not_keep hb'] at h
    obtain ⟨hcodes, hrest⟩ := List.append_inj h rfl
    exact ⟨Hex.upperDigits_injective (List.cons.inj hcodes).2, hrest⟩
  · rw [code_of_not_keep hb, code_of_keep hb'] at h
    exact absurd (List.cons.inj h).1.symm (hkept hb')
  · rw [code_of_keep hb, code_of_not_keep hb'] at h
    exact absurd (List.cons.inj h).1 (hkept hb)
  · rw [code_of_keep hb, code_of_keep hb'] at h
    exact ⟨eq_of_ofNat_toNat_eq (List.cons.inj h).1, (List.cons.inj h).2⟩

theorem flatMap_code_injective (hmark : keep mark = false) :
    Function.Injective (List.flatMap (code keep)) := by
  intro bs bs' h
  have hne : ∀ b, code keep b ≠ [] := fun b => by
    rw [code]
    split <;> simp
  induction bs generalizing bs' with
  | nil =>
    cases bs' with
    | nil => rfl
    | cons b' bs' =>
      rw [List.flatMap_nil, List.flatMap_cons, eq_comm, List.append_eq_nil_iff] at h
      exact absurd h.1 (hne b')
  | cons b bs ih =>
    cases bs' with
    | nil =>
      rw [List.flatMap_nil, List.flatMap_cons, List.append_eq_nil_iff] at h
      exact absurd h.1 (hne b)
    | cons b' bs' =>
      rw [List.flatMap_cons, List.flatMap_cons] at h
      obtain ⟨rfl, hrest⟩ := code_append_inj hmark h
      rw [ih hrest]

theorem toList_encode (s : String) :
    (encode keep s).toList = (Utf8.bytes s).flatMap (code keep) :=
  String.toList_ofList

theorem encode_injective (hmark : keep mark = false) : Function.Injective (encode keep) := by
  intro s t h
  have hcodes := congrArg String.toList h
  rw [toList_encode, toList_encode] at hcodes
  exact Utf8.eq_of_bytes_eq (flatMap_code_injective hmark hcodes)

end Percent

end Text

/-! ### Stems -/

namespace DirectoryStore

/-- The characters that a field is written with. -/
def isFieldChar (c : Char) : Bool := c.isAlphanum || c = '.' || c = '-' || c = '%'

theorem isFieldChar_of_mem_encode {s : String} {c : Char}
    (h : c ∈ (Text.Percent.encode isPlain s).toList) : isFieldChar c := by
  rw [Text.Percent.toList_encode] at h
  obtain ⟨b, -, hc⟩ := List.mem_flatMap.1 h
  cases hplain : isPlain b with
  | true =>
    rw [Text.Percent.code_of_keep hplain, List.mem_singleton] at hc
    rw [isPlain] at hplain
    rw [isFieldChar, hc, hplain, Bool.true_or]
  | false =>
    have hdigit : ∀ n < 16, isFieldChar n.digitChar.toUpper := by decide
    have hb := b.toNat_lt
    rw [Text.Percent.code_of_not_keep hplain] at hc
    simp only [Text.Hex.upperDigits, Text.Hex.lowerDigits, List.map_cons, List.map_nil,
      List.mem_cons, List.not_mem_nil, or_false] at hc
    rcases hc with rfl | rfl | rfl
    · rfl
    · exact hdigit _ (by omega)
    · exact hdigit _ (by omega)

/-- The four fields of a coordinate as they are written. -/
def fields (c : Coordinate) : List (List Char) :=
  [c.forge, c.artifact.group, c.artifact.name, c.version].map fun field =>
    (Text.Percent.encode isPlain field).toList

theorem isFieldChar_of_mem_fields {c : Coordinate} {field : List Char} {d : Char}
    (hfield : field ∈ fields c) (hd : d ∈ field) : isFieldChar d := by
  obtain ⟨s, -, rfl⟩ := List.mem_map.1 hfield
  exact isFieldChar_of_mem_encode hd

theorem toList_stem (c : Coordinate) : (stem c).toList = ['_'].intercalate (fields c) := by
  rw [stem, String.toList_intercalate, List.map_map]
  rfl

/-- Different coordinates have different stems. -/
theorem stem_injective : Function.Injective stem := by
  intro c c' h
  have hsplit (c : Coordinate) : (stem c).toList.splitOn '_' = fields c := by
    rw [toList_stem]
    refine List.splitOn_intercalate '_' (fun field hfield hmem => ?_) (by simp [fields])
    exact absurd (isFieldChar_of_mem_fields hfield hmem) (by decide)
  have hfields : fields c = fields c' := by rw [← hsplit, h, hsplit]
  have hinj {s t : String} (hst : (Text.Percent.encode isPlain s).toList =
      (Text.Percent.encode isPlain t).toList) : s = t :=
    Text.Percent.encode_injective (by decide) (String.toList_inj.1 hst)
  simp only [fields, List.map_cons, List.map_nil, List.cons.injEq, and_true] at hfields
  obtain ⟨hforge, hgroup, hname, hversion⟩ := hfields
  obtain ⟨forge, ⟨group, name⟩, version⟩ := c
  obtain ⟨forge', ⟨group', name'⟩, version'⟩ := c'
  simp only [Coordinate.mk.injEq, Artifact.mk.injEq]
  exact ⟨hinj hforge, ⟨hinj hgroup, hinj hname⟩, hinj hversion⟩

/-! ### Files -/

/-- The name of a coordinate's file with an extension. -/
def fileName (c : Coordinate) (ending : String) : String := stem c ++ "." ++ ending

theorem pathOf_eq_join (s : DirectoryStore) (c : Coordinate) (ending : String) :
    s.pathOf c ending = s.root.join ⟨fileName c ending⟩ := rfl

theorem eq_underscore_or_isFieldChar_of_mem_stem {c : Coordinate} {d : Char}
    (h : d ∈ (stem c).toList) : d = '_' ∨ isFieldChar d := by
  have hfield := @isFieldChar_of_mem_fields c
  rw [toList_stem] at h
  simp only [fields, List.map_cons, List.map_nil, List.intercalate, List.intersperse_cons_cons,
    List.intersperse_singleton, List.flatten_cons, List.flatten_nil, List.append_nil,
    List.mem_append, List.mem_singleton] at h hfield
  rcases h with h | h | h | h | h | h | h
  · exact .inr (hfield (by simp) h)
  · exact .inl h
  · exact .inr (hfield (by simp) h)
  · exact .inl h
  · exact .inr (hfield (by simp) h)
  · exact .inl h
  · exact .inr (hfield (by simp) h)

theorem stem_ne_empty (c : Coordinate) : stem c ≠ "" := by
  intro h
  have htext := toList_stem c
  rw [h] at htext
  simp [fields, List.intercalate] at htext

/-- The extensions that files are given. -/
def extensions : List String := [graphExtension, documentExtension, stagingExtension]

theorem extension?_fileName {c : Coordinate} {ending : String} (h : ending ∈ extensions) :
    Path.extension? (fileName c ending) = some ending := by
  have hdot : ∀ ending ∈ extensions, '.' ∉ ending.toList := by decide
  exact Path.extension?_append (stem_ne_empty c) (hdot ending h)

theorem fileName_inj {c c' : Coordinate} {ending ending' : String} (h : ending ∈ extensions)
    (h' : ending' ∈ extensions) (heq : fileName c ending = fileName c' ending') :
    c = c' ∧ ending = ending' := by
  have hending : ending = ending' := by
    have := extension?_fileName (c := c) h
    rw [heq, extension?_fileName h'] at this
    exact (Option.some.inj this).symm
  subst hending
  refine ⟨stem_injective ?_, rfl⟩
  rw [fileName, fileName, String.append_assoc, String.append_assoc] at heq
  exact String.append_left_inj ("." ++ ending) |>.1 heq

theorem fileName_ne {c c' : Coordinate} {ending ending' : String} (h : ending ∈ extensions)
    (h' : ending' ∈ extensions) (hne : c ≠ c' ∨ ending ≠ ending') :
    fileName c ending ≠ fileName c' ending' := by
  intro heq
  obtain ⟨hc, hending⟩ := fileName_inj h h' heq
  exact hne.elim (absurd hc) (absurd hending)

theorem isFileName_fileName {c : Coordinate} {ending : String} (h : ending ∈ extensions) :
    Path.IsFileName (fileName c ending) := by
  have hending : ∀ ending ∈ extensions, '/' ∉ ending.toList ∧ '\x00' ∉ ending.toList ∧
      ∀ name ∈ ["", ".", ".."], Path.extension? name ≠ some ending := by decide
  obtain ⟨hslash, hzero, hnames⟩ := hending ending h
  have hchar (d : Char) (hd : d ∉ ending.toList) (hdot : d ≠ '.')
      (hfield : ¬(d = '_' ∨ isFieldChar d)) : d ∉ (fileName c ending).toList := by
    have hstem : d ∉ (stem c).toList := fun hmem =>
      hfield (eq_underscore_or_isFieldChar_of_mem_stem hmem)
    simp [fileName, hstem, hdot, hd]
  -- None of the names that are kept for folders has such an extension.
  have hne (name : String) (hname : name ∈ ["", ".", ".."]) : fileName c ending ≠ name :=
    fun heq => hnames name hname (heq ▸ extension?_fileName h)
  exact ⟨hchar '/' hslash (by decide) (by decide), hchar '\x00' hzero (by decide) (by decide),
    hne "" (by simp), hne "." (by simp), hne ".." (by simp)⟩

end DirectoryStore

end Stitch
