/-
Paths of files in a folder.

A name without a slash put behind a path goes through the names of the path and then
itself (`names_join`), unless it is empty or a dot (`names_of_not_mem`).  The name of a
file (`Path.IsFileName`) is neither, and its own last piece decides how the path ends
(`endsInSlash_join`, `endsInDot_join`).  `extension?_append` finds the extension of a
name with one.
-/
import Stitch.Files.Path
import Stitch.Proofs.Text.Split

namespace Stitch

namespace Path

/-- The name of a file: not empty, not a dot, and without slashes and zero bytes. -/
@[mk_iff]
structure IsFileName (name : String) : Prop where
  slash : '/' ∉ name.toList
  zero : '\x00' ∉ name.toList
  ne_empty : name ≠ ""
  ne_dot : name ≠ "."
  ne_dots : name ≠ ".."

instance : DecidablePred IsFileName := fun name => decidable_of_iff _ (isFileName_iff name).symm

variable {folder : Path} {name : String}

/-! ### Names without slashes -/

section Names

variable (h : '/' ∉ name.toList)
include h

theorem isAbsolute_of_not_mem : (⟨name⟩ : Path).isAbsolute = false := by
  refine beq_eq_false_iff_ne.2 fun hhead => h ?_
  exact List.mem_of_mem_head? (by simp [hhead])

theorem names_of_not_mem :
    (⟨name⟩ : Path).names = if name = "" ∨ name = "." then [] else [name] := by
  have hdot : name.toList = ['.'] ↔ name = "." := by
    rw [← String.toList_inj]
    rfl
  rw [names, pieces, Text.parts_of_not_mem h]
  by_cases hname : name = "" ∨ name = "."
  · rw [if_pos hname]
    rcases hname with rfl | rfl <;> rfl
  · rw [if_neg hname]
    rw [not_or] at hname
    simp [hname.1, hdot, hname.2]

/-- The text of a path behind a folder's path: with a slash between them, unless
there is one or the folder's path is empty. -/
theorem exists_text_join (folder : Path) :
    ∃ before, (folder.join ⟨name⟩).text.toList = before ++ name.toList ∧
      (before = [] ∧ folder.text.toList = [] ∨
        ∃ init, before = init ++ ['/'] ∧
          (folder.text.toList = before ∨ folder.text.toList = init)) := by
  by_cases hempty : folder.text = ""
  · refine ⟨[], ?_, .inl ⟨rfl, by simp [hempty]⟩⟩
    simp [join, isAbsolute_of_not_mem h, hempty]
  · by_cases hslash : folder.endsInSlash
    · obtain ⟨init, hinit⟩ := List.getLast?_eq_some_iff.1 (by simpa [endsInSlash] using hslash)
      refine ⟨folder.text.toList, ?_, .inr ⟨init, hinit, .inl rfl⟩⟩
      simp [join, isAbsolute_of_not_mem h, hslash]
    · refine ⟨folder.text.toList ++ ['/'], ?_, .inr ⟨_, rfl, .inr rfl⟩⟩
      simp [join, isAbsolute_of_not_mem h, hempty, hslash]

/-- The pieces of a path behind a folder's: those of the folder's, up to empty ones, and
the name. -/
theorem exists_pieces_join (folder : Path) :
    ∃ pieces, (folder.join ⟨name⟩).pieces = pieces ++ [name.toList] ∧
      pieces.filter (fun piece => piece ≠ [] && piece ≠ ['.']) =
        folder.pieces.filter fun piece => piece ≠ [] && piece ≠ ['.'] := by
  have hname := Text.parts_of_not_mem h
  obtain ⟨before, htext, ⟨rfl, hfolder⟩ | ⟨init, rfl, hfolder | hfolder⟩⟩ :=
    exists_text_join h folder
  · refine ⟨[], ?_, by simp [pieces, hfolder]⟩
    rw [pieces, htext, List.nil_append, hname, List.nil_append]
  · refine ⟨Text.parts '/' init, ?_, ?_⟩
    · rw [pieces, htext, List.append_assoc, List.singleton_append, Text.parts_append_cons, hname]
    · rw [pieces, hfolder, Text.parts_append_cons, List.filter_append]
      simp
  · refine ⟨Text.parts '/' init, ?_, by rw [pieces, hfolder]⟩
    rw [pieces, htext, List.append_assoc, List.singleton_append, Text.parts_append_cons, hname]

theorem names_join : (folder.join ⟨name⟩).names = folder.names ++ (⟨name⟩ : Path).names := by
  obtain ⟨pieces, hpieces, hfilter⟩ := exists_pieces_join h folder
  have hname : (⟨name⟩ : Path).pieces = [name.toList] := Text.parts_of_not_mem h
  rw [names, names, names, hpieces, List.filter_append, hfilter, List.map_append, hname]

theorem isAbsolute_join : (folder.join ⟨name⟩).isAbsolute = folder.isAbsolute := by
  have hname := isAbsolute_of_not_mem h
  by_cases hempty : folder.text = ""
  · have hfolder : folder.isAbsolute = false := by simp [isAbsolute, hempty]
    rw [hfolder, ← hname]
    simp [join, hname, hempty]
  · have hne : folder.text.toList ≠ [] := fun heq => hempty (by simpa using heq)
    have htext : ∃ cs, (folder.join ⟨name⟩).text.toList = folder.text.toList ++ cs := by
      by_cases hslash : folder.endsInSlash <;> simp [join, hname, hempty, hslash]
    obtain ⟨cs, hcs⟩ := htext
    rw [isAbsolute, hcs, List.head?_append_of_ne_nil _ hne, isAbsolute]

end Names

/-! ### Names of files -/

theorem IsFileName.names (h : IsFileName name) : (⟨name⟩ : Path).names = [name] := by
  rw [names_of_not_mem h.slash, if_neg (by simp [h.ne_empty, h.ne_dot])]

theorem text_join_ne_empty (h : IsFileName name) : (folder.join ⟨name⟩).text ≠ "" := by
  obtain ⟨before, htext, -⟩ := exists_text_join h.slash folder
  intro hempty
  have hboth : before ++ name.toList = [] := by simpa [hempty] using htext.symm
  exact h.ne_empty (by simpa using (List.append_eq_nil_iff.1 hboth).2)

theorem zero_not_mem_join (h : IsFileName name) (hfolder : '\x00' ∉ folder.text.toList) :
    '\x00' ∉ (folder.join ⟨name⟩).text.toList := by
  obtain ⟨before, htext, ⟨rfl, -⟩ | ⟨init, rfl, hinit | hinit⟩⟩ :=
    exists_text_join h.slash folder
  · simpa [htext] using h.zero
  · rw [hinit] at hfolder
    rw [htext, List.mem_append, not_or]
    exact ⟨hfolder, h.zero⟩
  · rw [hinit] at hfolder
    simp [htext, hfolder, h.zero]

theorem endsInSlash_join (h : IsFileName name) : (folder.join ⟨name⟩).endsInSlash = false := by
  obtain ⟨before, htext, -⟩ := exists_text_join h.slash folder
  refine beq_eq_false_iff_ne.2 fun hlast => h.slash ?_
  have hne : name.toList ≠ [] := fun heq => h.ne_empty (by simpa using heq)
  rw [htext, List.getLast?_append_of_ne_nil _ hne] at hlast
  exact List.mem_of_getLast? hlast

theorem endsInDot_join (h : IsFileName name) : (folder.join ⟨name⟩).endsInDot = false := by
  obtain ⟨pieces, hpieces, -⟩ := exists_pieces_join h.slash folder
  refine beq_eq_false_iff_ne.2 fun hlast => h.ne_dot ?_
  rw [hpieces, List.getLast?_concat] at hlast
  rw [← String.ofList_toList (s := name), Option.some.inj hlast]

theorem extension?_append {stem ending : String} (hstem : stem ≠ "") (h : '.' ∉ ending.toList) :
    extension? (stem ++ "." ++ ending) = some ending := by
  have htext : (stem ++ "." ++ ending).toList = stem.toList ++ '.' :: ending.toList := by simp
  have hne : stem.toList.isEmpty = false := by simpa using hstem
  rw [extension?, splitName, htext, Text.cutLast_append_cons h]
  simp [hne]

end Path

end Stitch
