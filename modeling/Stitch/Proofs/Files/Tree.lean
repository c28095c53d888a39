/-
The files in one folder of a tree.

`IsFolder t path place` says that a path leads to a folder at a place; `entryIn` is
what the tree has under a name there.  For the path of a file in that folder the
operations of the tree come down to look-ups and changes of `entryIn`, unless the
name is too long:

* `locate_join`, `find_join`, `read_join`, `write_join` and `move_join` say what the
  operations do, `mem_namesIn` and `nodup_namesIn` what is listed;
* a file that is written or taken away leaves every folder where it is
  (`IsFolder.setEntry`, `IsFolder.eraseIn`);
* `Gains` says that a folder has a file more and is otherwise the same, as after a file
  was written (`gains_setEntry`), also if it got another name then (`Gains.rename`).
-/
import Mathlib.Data.List.Nodup
import Stitch.Files.Tree
import Stitch.Proofs.Files.Path
import Stitch.Proofs.SortedMap
import Stitch.Proofs.Steps

namespace Stitch.FileTree

variable {t t' : FileTree} {path : Path} {place : Location} {name other : String}
  {bytes : List UInt8}

/-- A path leads to a folder. -/
structure IsFolder (t : FileTree) (path : Path) (place : Location) : Prop where
  locate : t.locate path = .ok place
  entry : t.entry? place = some .folder

/-- What the tree has under a name in a folder. -/
def entryIn (t : FileTree) (place : Location) (name : String) : Option FileEntry :=
  t.entries.get? (place ++ [name])

/-- A name that is not too long. -/
def IsShort (name : String) : Prop := (Text.Utf8.bytes name).length ≤ nameLimit

instance : DecidablePred IsShort := fun _ => Nat.decLe _ _

theorem entry?_concat (t : FileTree) (place : Location) (name : String) :
    t.entry? (place ++ [name]) = t.entryIn place name := by
  simp [entryIn, FileTree.entry?]

/-! ### Paths of files -/

theorem step_of_folder (h : t.entry? place = some .folder) (hname : name ≠ "..") :
    t.step place name = if IsShort name then .ok (place ++ [name]) else .error .nameTooLong := by
  rw [step, h]
  by_cases hshort : IsShort name
  · rw [if_pos hshort, if_neg hname, if_neg (Nat.not_lt.2 hshort)]
  · rw [if_neg hshort, if_neg hname, if_pos (Nat.not_le.1 hshort)]

theorem text_of_locate_eq_ok (h : t.locate path = .ok place) :
    path.text ≠ "" ∧ '\x00' ∉ path.text.toList := by
  rw [locate] at h
  split at h
  · cases h
  next hempty =>
    split at h
    · cases h
    next hzero => exact ⟨by simpa using hempty, by simpa using hzero⟩

theorem locate_of_text (htext : path.text ≠ "") (hzero : '\x00' ∉ path.text.toList) :
    t.locate path = path.names.foldlM t.step (if path.isAbsolute then [] else t.workingFolder) := by
  rw [locate, if_neg (by simpa using htext), if_neg (by simpa using hzero)]

section Files

variable (h : IsFolder t path place) (hname : Path.IsFileName name)
include h hname

theorem locate_join :
    t.locate (path.join ⟨name⟩) =
      if IsShort name then .ok (place ++ [name]) else .error .nameTooLong := by
  obtain ⟨htext, hzero⟩ := text_of_locate_eq_ok h.locate
  have hfolder := h.locate
  rw [locate_of_text htext hzero] at hfolder
  rw [locate_of_text (Path.text_join_ne_empty hname) (Path.zero_not_mem_join hname hzero),
    Path.names_join hname.slash, hname.names, Path.isAbsolute_join hname.slash,
    List.foldlM_append, hfolder]
  show t.step place name >>= pure = _
  rw [bind_pure, step_of_folder h.entry hname.ne_dots]

theorem find_join (hshort : IsShort name) :
    t.find (path.join ⟨name⟩) =
      match t.entryIn place name with
      | none => .error .notFound
      | some entry => .ok entry := by
  have hplace : t.locate (path.join ⟨name⟩) = .ok (place ++ [name]) := by
    rw [locate_join h hname, if_pos hshort]
  simp only [find, hplace, bind, Except.bind, entry?_concat]
  cases t.entryIn place name with
  | none => rfl
  | some entry =>
    cases entry with
    | folder => rfl
    | file bytes => simp [Path.endsInSlash_join hname, Path.endsInDot_join hname]

/-- A name that is too long leads nowhere. -/
theorem find_join_of_not_isShort (hlong : ¬IsShort name) :
    t.find (path.join ⟨name⟩) = .error .nameTooLong := by
  rw [find, locate_join h hname, if_neg hlong]
  rfl

theorem read_join (hfile : t.entryIn place name = some (.file bytes)) (hshort : IsShort name) :
    t.read (path.join ⟨name⟩) = .ok bytes := by
  rw [read, find_join h hname hshort, hfile]
  rfl

theorem write_join (hentry : t.entryIn place name ≠ some .folder) (hshort : IsShort name) :
    t.write (path.join ⟨name⟩) bytes = .ok (t.setEntry (place ++ [name]) (.file bytes)) := by
  have hplace : t.locate (path.join ⟨name⟩) = .ok (place ++ [name]) := by
    rw [locate_join h hname, if_pos hshort]
  simp only [write, hplace, bind, Except.bind, entry?_concat]
  cases hfound : t.entryIn place name with
  | none => simp [Path.endsInSlash_join hname, Path.endsInDot_join hname]
  | some entry =>
    cases entry with
    | folder => exact absurd hfound hentry
    | file bytes => simp [Path.endsInSlash_join hname, Path.endsInDot_join hname]

theorem write_join_of_not_isShort (hlong : ¬IsShort name) :
    t.write (path.join ⟨name⟩) bytes = .error .nameTooLong := by
  rw [write, locate_join h hname, if_neg hlong]
  rfl

/-- The tree without the entry of a name in a folder. -/
def eraseIn (t : FileTree) (place : Location) (name : String) : FileTree :=
  { t with entries := t.entries.erase (place ++ [name]) }

theorem remove_join (hfile : t.entryIn place name = some (.file bytes)) (hshort : IsShort name) :
    t.remove (path.join ⟨name⟩) = .ok (t.eraseIn place name) := by
  have hplace : t.locate (path.join ⟨name⟩) = .ok (place ++ [name]) := by
    rw [locate_join h hname, if_pos hshort]
  rw [remove, find_join h hname hshort, hfile]
  simp only [hplace, bind, Except.bind]
  rfl

end Files

/-! ### Names in a folder -/

theorem find_eq_ok_folder_iff : t.find path = .ok .folder ↔ ∃ place, IsFolder t path place := by
  rw [find]
  cases hplace : t.locate path with
  | error fault =>
    refine ⟨fun h => (by cases h), ?_⟩
    rintro ⟨p, hp⟩
    rw [hp.locate] at hplace
    cases hplace
  | ok place =>
    have hiff : (∃ p, IsFolder t path p) ↔ t.entry? place = some .folder := by
      constructor
      · rintro ⟨p, hp⟩
        rw [hp.locate, Except.ok.injEq] at hplace
        exact hplace ▸ hp.entry
      · exact fun hentry => ⟨place, hplace, hentry⟩
    rw [hiff]
    simp only [bind, Except.bind]
    cases t.entry? place with
    | none => simp
    | some entry =>
      cases entry with
      | folder => simp
      | file bytes => by_cases hend : path.endsInSlash || path.endsInDot <;> simp [hend]

theorem list_of_isFolder (h : IsFolder t path place) : t.list path = .ok (t.namesIn place) := by
  rw [list, find_eq_ok_folder_iff.2 ⟨place, h⟩, h.locate]
  rfl

theorem exists_isFolder_of_list_eq_ok {names : List String} (h : t.list path = .ok names) :
    ∃ place, IsFolder t path place ∧ t.namesIn place = names := by
  have hfind : t.find path = .ok .folder := by
    rw [list] at h
    cases hfound : t.find path with
    | error fault => rw [hfound] at h; cases h
    | ok entry =>
      cases entry with
      | folder => rfl
      | file bytes => rw [hfound] at h; cases h
  obtain ⟨place, hplace⟩ := find_eq_ok_folder_iff.1 hfind
  rw [list_of_isFolder hplace, Except.ok.injEq] at h
  exact ⟨place, hplace, h⟩

theorem getLast?_eq_some_of_dropLast_eq {key : Location} :
    (if key.dropLast = place then key.getLast? else none) = some name ↔ key = place ++ [name] := by
  constructor
  · intro h
    split at h
    next hplace =>
      obtain ⟨front, rfl⟩ := List.getLast?_eq_some_iff.1 h
      rw [List.dropLast_concat] at hplace
      rw [hplace]
    · cases h
  · rintro rfl
    simp

theorem mem_namesIn : name ∈ t.namesIn place ↔ (t.entryIn place name).isSome := by
  rw [namesIn, List.mem_filterMap, entryIn, ← SortedMap.mem_keys_iff]
  constructor
  · rintro ⟨key, hkey, hname⟩
    exact getLast?_eq_some_of_dropLast_eq.1 hname ▸ hkey
  · exact fun hkey => ⟨_, hkey, getLast?_eq_some_of_dropLast_eq.2 rfl⟩

theorem nodup_namesIn (t : FileTree) (place : Location) : (t.namesIn place).Nodup := by
  refine List.Nodup.filterMap (fun key key' name hname hname' => ?_)
    (SortedMap.nodup_keys t.entries)
  rw [getLast?_eq_some_of_dropLast_eq.1 hname, getLast?_eq_some_of_dropLast_eq.1 hname']

/-! ### Changes of files -/

/-- Where all folders are still there, a path leads where it did. -/
theorem locate_mono (hfolders : ∀ p, t.entry? p = some .folder → t'.entry? p = some .folder)
    (hworking : t'.workingFolder = t.workingFolder) (h : t.locate path = .ok place) :
    t'.locate path = .ok place := by
  have hstep : ∀ p name q, t.step p name = .ok q → t'.step p name = .ok q := by
    intro p name q hq
    rw [step] at hq
    split at hq
    · cases hq
    · cases hq
    next hentry => rwa [step, hfolders p hentry]
  have hwalk : ∀ (names : List String) p q,
      names.foldlM t.step p = .ok q → names.foldlM t'.step p = .ok q := by
    intro names
    induction names with
    | nil => exact fun p q hq => hq
    | cons name names ih =>
      intro p q hq
      rw [List.foldlM_cons] at hq
      obtain ⟨next, hnext, hrest⟩ := exists_of_bind_eq_ok hq
      rw [List.foldlM_cons, hstep p name next hnext]
      exact ih next q hrest
  obtain ⟨htext, hzero⟩ := text_of_locate_eq_ok h
  rw [locate_of_text htext hzero, hworking]
  exact hwalk _ _ _ (by rw [← locate_of_text htext hzero, h])

/-- Folders that are still there are reached by the same paths. -/
theorem IsFolder.mono (h : IsFolder t path place)
    (hfolders : ∀ p, t.entry? p = some .folder → t'.entry? p = some .folder)
    (hworking : t'.workingFolder = t.workingFolder) : IsFolder t' path place :=
  ⟨locate_mono hfolders hworking h.locate, hfolders place h.entry⟩

theorem entry?_setEntry {entry : FileEntry} (hplace : place ≠ []) (p : Location) :
    FileTree.entry? (t.setEntry place entry) p = if p = place then some entry else t.entry? p := by
  cases p with
  | nil => rw [if_neg (Ne.symm hplace)]; rfl
  | cons name names => exact SortedMap.get?_alter t.entries place (name :: names) _

theorem ne_nil_of_ne_folder (h : t.entry? place ≠ some .folder) : place ≠ [] := by
  rintro rfl
  exact h rfl

/-- Where no folder is, a file may be written: the folders stay. -/
theorem folder_of_setEntry (h : t.entry? place ≠ some .folder) {p : Location}
    (hp : t.entry? p = some .folder) :
    FileTree.entry? (t.setEntry place (.file bytes)) p = some .folder := by
  have hne : p ≠ place := fun heq => h (heq ▸ hp)
  rw [entry?_setEntry (ne_nil_of_ne_folder h), if_neg hne, hp]

theorem entryIn_setEntry {entry : FileEntry} :
    (t.setEntry (place ++ [name]) entry).entryIn place other =
      if other = name then some entry else t.entryIn place other := by
  rw [entryIn, setEntry, SortedMap.insert, SortedMap.get?_alter]
  simp [entryIn]

theorem entryIn_eraseIn :
    (t.eraseIn place name).entryIn place other =
      if other = name then none else t.entryIn place other := by
  rw [entryIn, eraseIn, SortedMap.get?_erase]
  simp [entryIn]

theorem IsFolder.setEntry (h : IsFolder t path place)
    (hentry : t.entryIn place name ≠ some .folder) :
    IsFolder (t.setEntry (place ++ [name]) (.file bytes)) path place :=
  h.mono (fun _ hp => folder_of_setEntry (by rwa [entry?_concat]) hp) rfl

/-- Where no folder is, nothing but a file is taken away: the folders stay. -/
theorem IsFolder.eraseIn (h : IsFolder t path place)
    (hentry : t.entryIn place name ≠ some .folder) :
    IsFolder (t.eraseIn place name) path place := by
  refine h.mono (fun p hp => ?_) rfl
  have hne : p ≠ place ++ [name] := fun heq => hentry (by rw [← entry?_concat, ← heq, hp])
  rw [FileTree.entry?] at hp ⊢
  rw [FileTree.eraseIn, SortedMap.get?_erase, if_neg hne]
  exact hp

/-- A folder that has gained a file. -/
structure Gains (path : Path) (place : Location) (name : String) (bytes : List UInt8)
    (t t' : FileTree) : Prop where
  isFolder : IsFolder t' path place
  entry : t'.entryIn place name = some (.file bytes)
  other : ∀ other, other ≠ name → t'.entryIn place other = t.entryIn place other

theorem gains_setEntry (h : IsFolder t path place) (hentry : t.entryIn place name ≠ some .folder) :
    Gains path place name bytes t (t.setEntry (place ++ [name]) (.file bytes)) where
  isFolder := h.setEntry hentry
  entry := by rw [entryIn_setEntry, if_pos rfl]
  other other hne := by rw [entryIn_setEntry, if_neg hne]

/-- A file is moved to the place of another file, or to where nothing was. -/
theorem move_join (h : IsFolder t path place) (hname : Path.IsFileName name)
    (hother : Path.IsFileName other) (hne : other ≠ name)
    (hfile : t.entryIn place name = some (.file bytes)) (hshort : IsShort name)
    (hentry : t.entryIn place other ≠ some .folder) (hshort' : IsShort other) :
    t.move (path.join ⟨name⟩) (path.join ⟨other⟩) =
      .ok ((t.eraseIn place name).setEntry (place ++ [other]) (.file bytes)) := by
  have hfolder : IsFolder (t.eraseIn place name) path place := h.eraseIn (by simp [hfile])
  have hwrite : (t.eraseIn place name).write (path.join ⟨other⟩) bytes = _ :=
    write_join hfolder hother (by rwa [entryIn_eraseIn, if_neg hne]) hshort'
  rw [move, read_join h hname hfile hshort, remove_join h hname hfile hshort]
  exact hwrite

/-- A file that is moved to its name after it was written under another one is gained
under that name only. -/
theorem Gains.rename (h : Gains path place name bytes t t') (hname : t.entryIn place name = none)
    (hother : t.entryIn place other = none) (hne : other ≠ name) :
    Gains path place other bytes t
      ((t'.eraseIn place name).setEntry (place ++ [other]) (.file bytes)) := by
  have hfolder : IsFolder (t'.eraseIn place name) path place :=
    h.isFolder.eraseIn (by simp [h.entry])
  have habsent : (t'.eraseIn place name).entryIn place other = none := by
    rw [entryIn_eraseIn, if_neg hne, h.other other hne, hother]
  have hmoved : Gains path place other bytes (t'.eraseIn place name) _ :=
    gains_setEntry hfolder (by simp [habsent])
  refine ⟨hmoved.isFolder, hmoved.entry, fun file hfile => ?_⟩
  rw [hmoved.other file hfile, entryIn_eraseIn]
  by_cases hstaged : file = name
  · rw [if_pos hstaged, hstaged, hname]
  · rw [if_neg hstaged, h.other file hstaged]

theorem move_join_of_not_isShort (h : IsFolder t path place) (hname : Path.IsFileName name)
    (hother : Path.IsFileName other) (hfile : t.entryIn place name = some (.file bytes))
    (hshort : IsShort name) (hlong : ¬IsShort other) :
    t.move (path.join ⟨name⟩) (path.join ⟨other⟩) = .error .nameTooLong := by
  have hfolder : IsFolder (t.eraseIn place name) path place := h.eraseIn (by simp [hfile])
  rw [move, read_join h hname hfile hshort, remove_join h hname hfile hshort]
  exact write_join_of_not_isShort hfolder hother hlong

end Stitch.FileTree
