/-
Making folders and writing files anywhere in a tree.

`placeOf` is where the names of a path lead, whatever is there; a path that leads
somewhere leads to its place (`placeOf_of_locate`), and a name behind a path leads
further from there (`placeOf_join`).

* `AddsFolders` says that a tree has more folders and is otherwise the same.  Programs
  that only make folders do no more than that (`MakesFolders`), such as
  `createFolders` (`makesFolders_createFolders`).
* A file that is written is at the place of its path, and nothing else changes
  (`exists_of_write_eq_ok`); from then on it is read there (`LeadsTo.read`,
  `read_of_write`), also after other files were written (`read_of_write_other`).
-/
import Stitch.Proofs.Files.Program

namespace Stitch.FileTree

variable {α β : Type} {t t' t'' : FileTree} {path : Path} {place : Location} {bytes : List UInt8}

/-! ### Places -/

/-- One name further, or one folder up. -/
def follow (place : Location) (name : String) : Location :=
  if name = ".." then place.dropLast else place ++ [name]

/-- Where the names of a path lead, whatever is there. -/
def placeOf (t : FileTree) (path : Path) : Location :=
  path.names.foldl follow (if path.isAbsolute then [] else t.workingFolder)

theorem follow_of_step {p q : Location} {name : String} (h : t.step p name = .ok q) :
    follow p name = q := by
  rw [step] at h
  split at h
  · cases h
  · cases h
  · rw [follow]
    split at h
    next hdots => rw [if_pos hdots, Except.ok.inj h]
    next hdots =>
      split at h
      · cases h
      · rw [if_neg hdots, Except.ok.inj h]

theorem placeOf_of_locate (h : t.locate path = .ok place) : t.placeOf path = place := by
  have hwalk : ∀ (names : List String) (p q : Location),
      names.foldlM t.step p = .ok q → names.foldl follow p = q := by
    intro names
    induction names with
    | nil => exact fun p q hq => Except.ok.inj hq
    | cons name names ih =>
      intro p q hq
      rw [List.foldlM_cons] at hq
      obtain ⟨next, hnext, hrest⟩ := exists_of_bind_eq_ok hq
      rw [List.foldl_cons, follow_of_step hnext]
      exact ih next q hrest
  obtain ⟨htext, hzero⟩ := text_of_locate_eq_ok h
  exact hwalk _ _ _ (by rw [← locate_of_text htext hzero, h])

theorem placeOf_congr (h : t'.workingFolder = t.workingFolder) (path : Path) :
    t'.placeOf path = t.placeOf path := by
  rw [placeOf, placeOf, h]

/-- A name behind a path leads further from the place of the path. -/
theorem placeOf_join {folder : Path} {name : String} (h : '/' ∉ name.toList) :
    t.placeOf (folder.join ⟨name⟩) =
      (⟨name⟩ : Path).names.foldl follow (t.placeOf folder) := by
  rw [placeOf, Path.names_join h, Path.isAbsolute_join h, List.foldl_append, placeOf]

theorem foldl_follow (place : Location) {names : List String} (h : ".." ∉ names) :
    names.foldl follow place = place ++ names := by
  induction names generalizing place with
  | nil => rw [List.foldl_nil, List.append_nil]
  | cons name names ih =>
    obtain ⟨hname, hnames⟩ := List.ne_and_not_mem_of_not_mem_cons h
    rw [List.foldl_cons, follow, if_neg (Ne.symm hname), ih _ hnames, List.append_assoc,
      List.singleton_append]

/-! ### Making folders -/

/-- A tree with more folders that is otherwise the same. -/
structure AddsFolders (t t' : FileTree) : Prop where
  kept : ∀ p entry, t.entry? p = some entry → t'.entry? p = some entry
  files : ∀ p bytes, t'.entry? p = some (.file bytes) → t.entry? p = some (.file bytes)
  workingFolder : t'.workingFolder = t.workingFolder

theorem AddsFolders.refl (t : FileTree) : AddsFolders t t :=
  ⟨fun _ _ h => h, fun _ _ h => h, rfl⟩

theorem AddsFolders.trans (h : AddsFolders t t') (h' : AddsFolders t' t'') : AddsFolders t t'' where
  kept p entry hentry := h'.kept p entry (h.kept p entry hentry)
  files p bytes hfile := h.files p bytes (h'.files p bytes hfile)
  workingFolder := h'.workingFolder.trans h.workingFolder

theorem addsFolders_createFolder (h : t.createFolder path = .ok t') : AddsFolders t t' := by
  rw [createFolder] at h
  obtain ⟨place, -, h⟩ := exists_of_bind_eq_ok h
  cases hentry : t.entry? place with
  | some entry =>
    rw [hentry] at h
    cases h
  | none =>
    rw [hentry] at h
    by_cases hdot : path.endsInDot
    · simp [hdot] at h
    · obtain rfl : t.setEntry place .folder = t' := by simpa [hdot] using h
      have hplace : place ≠ [] := by
        rintro rfl
        cases hentry
      refine ⟨fun p entry hp => ?_, fun p bytes hp => ?_, rfl⟩
      · have hne : p ≠ place := by
          rintro rfl
          rw [hentry] at hp
          cases hp
        rw [entry?_setEntry hplace, if_neg hne, hp]
      · rw [entry?_setEntry hplace] at hp
        split at hp
        · cases hp
        · exact hp

/-- A program that makes folders, if it changes anything. -/
def MakesFolders (x : StateM FileTree α) : Prop := ∀ t, AddsFolders t (x.run t).2

theorem MakesFolders.bind {x : StateM FileTree α} {f : α → StateM FileTree β}
    (h : MakesFolders x) (hf : ∀ a, MakesFolders (f a)) : MakesFolders (x >>= f) :=
  fun t => (h t).trans (hf _ _)

theorem makesFolders_pure (a : α) : MakesFolders (pure a : StateM FileTree α) := AddsFolders.refl

theorem makesFolders_createFolder (path : Path) :
    MakesFolders (FileSystem.createFolder path : StateM FileTree _) := by
  intro t
  show AddsFolders t (change (fun t => t.createFolder path) t).2
  rw [change]
  cases h : t.createFolder path with
  | ok t' => exact addsFolders_createFolder h
  | error fault => exact .refl t

theorem makesFolders_ensureFolder (path : Path) :
    MakesFolders (FileSystem.ensureFolder path : StateM FileTree _) := by
  refine (makesFolders_createFolder path).bind fun result => ?_
  cases result with
  | ok u => exact makesFolders_pure _
  | error fault =>
    have hquestion : MakesFolders (FileSystem.isFolder path : StateM FileTree _) := AddsFolders.refl
    exact hquestion.bind fun _ => makesFolders_pure _

theorem makesFolders_createNested (paths : List Path) :
    MakesFolders (FileSystem.createNested paths : StateM FileTree _) := by
  induction paths with
  | nil => exact makesFolders_pure _
  | cons path above ih =>
    refine (makesFolders_ensureFolder path).bind fun result => ?_
    split
    · refine ih.bind fun result => ?_
      split
      · exact makesFolders_ensureFolder path
      · exact makesFolders_pure _
    · exact makesFolders_pure _

theorem makesFolders_createFolders (path : Path) :
    MakesFolders (FileSystem.createFolders path : StateM FileTree _) := by
  rw [FileSystem.createFolders]
  split
  · exact makesFolders_pure _
  · exact makesFolders_createNested _

/-- Where a folder is, nothing is made. -/
theorem run_createFolders_of_isFolder (h : IsFolder t path place) :
    (FileSystem.createFolders path : StateM FileTree _).run t = (.ok (), t) := by
  have htext : ¬path.text.isEmpty := by simpa using (text_of_locate_eq_ok h.locate).1
  have hcreate : (FileSystem.createFolder path : StateM FileTree _).run t =
      (.error .exists, t) := by
    refine run_change_error ?_
    rw [createFolder, h.locate]
    simp only [bind, Except.bind, h.entry]
  have hfolder : (FileSystem.isFolder path : StateM FileTree _).run t = (true, t) := by
    show (((t.find path).map FileEntry.kind).toOption == some .folder, t) = _
    rw [find_eq_ok_folder_iff.2 ⟨place, h⟩]
    rfl
  have hensure : (FileSystem.ensureFolder path : StateM FileTree _).run t = (.ok (), t) := by
    rw [FileSystem.ensureFolder, run_bind hcreate]
    exact run_bind hfolder
  rw [FileSystem.createFolders, if_neg htext, FileSystem.createNested, run_bind hensure]
  rfl

/-! ### Writing files -/

/-- A path leads to a place where a file can be. -/
structure LeadsTo (t : FileTree) (path : Path) (place : Location) : Prop where
  locate : t.locate path = .ok place
  endsInSlash : path.endsInSlash = false
  endsInDot : path.endsInDot = false

theorem LeadsTo.mono (h : LeadsTo t path place)
    (hfolders : ∀ p, t.entry? p = some .folder → t'.entry? p = some .folder)
    (hworking : t'.workingFolder = t.workingFolder) : LeadsTo t' path place :=
  ⟨locate_mono hfolders hworking h.locate, h.endsInSlash, h.endsInDot⟩

theorem LeadsTo.find (h : LeadsTo t path place) (hfile : t.entry? place = some (.file bytes)) :
    t.find path = .ok (.file bytes) := by
  rw [FileTree.find, h.locate]
  simp [bind, Except.bind, hfile, h.endsInSlash, h.endsInDot]

theorem LeadsTo.read (h : LeadsTo t path place) (hfile : t.entry? place = some (.file bytes)) :
    t.read path = .ok bytes := by
  rw [FileTree.read, h.find hfile]
  rfl

/-- What is found as a file is at the place of the path. -/
theorem entry?_of_find (h : t.find path = .ok (.file bytes)) :
    t.entry? (t.placeOf path) = some (.file bytes) := by
  rw [FileTree.find] at h
  obtain ⟨place, hplace, h⟩ := exists_of_bind_eq_ok h
  rw [placeOf_of_locate hplace]
  cases hentry : t.entry? place with
  | none =>
    rw [hentry] at h
    cases h
  | some entry =>
    rw [hentry] at h
    cases entry with
    | folder => cases h
    | file bytes' =>
      by_cases hend : path.endsInSlash || path.endsInDot
      · simp [hend] at h
      · have hbytes : bytes' = bytes := by simpa [hend] using h
        rw [hbytes]

/-- A file is still found among more folders. -/
theorem AddsFolders.find_file (h : AddsFolders t t') (hfile : t.find path = .ok (.file bytes)) :
    t'.find path = .ok (.file bytes) := by
  have hentry := entry?_of_find hfile
  rw [FileTree.find] at hfile ⊢
  obtain ⟨place, hplace, hfound⟩ := exists_of_bind_eq_ok hfile
  rw [placeOf_of_locate hplace] at hentry
  rw [locate_mono (fun p hp => h.kept p _ hp) h.workingFolder hplace]
  simp only [hentry] at hfound
  simpa only [bind, Except.bind, h.kept place _ hentry] using hfound

/-- A file is written at the place of its path, where no folder is, and nothing else
changes. -/
theorem exists_of_write_eq_ok (h : t.write path bytes = .ok t') : ∃ place,
    LeadsTo t path place ∧ t.entry? place ≠ some .folder ∧
      t' = t.setEntry place (.file bytes) := by
  rw [write] at h
  obtain ⟨place, hplace, h⟩ := exists_of_bind_eq_ok h
  refine ⟨place, ?_⟩
  cases hentry : t.entry? place with
  | none =>
    rw [hentry] at h
    cases hslash : path.endsInSlash <;> cases hdot : path.endsInDot <;> simp [hslash, hdot] at h
    exact ⟨⟨hplace, hslash, hdot⟩, by simp, h.symm⟩
  | some entry =>
    rw [hentry] at h
    cases entry with
    | folder => cases h
    | file bytes' =>
      cases hslash : path.endsInSlash <;> cases hdot : path.endsInDot <;> simp [hslash, hdot] at h
      exact ⟨⟨hplace, hslash, hdot⟩, by simp, h.symm⟩

/-- What was written is read. -/
theorem read_of_write (h : t.write path bytes = .ok t') : t'.read path = .ok bytes := by
  obtain ⟨place, hleads, hfree, rfl⟩ := exists_of_write_eq_ok h
  refine (hleads.mono (fun _ => folder_of_setEntry hfree) rfl).read ?_
  rw [entry?_setEntry (ne_nil_of_ne_folder hfree), if_pos rfl]

/-- What is read is a file at the place of the path. -/
theorem exists_leadsTo_of_read (h : t.read path = .ok bytes) :
    ∃ place, LeadsTo t path place ∧ t.entry? place = some (.file bytes) := by
  rw [read] at h
  obtain ⟨entry, hfind, h⟩ := exists_of_bind_eq_ok h
  cases entry with
  | folder => cases h
  | file found =>
    cases h
    have hentry := entry?_of_find hfind
    rw [find] at hfind
    obtain ⟨place, hplace, hfind⟩ := exists_of_bind_eq_ok hfind
    rw [placeOf_of_locate hplace] at hentry
    rw [hentry] at hfind
    cases hslash : path.endsInSlash <;> cases hdot : path.endsInDot <;>
      simp [hslash, hdot] at hfind
    exact ⟨place, ⟨hplace, hslash, hdot⟩, hentry⟩

/-- A file is still read after another one was written at another place. -/
theorem read_of_write_other {other : Path} {more : List UInt8} (h : t.write other more = .ok t')
    (hne : t.placeOf path ≠ t.placeOf other) (hread : t.read path = .ok bytes) :
    t'.read path = .ok bytes := by
  obtain ⟨place, hleads, hentry⟩ := exists_leadsTo_of_read hread
  obtain ⟨otherPlace, hother, hfree, rfl⟩ := exists_of_write_eq_ok h
  rw [placeOf_of_locate hleads.locate, placeOf_of_locate hother.locate] at hne
  refine (hleads.mono (fun _ => folder_of_setEntry hfree) rfl).read ?_
  rw [entry?_setEntry (ne_nil_of_ne_folder hfree), if_neg hne, hentry]

end Stitch.FileTree
