/-
A repository is a map from coordinates to partial graphs, as far as their documents
have places of their own.

A save makes folders and writes one file (`exists_of_save`), and a load reads the file
at the place of the coordinate (`outcome_load_of_file`, `outcome_load_of_no_file`).
`Holds` is the invariant of saves in a row: at every place is the graph that was saved
last there.  It is kept by a save (`Holds.step`) and by a run (`holds_of_run`), and it
says what is loaded (`Holds.outcome_load`).

Loading changes nothing, and what is loaded depends on the files that the paths lead to and on
nothing else (`outcome_load_congr`, `outcome_loadAvailable_congr`).

* **`documents_round_trip`**: graphs are read from their documents, and loaded after a save.
* **`load_iff_of_run`**: a coordinate loads what was saved last for it exactly if the
  graph that was saved last at its place is its own.
* The name of a document joins the artifact's name, the group and the version, and
  leaves out the forge.  `placeOf_eq_iff` says when plain coordinates have one place,
  `eq_of_placeOf_eq` when they do not, and `load_collision` shows two that do.
-/
import Stitch.Proofs.CallGraph.Partial
import Stitch.Proofs.Files.Folders
import Stitch.Store.Repository

namespace Stitch.Repository

open FileTree (AddsFolders LeadsTo outcome)

variable {r : Repository} {start t t' : FileTree} {history : List PartialGraph}
  {c c' : Coordinate} {g : PartialGraph} {path : Path}

/-- Where the document of a coordinate is. -/
def placeOf (r : Repository) (t : FileTree) (c : Coordinate) : Location := t.placeOf (r.pathOf c)

/-- Graphs saved one after the other, none of them with an I/O error. -/
inductive Run (r : Repository) (start : FileTree) : List PartialGraph → FileTree → Prop
  | start : Run r start [] start
  | save {history : List PartialGraph} {t t' : FileTree} {g : PartialGraph} {path : Path}
    (h : Run r start history t) (hsave : outcome (r.save g) t = (.ok path, t')) :
    Run r start (history ++ [g]) t'

theorem Run.next (h : Run r start history t) (hok : (outcome (r.save g) t).1 = .ok path) :
    Run r start (history ++ [g]) (outcome (r.save g) t).2 := by
  have hsave : outcome (r.save g) t = (.ok path, (outcome (r.save g) t).2) := by rw [← hok]
  exact h.save hsave

/-- The graph that was saved last for a coordinate. -/
def lastSaved (history : List PartialGraph) (c : Coordinate) : Option PartialGraph :=
  (history.filter fun g => g.coordinate = c).getLast?

/-- The graph that was saved last at a place. -/
def lastAt (r : Repository) (t : FileTree) (history : List PartialGraph) (place : Location) :
    Option PartialGraph :=
  (history.filter fun g => r.placeOf t g.coordinate = place).getLast?

/-! ### Places -/

/-- The name of the document of a coordinate. -/
def documentName (c : Coordinate) : String :=
  s!"{c.artifact.name}_{c.artifact.group}_{c.version}.json"

theorem toList_documentName (c : Coordinate) : (documentName c).toList =
    c.artifact.name.toList ++ '_' ::
      ((c.artifact.group ++ "_" ++ c.version).toList ++ ".json".toList) := by
  rw [show documentName c = c.artifact.name ++ "_" ++ c.artifact.group ++ "_" ++ c.version ++
    ".json" from rfl]
  simp

/-- The fields of a coordinate are no paths: its artifact's name is that of a file, and
there is no slash in its group or version. -/
structure IsPlain (c : Coordinate) : Prop where
  name : Path.IsFileName c.artifact.name
  group : '/' ∉ c.artifact.group.toList
  version : '/' ∉ c.version.toList

/-- The first letter of the artifact's name. -/
def initial (c : Coordinate) : String := String.ofList (c.artifact.name.toList.take 1)

/-- A document is in the folder of its artifact's name, in the folder of the first letter. -/
theorem pathOf_eq_join (r : Repository) (c : Coordinate) : r.pathOf c =
    ((r.root.join ⟨initial c⟩).join ⟨c.artifact.name⟩).join ⟨documentName c⟩ := rfl

theorem IsPlain.slash_initial (h : IsPlain c) : '/' ∉ (initial c).toList := by
  rw [initial, String.toList_ofList]
  exact fun hmem => h.name.slash (List.mem_of_mem_take hmem)

theorem initial_ne_dots (c : Coordinate) : initial c ≠ ".." := by
  intro heq
  have hlength := congrArg (fun text : String => text.toList.length) heq
  simp [initial] at hlength
  omega

theorem documentName_ne {short : String} (h : short.toList.length ≤ 2) :
    documentName c ≠ short := by
  rintro rfl
  rw [toList_documentName] at h
  simp at h
  omega

theorem IsPlain.slash_documentName (h : IsPlain c) : '/' ∉ (documentName c).toList := by
  rw [toList_documentName]
  simp [h.name.slash, h.group, h.version]

theorem IsPlain.names_documentName (h : IsPlain c) :
    (⟨documentName c⟩ : Path).names = [documentName c] := by
  rw [Path.names_of_not_mem h.slash_documentName, if_neg]
  rw [not_or]
  exact ⟨documentName_ne (by decide), documentName_ne (by decide)⟩

/-- The document of a plain coordinate is below the root, in a folder of the artifact's
name. -/
theorem IsPlain.exists_placeOf_eq (h : IsPlain c) (r : Repository) (t : FileTree) :
    ∃ names, r.placeOf t c =
      t.placeOf r.root ++ (names ++ [c.artifact.name, documentName c]) := by
  have hdots : ".." ∉ (⟨initial c⟩ : Path).names := by
    rw [Path.names_of_not_mem h.slash_initial]
    split
    · exact List.not_mem_nil
    · rw [List.mem_singleton]
      exact (initial_ne_dots c).symm
  have hdocument : ".." ≠ documentName c := (documentName_ne (by decide)).symm
  refine ⟨(⟨initial c⟩ : Path).names, ?_⟩
  rw [placeOf, pathOf_eq_join, FileTree.placeOf_join h.slash_documentName,
    FileTree.placeOf_join h.name.slash, FileTree.placeOf_join h.slash_initial, h.name.names,
    h.names_documentName, ← List.foldl_append, ← List.foldl_append, FileTree.foldl_follow]
  · rfl
  · simp [hdots, h.name.ne_dots.symm, hdocument]

theorem pathOf_congr (hname : c.artifact.name = c'.artifact.name)
    (htext : c.artifact.group ++ "_" ++ c.version = c'.artifact.group ++ "_" ++ c'.version) :
    r.pathOf c = r.pathOf c' := by
  have hdocument : documentName c = documentName c' := by
    rw [← String.toList_inj, toList_documentName, toList_documentName, hname, htext]
  rw [pathOf_eq_join, pathOf_eq_join, initial, initial, hname, hdocument]

/-- The documents of plain coordinates are at one place exactly if the artifacts have one
name and the groups and versions are one text. -/
theorem placeOf_eq_iff (h : IsPlain c) (h' : IsPlain c') :
    r.placeOf t c = r.placeOf t c' ↔ c.artifact.name = c'.artifact.name ∧
      c.artifact.group ++ "_" ++ c.version = c'.artifact.group ++ "_" ++ c'.version := by
  constructor
  · intro heq
    obtain ⟨names, hplace⟩ := h.exists_placeOf_eq r t
    obtain ⟨names', hplace'⟩ := h'.exists_placeOf_eq r t
    rw [hplace, hplace', List.append_cancel_left_eq] at heq
    obtain ⟨-, hlast⟩ := List.append_inj' heq rfl
    obtain ⟨hname, hdocument⟩ : c.artifact.name = c'.artifact.name ∧
        documentName c = documentName c' := by simpa using hlast
    have hlists := congrArg String.toList hdocument
    rw [toList_documentName, toList_documentName, hname, List.append_cancel_left_eq,
      List.cons.injEq, List.append_cancel_right_eq, String.toList_inj] at hlists
    exact ⟨hname, hlists.2⟩
  · exact fun heq => congrArg t.placeOf (pathOf_congr heq.1 heq.2)

/-- Plain coordinates of one forge are told apart by their places if there is no
underscore in their groups. -/
theorem eq_of_placeOf_eq (h : IsPlain c) (h' : IsPlain c') (hforge : c.forge = c'.forge)
    (hgroup : '_' ∉ c.artifact.group.toList) (hgroup' : '_' ∉ c'.artifact.group.toList)
    (heq : r.placeOf t c = r.placeOf t c') : c = c' := by
  obtain ⟨hname, htext⟩ := (placeOf_eq_iff h h').1 heq
  have hlists := congrArg String.toList htext
  simp only [String.toList_append, List.append_assoc] at hlists
  obtain ⟨hgroups, hversion⟩ := Text.append_cons_inj hgroup hgroup' hlists
  obtain ⟨forge, ⟨group, name⟩, version⟩ := c
  rw [Coordinate.mk.injEq, Artifact.mk.injEq]
  exact ⟨hforge, ⟨String.toList_inj.1 hgroups, hname⟩, String.toList_inj.1 hversion⟩

/-- There is nothing below the root. -/
def IsEmpty (r : Repository) (t : FileTree) : Prop :=
  ∀ names, names ≠ [] → t.entry? (t.placeOf r.root ++ names) = none

/-- An empty repository has no document of a plain coordinate. -/
theorem IsPlain.ne_file_of_isEmpty (h : IsPlain c) (hr : r.IsEmpty t) (bytes : List UInt8) :
    t.entry? (r.placeOf t c) ≠ some (.file bytes) := by
  obtain ⟨names, hplace⟩ := h.exists_placeOf_eq r t
  rw [hplace, hr _ (by simp)]
  exact (Option.some_ne_none _).symm

/-! ### Saving -/

/-- A save makes folders, then writes the document and gives its path. -/
theorem exists_of_save (h : outcome (r.save g) t = (.ok path, t')) :
    path = r.pathOf g.coordinate ∧ ∃ t₁ place,
      AddsFolders t t₁ ∧ LeadsTo t₁ (r.pathOf g.coordinate) place ∧
        t₁.entry? place ≠ some .folder ∧
        t' = t₁.setEntry place (.file (Text.Utf8.bytes g.text)) := by
  have hwrite {t₁ : FileTree}
      (h : outcome (do
        FileSystem.attempt (.unavailable (r.pathOf g.coordinate))
          (FileSystem.writeText (r.pathOf g.coordinate) g.text)
        return r.pathOf g.coordinate :
          ExceptT StoreError (StateM FileTree) Path) t₁ = (.ok path, t')) :
      path = r.pathOf g.coordinate ∧
        t₁.write (r.pathOf g.coordinate) (Text.Utf8.bytes g.text) = .ok t' := by
    obtain ⟨u, t₂, hwrite, hpath⟩ := FileTree.exists_of_outcome_bind_eq_ok h
    cases hpath
    exact ⟨rfl, FileTree.eq_ok_of_run_change (FileTree.run_of_outcome_attempt hwrite)⟩
  unfold save at h
  cases hparent : (r.pathOf g.coordinate).parent? with
  | none =>
    simp only [hparent] at h
    obtain ⟨hpath, hdocument⟩ := hwrite h
    obtain ⟨place, hleads, hentry, hset⟩ := FileTree.exists_of_write_eq_ok hdocument
    exact ⟨hpath, t, place, .refl t, hleads, hentry, hset⟩
  | some folder =>
    simp only [hparent] at h
    obtain ⟨u, t₁, hfolders, h⟩ := FileTree.exists_of_outcome_bind_eq_ok h
    have hadds : AddsFolders t t₁ := by
      have hmakes := FileTree.makesFolders_createFolders folder t
      rwa [FileTree.run_of_outcome_attempt hfolders] at hmakes
    obtain ⟨hpath, hdocument⟩ := hwrite h
    obtain ⟨place, hleads, hentry, hset⟩ := FileTree.exists_of_write_eq_ok hdocument
    exact ⟨hpath, t₁, place, hadds, hleads, hentry, hset⟩

/-! ### Loading -/

theorem run_contains (r : Repository) (c : Coordinate) (t : FileTree) :
    (r.contains c : StateM FileTree Bool).run t =
      (((t.find (r.pathOf c)).map FileEntry.kind).toOption == some .file, t) := rfl

/-- A graph is read from the file that it was written to. -/
theorem outcome_readFile (h : t.read path = .ok (Text.Utf8.bytes g.text))
    (hfits : g.revision.Fits) : outcome (readFile path) t = (.ok g, t) := by
  have hread := FileTree.run_readText h
  rw [Text.Utf8.text?_bytes] at hread
  rw [readFile, FileTree.outcome_bind_ok (FileTree.outcome_lift hread)]
  simp only [Option.elim_some, PartialGraph.ofText?_text hfits]
  rfl

/-- A coordinate is loaded from the file that its path leads to, if that is one. -/
theorem outcome_load_eq (r : Repository) (c : Coordinate) (t : FileTree) :
    outcome (r.load c) t =
      if ((t.find (r.pathOf c)).map FileEntry.kind).toOption == some .file then
        outcome (readFile (r.pathOf c)) t
      else (.error (.notFound c.text), t) := by
  rw [load, FileTree.outcome_bind_ok (FileTree.outcome_lift (r.run_contains c t))]
  split <;> rfl

/-- A coordinate is loaded from the document that its path leads to. -/
theorem outcome_load_of_file {place : Location} (h : LeadsTo t (r.pathOf c) place)
    (hfile : t.entry? place = some (.file (Text.Utf8.bytes g.text))) (hfits : g.revision.Fits) :
    outcome (r.load c) t = (.ok g, t) := by
  rw [outcome_load_eq, h.find hfile]
  exact outcome_readFile (h.read hfile) hfits

theorem isReading_readFile (path : Path) :
    FileTree.IsReading (readFile path : ExceptT StoreError (StateM FileTree) _) := by
  have htext : FileTree.IsReading (liftM (FileSystem.readText path : StateM FileTree _) :
      ExceptT StoreError (StateM FileTree) _) :=
    FileTree.isReading_liftM fun t => congrArg Prod.snd (FileTree.run_readText_eq path t)
  refine htext.bind fun text => ?_
  split
  · exact fun _ => rfl
  · exact fun _ => rfl
  next text => cases PartialGraph.ofText? text <;> exact fun _ => rfl

theorem isReading_load (r : Repository) (c : Coordinate) :
    FileTree.IsReading (r.load c : ExceptT StoreError (StateM FileTree) _) := by
  refine (FileTree.isReading_liftM fun _ => rfl).bind fun isThere => ?_
  split
  · exact isReading_readFile _
  · exact fun _ => rfl

theorem isReading_loadInput (r : Repository) (input : GraphInput) :
    FileTree.IsReading (r.loadInput input : ExceptT StoreError (StateM FileTree) _) := by
  cases input with
  | file path => exact isReading_readFile path
  | coordinate c => exact r.isReading_load c

theorem isReading_loadAvailable (r : Repository) (cs : List Coordinate) :
    FileTree.IsReading (r.loadAvailable cs : ExceptT StoreError (StateM FileTree) _) := by
  induction cs with
  | nil => exact fun _ => rfl
  | cons c cs ih =>
    refine (FileTree.isReading_liftM (r.isReading_load c)).bind fun loaded => ?_
    split
    · exact ih.bind fun _ _ => rfl
    · exact ih.bind fun _ _ => rfl
    · exact fun _ => rfl

/-- A file that is the same in two trees is read as the same graph. -/
theorem outcome_readFile_congr (h : t'.read path = t.read path) :
    (outcome (readFile path) t').1 = (outcome (readFile path) t).1 := by
  rw [readFile, FileTree.outcome_bind_ok (FileTree.outcome_lift (FileTree.run_readText_eq path t)),
    FileTree.outcome_bind_ok (FileTree.outcome_lift (FileTree.run_readText_eq path t')), h]
  split
  · rfl
  · rfl
  next text _ => cases PartialGraph.ofText? text <;> rfl

/-- A graph is read from a file. -/
theorem exists_find_of_readFile (h : (outcome (readFile path) t).1 = .ok g) :
    ∃ bytes, t.find path = .ok (.file bytes) := by
  have hfault {fault : FileFault} (hread : t.read path = .error fault) :
      ∃ e, (outcome (readFile path) t).1 = .error e := by
    have htext := FileTree.run_readText_eq path t
    rw [readFile, FileTree.outcome_bind_ok (FileTree.outcome_lift htext), hread]
    cases fault <;> exact ⟨_, rfl⟩
  rcases hfind : t.find path with fault | (_ | bytes)
  · obtain ⟨e, he⟩ := @hfault fault (by rw [FileTree.read, hfind]; rfl)
    cases he.symm.trans h
  · obtain ⟨e, he⟩ := @hfault .isFolder (by rw [FileTree.read, hfind]; rfl)
    cases he.symm.trans h
  · exact ⟨bytes, rfl⟩

/-- A coordinate whose path leads to the same file in two trees, or to none in both, is loaded
as the same graph. -/
theorem outcome_load_congr (h : ∀ bytes,
    t'.find (r.pathOf c) = .ok (.file bytes) ↔ t.find (r.pathOf c) = .ok (.file bytes)) :
    (outcome (r.load c) t').1 = (outcome (r.load c) t).1 := by
  have hkind (t : FileTree) :
      (((t.find (r.pathOf c)).map FileEntry.kind).toOption == some .file) = true ↔
        ∃ bytes, t.find (r.pathOf c) = .ok (.file bytes) := by
    rcases t.find (r.pathOf c) with fault | (_ | bytes) <;>
      simp [Except.map, Except.toOption, FileEntry.kind]
  rw [outcome_load_eq, outcome_load_eq]
  by_cases hfound : ∃ bytes, t.find (r.pathOf c) = .ok (.file bytes)
  · obtain ⟨bytes, hbytes⟩ := hfound
    have hbytes' := (h bytes).2 hbytes
    rw [if_pos ((hkind t').2 ⟨bytes, hbytes'⟩), if_pos ((hkind t).2 ⟨bytes, hbytes⟩)]
    exact outcome_readFile_congr (by rw [FileTree.read, FileTree.read, hbytes', hbytes])
  · have hfound' : ¬∃ bytes, t'.find (r.pathOf c) = .ok (.file bytes) := by simpa [h] using hfound
    rw [if_neg (mt (hkind t').1 hfound'), if_neg (mt (hkind t).1 hfound)]

/-- What is loaded for coordinates depends on what each of them is loaded as. -/
theorem outcome_loadAvailable_congr {cs : List Coordinate}
    (h : ∀ c ∈ cs, (outcome (r.load c) t').1 = (outcome (r.load c) t).1) :
    (outcome (r.loadAvailable cs) t').1 = (outcome (r.loadAvailable cs) t).1 := by
  induction cs with
  | nil => rfl
  | cons c cs ih =>
    have hrest := ih fun c hc => h c (List.mem_cons_of_mem _ hc)
    have hload := h c List.mem_cons_self
    simp only [outcome] at hload
    refine (FileTree.isReading_liftM (r.isReading_load c)).outcome_bind_congr ?_ fun loaded => ?_
    · rw [FileTree.outcome_lift_fst, FileTree.outcome_lift_fst, hload]
    split
    · exact (r.isReading_loadAvailable cs).outcome_bind_congr hrest fun _ => rfl
    · exact (r.isReading_loadAvailable cs).outcome_bind_congr hrest fun _ => rfl
    · rfl

theorem outcome_load_of_no_file
    (h : ∀ bytes, t.entry? (r.placeOf t c) ≠ some (.file bytes)) :
    outcome (r.load c) t = (.error (.notFound c.text), t) := by
  rw [outcome_load_eq]
  rcases hfind : t.find (r.pathOf c) with fault | (_ | bytes)
  · rfl
  · rfl
  · exact absurd (FileTree.entry?_of_find hfind) (h bytes)

/-! ### Runs -/

theorem getLast?_filter_concat (p : PartialGraph → Bool) (history : List PartialGraph)
    (g : PartialGraph) : ((history ++ [g]).filter p).getLast? =
      if p g then some g else (history.filter p).getLast? := by
  rw [List.filter_append]
  by_cases hg : p g <;> simp [hg]

theorem lastSaved_concat : lastSaved (history ++ [g]) c =
    if g.coordinate = c then some g else lastSaved history c := by
  simp only [lastSaved, getLast?_filter_concat, decide_eq_true_eq]

theorem lastAt_concat {place : Location} : lastAt r t (history ++ [g]) place =
    if r.placeOf t g.coordinate = place then some g else lastAt r t history place := by
  simp only [lastAt, getLast?_filter_concat, decide_eq_true_eq]

theorem mem_of_lastSaved (h : lastSaved history c = some g) : g ∈ history ∧ g.coordinate = c := by
  simpa using List.mem_filter.1 (List.mem_of_getLast? h)

theorem mem_of_lastAt {place : Location} (h : lastAt r t history place = some g) :
    g ∈ history ∧ r.placeOf t g.coordinate = place := by
  simpa using List.mem_filter.1 (List.mem_of_getLast? h)

/-- The last graph at the place of a coordinate is the last one of the coordinate, if it
is one of the coordinate at all. -/
theorem lastSaved_eq_of_lastAt (h : lastAt r t history (r.placeOf t c) = some g)
    (hg : g.coordinate = c) : lastSaved history c = some g := by
  induction history using List.reverseRecOn with
  | nil => cases h
  | append_singleton history last ih =>
    rw [lastAt_concat] at h
    rw [lastSaved_concat]
    by_cases hlast : last.coordinate = c
    · rw [if_pos (by rw [hlast])] at h
      rw [if_pos hlast, h]
    · split at h
      next => exact absurd (Option.some.inj h ▸ hg) hlast
      next => rw [if_neg hlast, ih h]

/-- Nothing was saved for a coordinate at whose place nothing was saved. -/
theorem lastSaved_eq_none_of_lastAt (h : lastAt r t history (r.placeOf t c) = none) :
    lastSaved history c = none := by
  rw [lastAt, List.getLast?_eq_none_iff, List.filter_eq_nil_iff] at h
  rw [lastSaved, List.getLast?_eq_none_iff, List.filter_eq_nil_iff]
  intro g hg hc
  have hcoordinate : g.coordinate = c := by simpa using hc
  exact h g hg (by simp [hcoordinate])

/-- What was saved last for a coordinate is what was saved last at its place, exactly if
that is its own. -/
theorem elim_lastAt_eq_iff {e : StoreError} :
    (lastAt r t history (r.placeOf t c)).elim (.error e) .ok =
        ((lastSaved history c).elim (.error e) .ok : Except StoreError PartialGraph) ↔
      ∀ g, lastAt r t history (r.placeOf t c) = some g → g.coordinate = c := by
  constructor
  · intro heq g hlast
    rw [hlast] at heq
    cases hsaved : lastSaved history c with
    | none =>
      rw [hsaved] at heq
      cases heq
    | some g' =>
      rw [hsaved] at heq
      cases heq
      exact (mem_of_lastSaved hsaved).2
  · intro hown
    cases hlast : lastAt r t history (r.placeOf t c) with
    | none => rw [lastSaved_eq_none_of_lastAt hlast]
    | some g => rw [lastSaved_eq_of_lastAt hlast (hown g hlast)]

/-- After a run the graph that was saved last at a place is in the file there, every
saved graph's path leads to its place, and all other files are those of the start. -/
structure Holds (r : Repository) (start : FileTree) (history : List PartialGraph)
    (t : FileTree) : Prop where
  workingFolder : t.workingFolder = start.workingFolder
  leads : ∀ g ∈ history, LeadsTo t (r.pathOf g.coordinate) (r.placeOf start g.coordinate)
  saved : ∀ place g, lastAt r start history place = some g →
    t.entry? place = some (.file (Text.Utf8.bytes g.text))
  others : ∀ place, lastAt r start history place = none → ∀ bytes,
    t.entry? place = some (.file bytes) → start.entry? place = some (.file bytes)

theorem holds_start : Holds r start [] start where
  workingFolder := rfl
  leads _ hg := by cases hg
  saved _ _ h := by cases h
  others _ _ _ h := h

theorem Holds.step (h : Holds r start history t) (hsave : outcome (r.save g) t = (.ok path, t')) :
    Holds r start (history ++ [g]) t' := by
  obtain ⟨-, t₁, place, hadds, hleads, hentry, rfl⟩ := exists_of_save hsave
  have hworking : t₁.workingFolder = start.workingFolder :=
    hadds.workingFolder.trans h.workingFolder
  obtain rfl : r.placeOf start g.coordinate = place := by
    rw [← FileTree.placeOf_of_locate hleads.locate]
    exact (FileTree.placeOf_congr hworking _).symm
  have hplace := FileTree.ne_nil_of_ne_folder hentry
  -- The document is written where no folder is, so that the paths lead where they did.
  refine ⟨hworking, fun g' hg' => ?_, fun p g' hlast => ?_, fun p hlast bytes hp => ?_⟩
  · rcases List.mem_append.1 hg' with hold | hnew
    · have hleads' := (h.leads g' hold).mono (fun p hp => hadds.kept p _ hp) hadds.workingFolder
      exact hleads'.mono (fun _ => FileTree.folder_of_setEntry hentry) rfl
    · obtain rfl := List.mem_singleton.1 hnew
      exact hleads.mono (fun _ => FileTree.folder_of_setEntry hentry) rfl
  · rw [lastAt_concat] at hlast
    rw [FileTree.entry?_setEntry hplace]
    split at hlast
    next hp =>
      cases hlast
      rw [if_pos hp.symm]
    next hp =>
      rw [if_neg (Ne.symm hp)]
      exact hadds.kept p _ (h.saved p g' hlast)
  · rw [lastAt_concat] at hlast
    rw [FileTree.entry?_setEntry hplace] at hp
    split at hlast
    next => cases hlast
    next hne =>
      rw [if_neg (Ne.symm hne)] at hp
      exact h.others p hlast bytes (hadds.files p bytes hp)

theorem holds_of_run (h : Run r start history t) : Holds r start history t := by
  induction h with
  | start => exact holds_start
  | save _ hsave ih => exact ih.step hsave

/-- What was saved is loaded, and read from the path that the save gives. -/
theorem outcome_load_of_save (hsave : outcome (r.save g) t = (.ok path, t'))
    (hfits : g.revision.Fits) :
    outcome (r.load g.coordinate) t' = (.ok g, t') ∧ outcome (readFile path) t' = (.ok g, t') := by
  have hholds : Holds r t ([] ++ [g]) t' := holds_start.step hsave
  have hleads : LeadsTo t' (r.pathOf g.coordinate) (r.placeOf t g.coordinate) :=
    hholds.leads g (by simp)
  have hfile : t'.entry? (r.placeOf t g.coordinate) = some (.file (Text.Utf8.bytes g.text)) :=
    hholds.saved _ g (lastAt_concat.trans (if_pos rfl))
  rw [(exists_of_save hsave).1]
  exact ⟨outcome_load_of_file hleads hfile hfits, outcome_readFile (hleads.read hfile) hfits⟩

/-- **The document of a partial graph is read as the graph.**  Every graph whose release time
fits is read from its document, what was read from any text is read again from its own
document, and what was saved is loaded. -/
theorem documents_round_trip :
    (∀ g : PartialGraph, g.revision.Fits → PartialGraph.ofText? g.text = some g) ∧
    (∀ text g, PartialGraph.ofText? text = some g →
      g.revision.Fits ∧ PartialGraph.ofText? g.text = some g) ∧
    ∀ (r : Repository) (t t' : FileTree) (g : PartialGraph) (path : Path), g.revision.Fits →
      outcome (r.save g) t = (.ok path, t') →
        outcome (r.load g.coordinate) t' = (.ok g, t') ∧
          outcome (readFile path) t' = (.ok g, t') :=
  ⟨fun _ => PartialGraph.ofText?_text, fun _ _ => PartialGraph.ofText?_text_of_ofText?,
    fun _ _ _ _ _ hfits hsave => outcome_load_of_save hsave hfits⟩

/-- A coordinate is loaded from the graph that was saved last at its place. -/
theorem Holds.outcome_load (h : Holds r start history t)
    (hfits : ∀ g, lastAt r start history (r.placeOf start c) = some g → g.revision.Fits)
    (hempty : ∀ bytes, start.entry? (r.placeOf start c) ≠ some (.file bytes))
    (hpath : ∀ g ∈ history, r.placeOf start g.coordinate = r.placeOf start c →
      r.pathOf g.coordinate = r.pathOf c) :
    outcome (r.load c) t =
      ((lastAt r start history (r.placeOf start c)).elim (.error (.notFound c.text)) .ok, t) := by
  cases hlast : lastAt r start history (r.placeOf start c) with
  | none =>
    refine outcome_load_of_no_file fun bytes hfile => hempty bytes (h.others _ hlast bytes ?_)
    rwa [show r.placeOf t c = r.placeOf start c from
      FileTree.placeOf_congr h.workingFolder _] at hfile
  | some g =>
    obtain ⟨hg, hplace⟩ := mem_of_lastAt hlast
    have hleads := h.leads g hg
    rw [hpath g hg hplace, hplace] at hleads
    exact outcome_load_of_file hleads (h.saved _ g hlast) (hfits g hlast)

/-- **A repository is a map from coordinates to graphs** for a coordinate exactly if the
graph that was saved last at its place is its own: then it loads what was saved last for
it.  A graph that is saved at another place changes nothing for it.

Plain coordinates at one place have one path (`placeOf_eq_iff`, `pathOf_congr`), and none
of them leads out of the repository (`IsPlain.ne_file_of_isEmpty`). -/
theorem load_iff_of_run (hrun : Run r start history t)
    (hfits : ∀ g ∈ history, g.revision.Fits)
    (hempty : ∀ bytes, start.entry? (r.placeOf start c) ≠ some (.file bytes))
    (hpath : ∀ g ∈ history, r.placeOf start g.coordinate = r.placeOf start c →
      r.pathOf g.coordinate = r.pathOf c) :
    (outcome (r.load c) t = ((lastSaved history c).elim (.error (.notFound c.text)) .ok, t) ↔
      ∀ g, lastAt r start history (r.placeOf start c) = some g → g.coordinate = c) ∧
    ∀ g path t', outcome (r.save g) t = (.ok path, t') →
      r.placeOf start g.coordinate ≠ r.placeOf start c →
      (outcome (r.load c) t').1 = (outcome (r.load c) t).1 := by
  have hholds := holds_of_run hrun
  have hload := hholds.outcome_load (fun g hlast => hfits g (mem_of_lastAt hlast).1) hempty hpath
  refine ⟨?_, fun g path t' hsave hplace => ?_⟩
  · rw [hload, Prod.mk.injEq, and_iff_left rfl]
    exact elim_lastAt_eq_iff
  · have hlast : lastAt r start (history ++ [g]) (r.placeOf start c) =
        lastAt r start history (r.placeOf start c) := by
      rw [lastAt_concat, if_neg hplace]
    have hload' := (hholds.step hsave).outcome_load (c := c)
      (fun g' hg' => hfits g' (mem_of_lastAt (hlast ▸ hg')).1) hempty fun g' hg' hplace' => by
        rcases List.mem_append.1 hg' with hold | hnew
        · exact hpath g' hold hplace'
        · rw [List.mem_singleton.1 hnew] at hplace'
          exact absurd hplace' hplace
    rw [hload, hload', hlast]

/-! ### Saves -/

def sampleRepository : Repository := ⟨⟨"repo"⟩⟩

theorem isEmpty_sampleRepository : sampleRepository.IsEmpty {} := by
  intro names hnames
  cases names with
  | nil => exact absurd rfl hnames
  | cons name names => rfl

def sampleCoordinate : Coordinate := ⟨"mvn", ⟨"org", "app"⟩, "1"⟩

/-- A graph that was released before the epoch, with an empty hierarchy and no instances. -/
def bareGraph : PartialGraph where
  revision := ⟨sampleCoordinate, -5⟩
  hierarchy := some {}
  instantiatedTypes := some []

/-- The graph is read and loaded as it is, and so is one of which only the coordinate is known. -/
theorem documents_round_trip_bare :
    let save := outcome (sampleRepository.save bareGraph) {}
    PartialGraph.ofText? bareGraph.text = some bareGraph ∧
      (∃ g, PartialGraph.ofText? "[[\"mvn\", \"org\", \"app\", \"1\"]]" = some g ∧
        g.revision = ⟨sampleCoordinate, 0⟩ ∧ g.hierarchy = none ∧
        PartialGraph.ofText? g.text = some g) ∧
      outcome (sampleRepository.load sampleCoordinate) save.2 = (.ok bareGraph, save.2) := by
  intro save
  have hfits : bareGraph.revision.Fits := ⟨by decide, by decide⟩
  have hread : PartialGraph.ofText? "[[\"mvn\", \"org\", \"app\", \"1\"]]" =
      some { revision := ⟨sampleCoordinate, 0⟩, hierarchy := none } := by
    decide +kernel
  have hsave : save = (.ok ⟨"repo/a/app/app_org_1.json"⟩, save.2) := by
    have hpath : save.1 = .ok ⟨"repo/a/app/app_org_1.json"⟩ := by decide +kernel
    rw [← hpath]
  obtain ⟨hwritten, hagain, hsaved⟩ := documents_round_trip
  exact ⟨hwritten _ hfits, ⟨_, hread, rfl, rfl, (hagain _ _ hread).2⟩,
    (hsaved _ _ _ _ _ hfits hsave).1⟩

def otherCoordinate : Coordinate := ⟨"mvn", ⟨"org", "lib"⟩, "1"⟩

def earlierGraph : PartialGraph := { revision := ⟨sampleCoordinate, 1⟩ }

def otherGraph : PartialGraph := { revision := ⟨otherCoordinate, 1⟩ }

def laterGraph : PartialGraph :=
  { revision := ⟨sampleCoordinate, 1⟩, internalNodes := ["/p/A.f()V"] }

/-- After three saves the sample is loaded from the later one of its two graphs. -/
theorem load_iff_of_run_later :
    let first := (outcome (sampleRepository.save earlierGraph) {}).2
    let second := (outcome (sampleRepository.save otherGraph) first).2
    let third := (outcome (sampleRepository.save laterGraph) second).2
    outcome (sampleRepository.load sampleCoordinate) third = (.ok laterGraph, third) := by
  intro first second third
  have hfirst : (outcome (sampleRepository.save earlierGraph) {}).1 =
      .ok ⟨"repo/a/app/app_org_1.json"⟩ := by decide +kernel
  have hsecond : (outcome (sampleRepository.save otherGraph) first).1 =
      .ok ⟨"repo/l/lib/lib_org_1.json"⟩ := by decide +kernel
  have hthird : (outcome (sampleRepository.save laterGraph) second).1 =
      .ok ⟨"repo/a/app/app_org_1.json"⟩ := by decide +kernel
  have hstart : Run sampleRepository {} [] {} := .start
  have hrun := ((hstart.next hfirst).next hsecond).next hthird
  have hplain : IsPlain sampleCoordinate := by constructor <;> decide
  have hplain' : IsPlain otherCoordinate := by constructor <;> decide
  -- Without underscores in the groups no two of the coordinates have one place.
  have hgraphs : ∀ g ∈ [] ++ [earlierGraph] ++ [otherGraph] ++ [laterGraph], g.revision.Fits ∧
      (sampleRepository.placeOf {} g.coordinate = sampleRepository.placeOf {} sampleCoordinate →
        g.coordinate = sampleCoordinate) := by
    intro g hg
    simp only [List.nil_append, List.mem_append, List.mem_singleton, or_assoc] at hg
    rcases hg with rfl | rfl | rfl
    · exact ⟨⟨by decide, by decide⟩, fun _ => rfl⟩
    · exact ⟨⟨by decide, by decide⟩, eq_of_placeOf_eq hplain' hplain rfl (by decide) (by decide)⟩
    · exact ⟨⟨by decide, by decide⟩, fun _ => rfl⟩
  have hlast : lastSaved ([] ++ [earlierGraph] ++ [otherGraph] ++ [laterGraph]) sampleCoordinate =
      some laterGraph := lastSaved_concat.trans (if_pos rfl)
  have hload := (load_iff_of_run hrun (fun g hg => (hgraphs g hg).1)
    (hplain.ne_file_of_isEmpty isEmpty_sampleRepository)
    fun g hg hplace => congrArg sampleRepository.pathOf ((hgraphs g hg).2 hplace)).1.2
    fun g hg => (hgraphs g (mem_of_lastAt hg).1).2 (mem_of_lastAt hg).2
  rwa [hlast] at hload

/-! ### Two coordinates with one place -/

def collidingCoordinate : Coordinate := ⟨"mvn", ⟨"org", "app"⟩, "x_1"⟩

def collidingTwin : Coordinate := ⟨"mvn", ⟨"org_x", "app"⟩, "1"⟩

def collidingGraph : PartialGraph := { revision := ⟨collidingCoordinate, 1⟩ }

/-- A graph that was saved for the one is loaded for the other. -/
theorem load_collision :
    let save := outcome (sampleRepository.save collidingGraph) {}
    Coordinate.ofText "org:app:x_1" = .ok collidingCoordinate ∧
    Coordinate.ofText "org_x:app:1" = .ok collidingTwin ∧
    save.1 = .ok ⟨"repo/a/app/app_org_x_1.json"⟩ ∧
    outcome (sampleRepository.load collidingTwin) save.2 = (.ok collidingGraph, save.2) ∧
    lastSaved [collidingGraph] collidingTwin = none := by
  intro save
  have hsave : save.1 = .ok ⟨"repo/a/app/app_org_x_1.json"⟩ := by decide +kernel
  have hstart : Run sampleRepository {} [] {} := .start
  have hholds := holds_of_run (hstart.next hsave)
  have hpath : sampleRepository.pathOf collidingCoordinate =
      sampleRepository.pathOf collidingTwin := pathOf_congr rfl (by decide)
  have hplain : IsPlain collidingTwin := by constructor <;> decide
  have hlast : lastAt sampleRepository {} ([] ++ [collidingGraph])
      (sampleRepository.placeOf {} collidingTwin) = some collidingGraph :=
    lastAt_concat.trans (if_pos (congrArg (FileTree.placeOf {}) hpath))
  have hload : outcome (sampleRepository.load collidingTwin) save.2 =
      (.ok collidingGraph, save.2) := by
    have hgraph := hholds.outcome_load (c := collidingTwin) (fun g hg => ?_)
      (hplain.ne_file_of_isEmpty isEmpty_sampleRepository) fun g hg _ => ?_
    · rwa [hlast] at hgraph
    · rw [hlast] at hg
      cases hg
      exact ⟨by decide, by decide⟩
    · rw [List.mem_singleton.1 hg]
      exact hpath
  exact ⟨by decide +kernel, by decide +kernel, hsave, hload, by decide +kernel⟩

end Stitch.Repository
