/-
The check of a store folder, whatever bytes its files have.

What is read in a folder is a function of the bytes under its names: `documentIn` for
documents and `graphIn` for tables.  A check of a folder whose documents can all be
read is the report that `reportOn` gives in one piece (`outcome_check`).

* One document that cannot be read leaves the whole folder without a report
  (`outcome_check_error`).
* In a report every file of tables is healthy or has a problem (`covers_reportOn`).
* A coordinate's own two files decide nothing about other files
  (`DiffersIn.problemsBeside_eq`), since documents are sorted by their coordinates alone.
* **`check_of_isStoreFolder`** puts these together; `malformed_hides_others` is a folder
  in which one document hides a healthy graph.
-/
import Stitch.Proofs.Store.Directory
import Stitch.Store.Integrity

namespace Stitch

namespace IntegrityReport

/-- Counts and problems are collected item by item. -/
theorem foldl_add {α : Type} (path : α → Path) (details : α → List String) (as : List α)
    (r : IntegrityReport) :
    as.foldl (fun r a => r.add (path a) (details a)) r =
      { checked := r.checked + as.length
        healthy := r.healthy + (as.filter fun a => (details a).isEmpty).length
        problems := r.problems ++ as.flatMap fun a => (details a).map (.mk (path a)) } := by
  induction as generalizing r with
  | nil => simp
  | cons a as ih =>
    rw [List.foldl_cons, ih, add]
    cases hdetails : details a <;>
      simp [hdetails, Nat.add_assoc, Nat.add_comm 1]

/-- The problems of the files that have another path. -/
def problemsBeside (r : IntegrityReport) (path : Path) : List IntegrityProblem :=
  r.problems.filter fun problem => problem.path ≠ path

theorem filter_map_mk (path beside : Path) (details : List String) :
    ((details.map (IntegrityProblem.mk path)).filter fun problem => problem.path ≠ beside) =
      if path = beside then [] else details.map (.mk path) := by
  rw [List.filter_map]
  by_cases heq : path = beside <;> simp [Function.comp_def, heq]

end IntegrityReport

namespace DirectoryStore

open FileTree (IsFolder IsShort outcome)

variable {s : DirectoryStore} {t t' : FileTree} {place : Location} {c : Coordinate}
  {name : String} {entry : StoredGraph}

/-! ### What is read in a folder -/

/-- The folder of a store: what is named like tables or a document is a file. -/
structure IsStoreFolder (s : DirectoryStore) (place : Location) (t : FileTree) : Prop where
  isFolder : IsFolder t s.root place
  named : ∀ name ∈ t.namesIn place, Path.IsFileName name ∧ IsShort name
  isFile : ∀ name ∈ t.namesIn place,
    Path.extension? name = some graphExtension ∨ Path.extension? name = some documentExtension →
      t.entryIn place name ≠ some .folder

/-- The bytes of a file in a folder. -/
def bytesIn (t : FileTree) (place : Location) (name : String) : Option (List UInt8) :=
  match t.entryIn place name with
  | some (.file bytes) => some bytes
  | _ => none

/-- The document whose text is in some bytes. -/
def decodeDocument (bytes : List UInt8) : Option StoredGraph :=
  Text.Utf8.text? bytes >>= fun text => Json.parse? text >>= StoredGraph.ofJson?

/-- What a document in a folder says, if it can be read. -/
def documentIn (t : FileTree) (place : Location) (name : String) : Option StoredGraph :=
  bytesIn t place name >>= decodeDocument

/-- What reading the tables of a coordinate comes to. -/
def graphIn (t : FileTree) (place : Location) (c : Coordinate) : Except StoreError MergedGraph :=
  match bytesIn t place (fileName c graphExtension) with
  | none => .error (.notFound c.text)
  | some bytes => decodeGraph bytes

/-- The names of the tables in a folder. -/
def graphNames (t : FileTree) (place : Location) : List String :=
  (t.namesIn place).filter fun name => Path.extension? name == some graphExtension

/-- What is wrong with the graph of a document. -/
def describedDetails (t : FileTree) (place : Location) (entry : StoredGraph) : List String :=
  match graphIn t place entry.coordinate with
  | .ok graph => entry.problems graph
  | .error e => [e.message]

/-- What is wrong with tables that have no document. -/
def undescribedDetails (t : FileTree) (place : Location) (name : String) : List String :=
  match decodeGraph ((bytesIn t place name).getD []) with
  | .ok _ => ["graph without metadata"]
  | .error e => [s!"graph without metadata: {e.message}"]

theorem IsStoreFolder.exists_bytesIn (h : IsStoreFolder s place t) (hname : name ∈ t.namesIn place)
    (hending : Path.extension? name = some graphExtension ∨
      Path.extension? name = some documentExtension) :
    ∃ bytes, bytesIn t place name = some bytes ∧ t.read (s.root.join ⟨name⟩) = .ok bytes := by
  obtain ⟨hfileName, hshort⟩ := h.named name hname
  obtain ⟨entry, hentry⟩ := Option.isSome_iff_exists.1 (FileTree.mem_namesIn.1 hname)
  cases entry with
  | folder => exact absurd hentry (h.isFile name hname hending)
  | file bytes =>
    exact ⟨bytes, by rw [bytesIn, hentry], FileTree.read_join h.isFolder hfileName hentry hshort⟩

/-- A document is read as what its bytes say, or they say nothing and there is an error. -/
theorem outcome_readDocument_bytes {path : Path} {bytes : List UInt8}
    (h : t.read path = .ok bytes) :
    (∃ entry, decodeDocument bytes = some entry ∧
      outcome (readDocument path) t = (.ok entry, t)) ∨
    (decodeDocument bytes = none ∧ ∃ e, outcome (readDocument path) t = (.error e, t)) := by
  have htext : outcome (FileSystem.attempt (.unavailable path) (FileSystem.readText path)) t =
      ((Text.Utf8.text? bytes).elim (.error (StoreError.unavailable path .invalidText)) .ok, t) :=
    FileTree.outcome_readText_bytes h
  rw [readDocument, decodeDocument]
  cases htext? : Text.Utf8.text? bytes with
  | none =>
    rw [htext?] at htext
    exact .inr ⟨rfl, _, FileTree.outcome_bind_error htext⟩
  | some text =>
    rw [htext?] at htext
    rw [FileTree.outcome_bind_ok htext, Option.bind_eq_bind, Option.bind_some]
    cases Json.parse? text >>= StoredGraph.ofJson? with
    | none => exact .inr ⟨rfl, _, rfl⟩
    | some entry => exact .inl ⟨entry, rfl, rfl⟩

theorem outcome_readDocument_cases (h : IsStoreFolder s place t)
    (hname : name ∈ documentNames t place) :
    (∃ entry, documentIn t place name = some entry ∧
      outcome (readDocument (s.root.join ⟨name⟩)) t = (.ok entry, t)) ∨
    (documentIn t place name = none ∧
      ∃ e, outcome (readDocument (s.root.join ⟨name⟩)) t = (.error e, t)) := by
  obtain ⟨hmem, hending⟩ := List.mem_filter.1 hname
  obtain ⟨bytes, hbytes, hread⟩ := h.exists_bytesIn hmem (.inr (beq_iff_eq.1 hending))
  rw [documentIn, hbytes]
  exact outcome_readDocument_bytes hread

/-- The graph of a coordinate is what its bytes in the folder say. -/
theorem outcome_get_graphIn (h : IsStoreFolder s place t) (c : Coordinate) :
    outcome (s.get c) t = (graphIn t place c, t) := by
  have hfileName := isFileName_fileName (c := c) graphExtension_mem
  have hcontains : outcome (s.contains c) t =
      (.ok (t.find (s.root.join ⟨fileName c graphExtension⟩)).toOption.isSome, t) := by
    rw [contains, FileTree.outcome_contains, graphPath, pathOf_eq_join]
  rw [get, FileTree.outcome_bind_ok hcontains, graphIn, bytesIn]
  cases hentry : t.entryIn place (fileName c graphExtension) with
  | none =>
    by_cases hshort : IsShort (fileName c graphExtension)
    · rw [FileTree.find_join h.isFolder hfileName hshort, hentry]
      rfl
    · rw [FileTree.find_join_of_not_isShort h.isFolder hfileName hshort]
      rfl
  | some file =>
    have hmem : fileName c graphExtension ∈ t.namesIn place :=
      FileTree.mem_namesIn.2 (Option.isSome_of_eq_some hentry)
    have hshort := (h.named _ hmem).2
    cases file with
    | folder => exact absurd hentry (h.isFile _ hmem (.inl (extension?_fileName graphExtension_mem)))
    | file bytes =>
      have hread := FileTree.read_join h.isFolder hfileName hentry hshort
      rw [FileTree.find_join h.isFolder hfileName hshort, hentry]
      show outcome (readGraph (s.root.join ⟨fileName c graphExtension⟩)) t = _
      rw [outcome_readGraph_bytes hread]

theorem outcome_describedProblems (h : IsStoreFolder s place t) (entry : StoredGraph) :
    outcome (liftM (s.describedProblems entry : StateM FileTree _) :
      ExceptT StoreError (StateM FileTree) _) t = (.ok (describedDetails t place entry), t) := by
  have hget : (s.get entry.coordinate : ExceptT StoreError (StateM FileTree) _).run.run t =
      (graphIn t place entry.coordinate, t) := outcome_get_graphIn h entry.coordinate
  refine FileTree.outcome_lift ?_
  rw [describedProblems, StateT.run_bind, hget, describedDetails]
  cases graphIn t place entry.coordinate <;> rfl

theorem outcome_undescribedProblems (h : IsStoreFolder s place t)
    (hname : name ∈ graphNames t place) :
    outcome (liftM (undescribedProblems (s.root.join ⟨name⟩) : StateM FileTree _) :
      ExceptT StoreError (StateM FileTree) _) t = (.ok (undescribedDetails t place name), t) := by
  obtain ⟨hmem, hending⟩ := List.mem_filter.1 hname
  obtain ⟨bytes, hbytes, hread⟩ := h.exists_bytesIn hmem (.inl (beq_iff_eq.1 hending))
  have hgraph : (readGraph (s.root.join ⟨name⟩) : ExceptT StoreError (StateM FileTree) _).run.run t =
      (decodeGraph bytes, t) := outcome_readGraph_bytes hread
  refine FileTree.outcome_lift ?_
  rw [undescribedProblems, StateT.run_bind, hgraph, undescribedDetails, hbytes]
  show _ = (match decodeGraph bytes with | .ok _ => _ | .error e => _, t)
  cases decodeGraph bytes <;> rfl

/-! ### The report in one piece -/

/-- The names of the tables that no entry describes. -/
def undescribedNames (s : DirectoryStore) (t : FileTree) (place : Location)
    (entries : List StoredGraph) : List String :=
  (graphNames t place).filter fun name =>
    !(entries.map fun entry => s.graphPath entry.coordinate).contains (s.root.join ⟨name⟩)

/-- The report of a folder whose documents give these entries. -/
def reportOn (s : DirectoryStore) (t : FileTree) (place : Location)
    (entries : List StoredGraph) : IntegrityReport where
  checked := entries.length + (s.undescribedNames t place entries).length
  healthy := (entries.filter fun entry => (describedDetails t place entry).isEmpty).length
  problems :=
    (entries.flatMap fun entry =>
      (describedDetails t place entry).map (.mk (s.graphPath entry.coordinate))) ++
    (s.undescribedNames t place entries).flatMap fun name =>
      (undescribedDetails t place name).map (.mk (s.root.join ⟨name⟩))

theorem outcome_filesWith (h : IsFolder t s.root place) (ending : String) :
    outcome (s.filesWith ending) t =
      (.ok (((t.namesIn place).filter fun name => Path.extension? name == some ending).map
        fun name => s.root.join ⟨name⟩), t) :=
  FileTree.outcome_bind_ok (FileTree.outcome_list (FileTree.list_of_isFolder h))

/-- Documents that can be read are listed in the order of their coordinates. -/
theorem outcome_list_of_readable (h : IsStoreFolder s place t) {entryOf : String → StoredGraph}
    (hread : ∀ name ∈ documentNames t place, documentIn t place name = some (entryOf name)) :
    outcome s.list t =
      (.ok (StoredGraph.sorted ((documentNames t place).map entryOf)), t) := by
  have hdocument : ∀ name ∈ documentNames t place,
      outcome (readDocument (s.root.join ⟨name⟩)) t = (.ok (entryOf name), t) := by
    intro name hname
    rcases outcome_readDocument_cases h hname with ⟨entry, hentry, hdocument⟩ | ⟨hnone, -⟩
    · rw [hread name hname, Option.some.injEq] at hentry
      rw [hentry, hdocument]
    · rw [hread name hname] at hnone
      cases hnone
  have hdocuments : outcome (((documentNames t place).map fun name =>
      s.root.join ⟨name⟩).mapM readDocument) t =
        (.ok ((documentNames t place).map entryOf), t) := by
    rw [List.mapM_map]
    exact FileTree.outcome_mapM hdocument
  have hfiles : outcome (s.filesWith documentExtension) t =
      (.ok ((documentNames t place).map fun name => s.root.join ⟨name⟩), t) :=
    outcome_filesWith h.isFolder documentExtension
  rw [list, FileTree.outcome_bind_ok hfiles, FileTree.outcome_bind_ok hdocuments]
  rfl

/-- One document that cannot be read is enough for a folder to have no list. -/
theorem outcome_list_error (h : IsStoreFolder s place t) (hname : name ∈ documentNames t place)
    (hentry : documentIn t place name = none) : ∃ e, outcome s.list t = (.error e, t) := by
  have hsame : ∀ name ∈ documentNames t place,
      (outcome (readDocument (s.root.join ⟨name⟩)) t).2 = t := by
    intro name hname
    rcases outcome_readDocument_cases h hname with ⟨entry, -, hdocument⟩ | ⟨-, e, hdocument⟩ <;>
      rw [hdocument]
  obtain ⟨e, he⟩ : ∃ e, outcome (readDocument (s.root.join ⟨name⟩)) t = (.error e, t) := by
    rcases outcome_readDocument_cases h hname with ⟨entry, hsome, -⟩ | ⟨-, he⟩
    · rw [hentry] at hsome
      cases hsome
    · exact he
  obtain ⟨e', herror⟩ : ∃ e', outcome (((documentNames t place).map fun name =>
      s.root.join ⟨name⟩).mapM readDocument) t = (.error e', t) := by
    rw [List.mapM_map]
    exact FileTree.outcome_mapM_error hsame hname (congrArg Prod.fst he)
  rw [list, FileTree.outcome_bind_ok (outcome_filesWith h.isFolder documentExtension)]
  exact ⟨e', FileTree.outcome_bind_error herror⟩

theorem outcome_add_described (h : IsStoreFolder s place t) (r : IntegrityReport)
    (entry : StoredGraph) :
    outcome (do
        let details ← (s.describedProblems entry : StateM FileTree _)
        return r.add (s.graphPath entry.coordinate) details :
          ExceptT StoreError (StateM FileTree) IntegrityReport) t =
      (.ok (r.add (s.graphPath entry.coordinate) (describedDetails t place entry)), t) := by
  rw [FileTree.outcome_bind_ok (outcome_describedProblems h entry)]
  exact FileTree.outcome_pure _

theorem outcome_add_undescribed (h : IsStoreFolder s place t) (r : IntegrityReport)
    (hname : name ∈ graphNames t place) :
    outcome (do
        let details ← (undescribedProblems (s.root.join ⟨name⟩) : StateM FileTree _)
        return r.add (s.root.join ⟨name⟩) details :
          ExceptT StoreError (StateM FileTree) IntegrityReport) t =
      (.ok (r.add (s.root.join ⟨name⟩) (undescribedDetails t place name)), t) := by
  rw [FileTree.outcome_bind_ok (outcome_undescribedProblems h hname)]
  exact FileTree.outcome_pure _

/-- A check of a folder that has a list comes to the report of the list's entries. -/
theorem outcome_check (h : IsStoreFolder s place t) {entries : List StoredGraph}
    (hlist : outcome s.list t = (.ok entries, t)) :
    outcome s.check t = (.ok (s.reportOn t place entries), t) := by
  have hgraphs : outcome s.graphFiles t =
      (.ok ((graphNames t place).map fun name => s.root.join ⟨name⟩), t) :=
    outcome_filesWith h.isFolder graphExtension
  have hdescribed : ∀ r, ∀ entry ∈ entries, _ := fun r entry _ => outcome_add_described h r entry
  rw [check, FileTree.outcome_bind_ok hlist,
    FileTree.outcome_bind_ok (FileTree.outcome_foldlM hdescribed {}),
    FileTree.outcome_bind_ok hgraphs, List.filter_map, List.foldlM_map]
  have hothers : ∀ r, ∀ name ∈ s.undescribedNames t place entries, _ := fun r name hname =>
    outcome_add_undescribed h r (List.mem_filter.1 hname).1
  refine (FileTree.outcome_foldlM hothers _).trans ?_
  -- Nothing is healthy that has no document.
  have hunhealthy : ∀ name, (undescribedDetails t place name).isEmpty = false := fun name => by
    rw [undescribedDetails]
    split <;> rfl
  rw [IntegrityReport.foldl_add, IntegrityReport.foldl_add, reportOn]
  simp [hunhealthy]

/-- Without a list there is no report. -/
theorem outcome_check_error (h : IsStoreFolder s place t) (hname : name ∈ documentNames t place)
    (hentry : documentIn t place name = none) : ∃ e, outcome s.check t = (.error e, t) := by
  obtain ⟨e, he⟩ := outcome_list_error h hname hentry
  exact ⟨e, FileTree.outcome_bind_error he⟩

/-- What a document says, for names whose documents can be read. -/
def entryOf (t : FileTree) (place : Location) (name : String) : StoredGraph :=
  (documentIn t place name).getD default

/-- All documents in a folder can be read. -/
def IsReadable (t : FileTree) (place : Location) : Prop :=
  ∀ name ∈ documentNames t place, (documentIn t place name).isSome

theorem IsReadable.documentIn_eq (h : IsReadable t place) (hname : name ∈ documentNames t place) :
    documentIn t place name = some (entryOf t place name) := by
  obtain ⟨entry, hentry⟩ := Option.isSome_iff_exists.1 (h name hname)
  rw [entryOf, hentry, Option.getD_some]

/-- The entries of a folder whose documents can be read. -/
def entriesIn (t : FileTree) (place : Location) : List StoredGraph :=
  StoredGraph.sorted ((documentNames t place).map (entryOf t place))

theorem isReadable_of_outcome_check (h : IsStoreFolder s place t) {report : IntegrityReport}
    (hcheck : outcome s.check t = (.ok report, t)) : IsReadable t place := by
  intro name hname
  cases hentry : documentIn t place name with
  | some entry => rfl
  | none =>
    obtain ⟨e, he⟩ := outcome_check_error h hname hentry
    rw [he] at hcheck
    cases hcheck

theorem outcome_check_of_isReadable (h : IsStoreFolder s place t) (hread : IsReadable t place) :
    outcome s.check t = (.ok (s.reportOn t place (entriesIn t place)), t) :=
  outcome_check h (outcome_list_of_readable h fun _ => hread.documentIn_eq)

theorem decodeDocument_bytes (h : entry.Fits) : decodeDocument entry.bytes = some entry := by
  show Text.Utf8.text? (Text.Utf8.bytes entry.toJson.pretty) >>= _ = _
  rw [Text.Utf8.text?_bytes, Option.bind_eq_bind, Option.bind_some,
    Json.parse?_pretty entry.isExact_toJson, Option.bind_eq_bind, Option.bind_some,
    StoredGraph.ofJson?_toJson h]

/-! ### Every file is accounted for -/

/-- Healthy entries are counted, and every file of tables is that of a healthy entry or
has a problem. -/
structure Covers (s : DirectoryStore) (t : FileTree) (place : Location)
    (entries : List StoredGraph) (report : IntegrityReport) : Prop where
  healthy : report.healthy =
    (entries.filter fun entry => (describedDetails t place entry).isEmpty).length
  named : ∀ name ∈ graphNames t place,
    (∃ entry ∈ entries, s.graphPath entry.coordinate = s.root.join ⟨name⟩ ∧
      describedDetails t place entry = []) ∨
    ∃ problem ∈ report.problems, problem.path = s.root.join ⟨name⟩

theorem covers_reportOn (entries : List StoredGraph) :
    Covers s t place entries (s.reportOn t place entries) := by
  refine ⟨rfl, fun name hname => ?_⟩
  by_cases hdescribed : ∃ entry ∈ entries, s.graphPath entry.coordinate = s.root.join ⟨name⟩
  · obtain ⟨entry, hentry, hpath⟩ := hdescribed
    cases hdetails : describedDetails t place entry with
    | nil => exact .inl ⟨entry, hentry, hpath, hdetails⟩
    | cons detail details =>
      refine .inr ⟨⟨s.root.join ⟨name⟩, detail⟩, List.mem_append_left _ ?_, rfl⟩
      refine List.mem_flatMap.2 ⟨entry, hentry, ?_⟩
      rw [hdetails, hpath]
      exact List.mem_cons_self
  · have hother : name ∈ s.undescribedNames t place entries := by
      refine List.mem_filter.2 ⟨hname, ?_⟩
      simpa using fun entry hentry hpath => hdescribed ⟨entry, hentry, hpath⟩
    obtain ⟨detail, hdetail⟩ : ∃ detail, detail ∈ undescribedDetails t place name := by
      rw [undescribedDetails]
      split <;> exact ⟨_, List.mem_singleton_self _⟩
    exact .inr ⟨⟨s.root.join ⟨name⟩, detail⟩, List.mem_append_right _
      (List.mem_flatMap.2 ⟨name, hother, List.mem_map_of_mem hdetail⟩), rfl⟩

/-! ### A coordinate's own files -/

/-- Two folders that differ only in the bytes of a coordinate's two files. -/
structure DiffersIn (place : Location) (c : Coordinate) (t t' : FileTree) : Prop where
  names : t'.namesIn place = t.namesIn place
  other : ∀ name, name ≠ fileName c graphExtension → name ≠ fileName c documentExtension →
    t'.entryIn place name = t.entryIn place name

/-- Every document that can be read is the one of its own coordinate. -/
def NamesItself (t : FileTree) (place : Location) : Prop :=
  ∀ name ∈ documentNames t place, ∀ entry ∈ documentIn t place name,
    name = fileName entry.coordinate documentExtension

/-- Documents that were written for their own coordinates can be read and name themselves. -/
theorem isReadable_of_bytes (h : ∀ name ∈ documentNames t place, ∃ entry : StoredGraph,
      entry.Fits ∧ name = fileName entry.coordinate documentExtension ∧
        bytesIn t place name = some entry.bytes) :
    IsReadable t place ∧ NamesItself t place := by
  refine ⟨fun name hname => ?_, fun name hname entry hentry => ?_⟩
  · obtain ⟨entry, hfits, -, hbytes⟩ := h name hname
    rw [documentIn, hbytes, Option.bind_eq_bind, Option.bind_some, decodeDocument_bytes hfits]
    rfl
  · obtain ⟨entry', hfits, hself, hbytes⟩ := h name hname
    rw [documentIn, hbytes, Option.bind_eq_bind, Option.bind_some, decodeDocument_bytes hfits,
      Option.mem_some_iff] at hentry
    rw [← hentry]
    exact hself

theorem DiffersIn.bytesIn_eq (h : DiffersIn place c t t') (hgraph : name ≠ fileName c graphExtension)
    (hdocument : name ≠ fileName c documentExtension) :
    bytesIn t' place name = bytesIn t place name := by
  rw [bytesIn, bytesIn, h.other name hgraph hdocument]

theorem DiffersIn.graphIn_eq {d : Coordinate} (h : DiffersIn place c t t') (hne : d ≠ c) :
    graphIn t' place d = graphIn t place d := by
  rw [graphIn, graphIn, h.bytesIn_eq
    (fileName_ne graphExtension_mem graphExtension_mem (.inl hne))
    (fileName_ne graphExtension_mem documentExtension_mem (.inl hne))]

theorem DiffersIn.documentNames_eq (h : DiffersIn place c t t') :
    documentNames t' place = documentNames t place := by
  rw [documentNames, documentNames, h.names]

theorem DiffersIn.graphNames_eq (h : DiffersIn place c t t') :
    graphNames t' place = graphNames t place := by
  rw [graphNames, graphNames, h.names]

/-- Beside one file there are the problems of all others. -/
theorem problemsBeside_reportOn (entries : List StoredGraph) (beside : Path) :
    (s.reportOn t place entries).problemsBeside beside =
      (entries.flatMap fun entry =>
        if s.graphPath entry.coordinate = beside then []
        else (describedDetails t place entry).map (.mk (s.graphPath entry.coordinate))) ++
      (s.undescribedNames t place entries).flatMap fun name =>
        if s.root.join ⟨name⟩ = beside then []
        else (undescribedDetails t place name).map (.mk (s.root.join ⟨name⟩)) := by
  rw [IntegrityReport.problemsBeside, reportOn, List.filter_append, List.filter_flatMap,
    List.filter_flatMap]
  simp only [IntegrityReport.filter_map_mk]

section Own

variable (h : DiffersIn place c t t') (hown : NamesItself t place) (hown' : NamesItself t' place)
  (hread : IsReadable t place) (hread' : IsReadable t' place)
include h hown hown' hread hread'

/-- The entries of both folders are the same but for the one coordinate's. -/
theorem DiffersIn.entryOf_cases (hname : name ∈ documentNames t place) :
    entryOf t' place name = entryOf t place name ∨
      (entryOf t place name).coordinate = c ∧ (entryOf t' place name).coordinate = c := by
  have hname' : name ∈ documentNames t' place := h.documentNames_eq ▸ hname
  by_cases hdocument : name = fileName c documentExtension
  · have hself := hown name hname _ (hread.documentIn_eq hname)
    have hself' := hown' name hname' _ (hread'.documentIn_eq hname')
    have hinj {d : Coordinate} (hd : name = fileName d documentExtension) : d = c :=
      (fileName_inj documentExtension_mem documentExtension_mem (hd.symm.trans hdocument)).1
    exact .inr ⟨hinj hself, hinj hself'⟩
  · have hgraph : name ≠ fileName c graphExtension := by
      rintro rfl
      have hending := (List.mem_filter.1 hname).2
      rw [extension?_fileName graphExtension_mem] at hending
      exact absurd hending (by decide)
    rw [entryOf, entryOf, documentIn, documentIn, h.bytesIn_eq hgraph hdocument]
    exact .inl rfl

theorem DiffersIn.coordinate_eq (hname : name ∈ documentNames t place) :
    (entryOf t' place name).coordinate = (entryOf t place name).coordinate := by
  rcases h.entryOf_cases hown hown' hread hread' hname with heq | ⟨hc, hc'⟩
  · rw [heq]
  · rw [hc, hc']

/-- Documents are sorted by their coordinates, so both folders have them in one order. -/
theorem DiffersIn.exists_entriesIn_eq : ∃ names : List String,
    (∀ name ∈ names, name ∈ documentNames t place) ∧
      entriesIn t place = names.map (entryOf t place) ∧
      entriesIn t' place = names.map (entryOf t' place) := by
  refine ⟨(documentNames t place).mergeSort fun a b =>
    (entryOf t place a).coordinate.atMost (entryOf t place b).coordinate,
    fun name hname => (List.mergeSort_perm _ _).mem_iff.1 hname, ?_, ?_⟩
  · exact (List.map_mergeSort (f := entryOf t place) fun _ _ _ _ => rfl).symm
  · rw [entriesIn, h.documentNames_eq]
    refine (List.map_mergeSort (f := entryOf t' place) fun a ha b hb => ?_).symm
    rw [h.coordinate_eq hown hown' hread hread' ha, h.coordinate_eq hown hown' hread hread' hb]

theorem DiffersIn.undescribedNames_eq :
    s.undescribedNames t' place (entriesIn t' place) =
      s.undescribedNames t place (entriesIn t place) := by
  obtain ⟨names, hnames, hentries, hentries'⟩ := h.exists_entriesIn_eq hown hown' hread hread'
  have hpaths : ((entriesIn t' place).map fun entry => s.graphPath entry.coordinate) =
      (entriesIn t place).map fun entry => s.graphPath entry.coordinate := by
    rw [hentries, hentries', List.map_map, List.map_map]
    refine List.map_congr_left fun name hname => ?_
    rw [Function.comp_apply, Function.comp_apply,
      h.coordinate_eq hown hown' hread hread' (hnames name hname)]
  rw [undescribedNames, undescribedNames, hpaths, h.graphNames_eq]

/-- A coordinate's two files decide nothing about the problems of other files. -/
theorem DiffersIn.problemsBeside_eq :
    (s.reportOn t' place (entriesIn t' place)).problemsBeside (s.graphPath c) =
      (s.reportOn t place (entriesIn t place)).problemsBeside (s.graphPath c) := by
  obtain ⟨names, hnames, hentries, hentries'⟩ := h.exists_entriesIn_eq hown hown' hread hread'
  rw [problemsBeside_reportOn, problemsBeside_reportOn,
    h.undescribedNames_eq hown hown' hread hread', hentries, hentries', List.flatMap_map,
    List.flatMap_map]
  refine congrArg₂ (· ++ ·) ?_ ?_
  · refine List.flatMap_congr fun name hname => ?_
    rcases h.entryOf_cases hown hown' hread hread' (hnames name hname) with heq | ⟨hc, hc'⟩
    · rw [heq]
      by_cases hc : (entryOf t place name).coordinate = c
      · rw [hc, if_pos rfl, if_pos rfl]
      · rw [describedDetails, describedDetails, h.graphIn_eq hc]
    · rw [hc, hc', if_pos rfl, if_pos rfl]
  · refine List.flatMap_congr fun name hname => ?_
    by_cases hpath : s.root.join ⟨name⟩ = s.graphPath c
    · rw [if_pos hpath, if_pos hpath]
    · have hgraph : name ≠ fileName c graphExtension := by
        rintro rfl
        exact hpath (pathOf_eq_join s c graphExtension).symm
      have hdocument : name ≠ fileName c documentExtension := by
        rintro rfl
        have hending := (List.mem_filter.1 (List.mem_filter.1 hname).1).2
        rw [extension?_fileName documentExtension_mem] at hending
        exact absurd hending (by decide)
      rw [undescribedDetails, undescribedDetails, h.bytesIn_eq hgraph hdocument]

end Own

/-- **One bad entry hides no other, unless it is a document that cannot be read**, whatever
the files of a store folder hold.  Then there is no report.  In a report every file of
tables is healthy or has a problem, and the bytes of a coordinate's own two files make no
difference to the problems of other files. -/
theorem check_of_isStoreFolder (h : IsStoreFolder s place t) :
    ((∃ report, outcome s.check t = (.ok report, t)) ↔ IsReadable t place) ∧
    (∀ report, outcome s.check t = (.ok report, t) →
      ∃ entries, outcome s.list t = (.ok entries, t) ∧ Covers s t place entries report) ∧
    ∀ c t' report report', IsStoreFolder s place t' → DiffersIn place c t t' →
      NamesItself t place → NamesItself t' place →
      outcome s.check t = (.ok report, t) → outcome s.check t' = (.ok report', t') →
        report'.problemsBeside (s.graphPath c) = report.problemsBeside (s.graphPath c) := by
  -- A report is the one of the folder's entries.
  have hreport {t : FileTree} {report : IntegrityReport} (h : IsStoreFolder s place t)
      (hcheck : outcome s.check t = (.ok report, t)) :
      IsReadable t place ∧ report = s.reportOn t place (entriesIn t place) := by
    have hread := isReadable_of_outcome_check h hcheck
    rw [outcome_check_of_isReadable h hread] at hcheck
    exact ⟨hread, (Except.ok.inj (congrArg Prod.fst hcheck)).symm⟩
  refine ⟨⟨fun ⟨report, hcheck⟩ => (hreport h hcheck).1,
    fun hread => ⟨_, outcome_check_of_isReadable h hread⟩⟩, ?_, ?_⟩
  · intro report hcheck
    obtain ⟨hread, rfl⟩ := hreport h hcheck
    exact ⟨_, outcome_list_of_readable h fun _ => hread.documentIn_eq, covers_reportOn _⟩
  · intro c t' report report' h' hdiffers hown hown' hcheck hcheck'
    obtain ⟨hread, rfl⟩ := hreport h hcheck
    obtain ⟨hread', rfl⟩ := hreport h' hcheck'
    exact hdiffers.problemsBeside_eq hown hown' hread hread'

/-! ### A folder with two graphs -/

def sampleEntry : StoredGraph := .ofGraph sampleCoordinate sampleGraph .epoch

def twinEntry : StoredGraph := .ofGraph twinCoordinate {} .epoch

/-- The sample and its twin, with some bytes for the twin's tables and document. -/
def sampleFolder (tables document : List UInt8) : FileTree where
  entries := SortedMap.ofList [(["graphs"], .folder),
    (["graphs", fileName sampleCoordinate graphExtension],
      .file sampleGraph.toDocument.toBytes),
    (["graphs", fileName sampleCoordinate documentExtension], .file sampleEntry.bytes),
    (["graphs", fileName twinCoordinate graphExtension], .file tables),
    (["graphs", fileName twinCoordinate documentExtension], .file document)]

theorem differsIn_sampleFolder :
    DiffersIn ["graphs"] twinCoordinate (sampleFolder [0] twinEntry.bytes)
      (sampleFolder [] twinEntry.bytes) := by
  refine ⟨by decide +kernel, fun name hgraph hdocument => ?_⟩
  simp [FileTree.entryIn, sampleFolder, SortedMap.ofList, SortedMap.insert, SortedMap.get?_alter,
    hgraph, hdocument]

theorem documents_sampleFolder :
    ∀ tables ∈ [[0], []], ∀ name ∈ documentNames (sampleFolder tables twinEntry.bytes) ["graphs"],
      ∃ entry ∈ [sampleEntry, twinEntry], name = fileName entry.coordinate documentExtension ∧
        bytesIn (sampleFolder tables twinEntry.bytes) ["graphs"] name = some entry.bytes := by
  decide +kernel

theorem isReadable_sampleFolder (tables : List UInt8) (htables : tables ∈ [[0], []]) :
    IsReadable (sampleFolder tables twinEntry.bytes) ["graphs"] ∧
      NamesItself (sampleFolder tables twinEntry.bytes) ["graphs"] := by
  have hfits : ∀ entry ∈ [sampleEntry, twinEntry],
      Binary.FitsNat entry.nodeCount ∧ Binary.FitsNat entry.edgeCount := by decide +kernel
  refine isReadable_of_bytes fun name hname => ?_
  obtain ⟨entry, hentry, hself, hbytes⟩ := documents_sampleFolder tables htables name hname
  obtain ⟨hnodes, hedges⟩ := hfits entry hentry
  exact ⟨entry, ⟨hnodes, hedges⟩, hself, hbytes⟩

/-- Damaged tables of the twin change nothing that is said of the sample. -/
theorem check_of_isStoreFolder_tables :
    let folder := sampleFolder [0] twinEntry.bytes
    let folder' := sampleFolder [] twinEntry.bytes
    ∃ report report', outcome sampleStore.check folder = (.ok report, folder) ∧
      outcome sampleStore.check folder' = (.ok report', folder') ∧
      report'.problemsBeside (sampleStore.graphPath twinCoordinate) =
        report.problemsBeside (sampleStore.graphPath twinCoordinate) := by
  intro folder folder'
  have h : IsStoreFolder sampleStore ["graphs"] folder := by
    refine ⟨⟨?_, ?_⟩, ?_, ?_⟩ <;> decide +kernel
  have h' : IsStoreFolder sampleStore ["graphs"] folder' := by
    refine ⟨⟨?_, ?_⟩, ?_, ?_⟩ <;> decide +kernel
  obtain ⟨hread, hown⟩ := isReadable_sampleFolder [0] (by decide)
  obtain ⟨hread', hown'⟩ := isReadable_sampleFolder [] (by decide)
  obtain ⟨hreport, -, hbeside⟩ := check_of_isStoreFolder h
  obtain ⟨report, hcheck⟩ := hreport.2 hread
  obtain ⟨report', hcheck'⟩ := (check_of_isStoreFolder h').1.2 hread'
  have hsame := hbeside twinCoordinate folder' report report' h' differsIn_sampleFolder hown hown'
    hcheck hcheck'
  exact ⟨report, report', hcheck, hcheck', hsame⟩

/-- A document that is none keeps a graph from being reported that is whole. -/
theorem malformed_hides_others :
    let folder := sampleFolder [] (Text.Utf8.bytes "garbage")
    outcome (sampleStore.get sampleCoordinate) folder = (.ok sampleGraph, folder) ∧
      ∃ e, outcome sampleStore.check folder = (.error e, folder) := by
  intro folder
  have h : IsStoreFolder sampleStore ["graphs"] folder := by
    refine ⟨⟨?_, ?_⟩, ?_, ?_⟩ <;> decide +kernel
  have htwin : fileName twinCoordinate documentExtension ∈ documentNames folder ["graphs"] := by
    decide +kernel
  refine ⟨?_, outcome_check_error h htwin (by decide +kernel)⟩
  have hbytes : bytesIn folder ["graphs"] (fileName sampleCoordinate graphExtension) =
      some sampleGraph.toDocument.toBytes := by
    decide +kernel
  rw [outcome_get_graphIn h, graphIn, hbytes]
  exact congrArg (·, folder) (decodeGraph_toBytes isBuilt_sampleGraph.isSound fits_sampleGraph)

end DirectoryStore

end Stitch
