/-
A store in a folder is a map that only grows.

`Holds` is the invariant: the folder has the two files of every graph that is stored,
under the names of its coordinate, and nothing else.

* Where it holds, questions are answered from the graphs and change nothing
  (`Holds.outcome_get`, `Holds.outcome_contains`, `Holds.outcome_list`).
* A new graph gets its files, or a name is too long for the file system
  (`outcome_writeFiles`), and the folder then holds that graph too (`Holds.put`).
* `Holds.machine_cases` says what a call can do, and the rest follows from it: the
  invariant is kept by a call (`Holds.step`) and by any calls (`exists_holds_of_run`).
* **`isAnswer_of_run`**: every call of a store whose folder was empty is answered from
  the graphs that were put first, if there is no I/O error.  Only names that are too long
  cause one (`isFault_iff_of_run`).
-/
import Stitch.Proofs.Files.Tree
import Stitch.Proofs.Store.Calls
import Stitch.Proofs.Store.Documents
import Stitch.Proofs.Store.FileNames

namespace Stitch.DirectoryStore

open FileTree (IsFolder IsShort outcome)

variable {s : DirectoryStore} {t t' : FileTree} {place : Location}
  {stored : Coordinate → Option MergedGraph} {c : Coordinate} {g : MergedGraph}

/-! ### What a folder holds -/

theorem graphExtension_mem : graphExtension ∈ extensions := by decide

theorem documentExtension_mem : documentExtension ∈ extensions := by decide

theorem stagingExtension_mem : stagingExtension ∈ extensions := by decide

/-- None of a coordinate's file names is too long. -/
def HasShortNames (c : Coordinate) : Prop := ∀ ending ∈ extensions, IsShort (fileName c ending)

instance : DecidablePred HasShortNames := fun c =>
  inferInstanceAs (Decidable (∀ ending ∈ extensions, IsShort (fileName c ending)))

/-- A folder holds graphs: of each of them both files, and nothing else. -/
structure Holds (s : DirectoryStore) (place : Location) (stored : Coordinate → Option MergedGraph)
    (t : FileTree) : Prop where
  isFolder : IsFolder t s.root place
  graph : ∀ c g, stored c = some g →
    t.entryIn place (fileName c graphExtension) = some (.file g.toDocument.toBytes)
  document : ∀ c g, stored c = some g → ∃ storedAt,
    t.entryIn place (fileName c documentExtension) =
      some (.file (StoredGraph.ofGraph c g storedAt).bytes)
  /-- No other names are in the folder, those of staged tables included. -/
  named : ∀ name, (t.entryIn place name).isSome → ∃ c, (stored c).isSome ∧
    (name = fileName c graphExtension ∨ name = fileName c documentExtension)
  short : ∀ c, (stored c).isSome → HasShortNames c
  readable : ∀ c g, stored c = some g → g.IsSound ∧ g.Fits

theorem Holds.entryIn_of_none (h : Holds s place stored t) (hc : stored c = none) {ending : String}
    (hending : ending ∈ extensions) : t.entryIn place (fileName c ending) = none := by
  cases hentry : t.entryIn place (fileName c ending) with
  | none => rfl
  | some entry =>
    obtain ⟨c', hc', hname | hname⟩ := h.named (fileName c ending) (Option.isSome_of_eq_some hentry)
    · obtain ⟨rfl, -⟩ := fileName_inj hending graphExtension_mem hname
      simp [hc] at hc'
    · obtain ⟨rfl, -⟩ := fileName_inj hending documentExtension_mem hname
      simp [hc] at hc'

/-! ### Questions -/

theorem Holds.find_graphPath (h : Holds s place stored t) (c : Coordinate) :
    (t.find (s.graphPath c)).toOption.isSome = (stored c).isSome := by
  have hname := isFileName_fileName (c := c) graphExtension_mem
  rw [graphPath, pathOf_eq_join]
  cases hc : stored c with
  | none =>
    by_cases hshort : IsShort (fileName c graphExtension)
    · rw [FileTree.find_join h.isFolder hname hshort, h.entryIn_of_none hc graphExtension_mem]
      rfl
    · rw [FileTree.find_join_of_not_isShort h.isFolder hname hshort]
      rfl
  | some g =>
    have hshort := h.short c (by simp [hc]) _ graphExtension_mem
    rw [FileTree.find_join h.isFolder hname hshort, h.graph c g hc]
    rfl

theorem Holds.outcome_contains (h : Holds s place stored t) (c : Coordinate) :
    outcome (s.contains c) t = (.ok (stored c).isSome, t) := by
  rw [contains, FileTree.outcome_contains, h.find_graphPath]

theorem Holds.outcome_get (h : Holds s place stored t) (c : Coordinate) :
    outcome (s.get c) t =
      (match stored c with
      | some g => .ok g
      | none => .error (.notFound c.text), t) := by
  rw [get, FileTree.outcome_bind_ok (h.outcome_contains c)]
  cases hc : stored c with
  | none => rfl
  | some g =>
    obtain ⟨hsound, hfits⟩ := h.readable c g hc
    have hread := FileTree.read_join h.isFolder (isFileName_fileName graphExtension_mem)
      (h.graph c g hc) (h.short c (by simp [hc]) _ graphExtension_mem)
    exact outcome_readGraph hread hsound hfits

/-- The names of the documents in a folder. -/
def documentNames (t : FileTree) (place : Location) : List String :=
  (t.namesIn place).filter fun name => Path.extension? name == some documentExtension

theorem Holds.mem_documentNames_iff (h : Holds s place stored t) {name : String} :
    name ∈ documentNames t place ↔
      ∃ c, (stored c).isSome ∧ name = fileName c documentExtension := by
  rw [documentNames, List.mem_filter, FileTree.mem_namesIn]
  constructor
  · rintro ⟨hentry, hending⟩
    obtain ⟨c, hc, rfl | rfl⟩ := h.named name hentry
    · rw [extension?_fileName graphExtension_mem] at hending
      exact absurd hending (by decide)
    · exact ⟨c, hc, rfl⟩
  · rintro ⟨c, hc, rfl⟩
    obtain ⟨g, hg⟩ := Option.isSome_iff_exists.1 hc
    obtain ⟨storedAt, hentry⟩ := h.document c g hg
    rw [hentry, extension?_fileName documentExtension_mem]
    simp

theorem Holds.outcome_list (h : Holds s place stored t) :
    ∃ entries, outcome s.list t = (.ok entries, t) ∧ IsListing stored entries := by
  have hread : ∀ name ∈ documentNames t place, ∃ e,
      outcome (readDocument (s.root.join ⟨name⟩)) t = (.ok e, t) ∧
        name = fileName e.coordinate documentExtension ∧ e.Describes stored := by
    intro name hname
    obtain ⟨c, hc, rfl⟩ := h.mem_documentNames_iff.1 hname
    obtain ⟨g, hg⟩ := Option.isSome_iff_exists.1 hc
    obtain ⟨storedAt, hentry⟩ := h.document c g hg
    have hread := FileTree.read_join h.isFolder (isFileName_fileName documentExtension_mem) hentry
      (h.short c hc _ documentExtension_mem)
    obtain ⟨hsound, hgraph⟩ := h.readable c g hg
    have hfits := StoredGraph.fits_ofGraph hgraph hsound c storedAt
    exact ⟨_, outcome_readDocument hread hfits, rfl, g, hg, rfl, rfl⟩
  choose! entryOf hentryOf hname hdescribes using hread
  refine ⟨StoredGraph.sorted ((documentNames t place).map entryOf), ?_,
    IsListing.of_perm ⟨?_, ?_, ?_⟩ (List.mergeSort_perm _ _).symm⟩
  · have hfiles : outcome (s.filesWith documentExtension) t =
        (.ok ((documentNames t place).map fun name => s.root.join ⟨name⟩), t) :=
      FileTree.outcome_bind_ok (FileTree.outcome_list (FileTree.list_of_isFolder h.isFolder))
    have hdocuments : outcome (((documentNames t place).map fun name =>
        s.root.join ⟨name⟩).mapM readDocument) t =
          (.ok ((documentNames t place).map entryOf), t) := by
      rw [List.mapM_map]
      exact FileTree.outcome_mapM hentryOf
    rw [list, FileTree.outcome_bind_ok hfiles, FileTree.outcome_bind_ok hdocuments]
    rfl
  · -- A document's name gives its coordinate, and the folder has no name twice.
    rw [List.map_map]
    refine List.Nodup.map_on (fun name hmem name' hmem' heq => ?_)
      ((FileTree.nodup_namesIn t place).filter _)
    have heq : (entryOf name).coordinate = (entryOf name').coordinate := heq
    rw [hname name hmem, hname name' hmem', heq]
  · intro e he
    obtain ⟨name, hmem, rfl⟩ := List.mem_map.1 he
    exact hdescribes name hmem
  · intro c g hc
    have hmem := h.mem_documentNames_iff.2 ⟨c, Option.isSome_of_eq_some hc, rfl⟩
    refine ⟨_, List.mem_map_of_mem hmem, ?_⟩
    exact (fileName_inj documentExtension_mem documentExtension_mem (hname _ hmem)).1.symm

/-! ### Putting a graph -/

theorem Holds.outcome_put_of_some (h : Holds s place stored t) (hc : (stored c).isSome) :
    outcome (s.put c g) t = (.error (.alreadyStored c.text), t) := by
  have hcontains : outcome (liftM (FileSystem.contains (s.graphPath c) : StateM FileTree Bool) :
      ExceptT StoreError (StateM FileTree) Bool) t = (.ok true, t) := by
    rw [FileTree.outcome_contains, h.find_graphPath, hc]
  rw [put, FileTree.outcome_bind_ok hcontains]
  rfl

/-- What is done for a graph that is not stored yet: its tables are written under
another name and moved, and its document is written. -/
def writeFiles (s : DirectoryStore) (c : Coordinate) (g : MergedGraph) :
    ExceptT StoreError (StateM FileTree) Unit := do
  FileSystem.attempt (.unavailable (s.stagingPath c))
    (FileSystem.write (s.stagingPath c) g.toDocument.toBytes)
  FileSystem.attempt (.unavailable (s.graphPath c))
    (FileSystem.move (s.stagingPath c) (s.graphPath c))
  let storedAt ← (FileSystem.now : StateM FileTree Instant)
  FileSystem.attempt (.unavailable (s.documentPath c))
    (FileSystem.write (s.documentPath c) (StoredGraph.ofGraph c g storedAt).bytes)

theorem Holds.outcome_put_of_none (h : Holds s place stored t) (hc : stored c = none) :
    outcome (s.put c g) t = outcome (s.writeFiles c g) t := by
  have hcontains : outcome (liftM (FileSystem.contains (s.graphPath c) : StateM FileTree Bool) :
      ExceptT StoreError (StateM FileTree) Bool) t = (.ok false, t) := by
    rw [FileTree.outcome_contains, h.find_graphPath, hc, Option.isSome_none]
  rw [put, FileTree.outcome_bind_ok hcontains]
  rfl

/-- A folder gains the file of a graph's tables and then its document. -/
structure GainsFiles (s : DirectoryStore) (place : Location) (c : Coordinate) (g : MergedGraph)
    (t t' : FileTree) : Prop where
  short : HasShortNames c
  files : ∃ t₁ storedAt,
    FileTree.Gains s.root place (fileName c graphExtension) g.toDocument.toBytes t t₁ ∧
      FileTree.Gains s.root place (fileName c documentExtension)
        (StoredGraph.ofGraph c g storedAt).bytes t₁ t'

/-- A new graph gets its two files, unless one of their names is too long. -/
theorem outcome_writeFiles (h : IsFolder t s.root place)
    (habsent : ∀ ending ∈ extensions, t.entryIn place (fileName c ending) = none) :
    (¬HasShortNames c ∧
        ∃ path t', outcome (s.writeFiles c g) t = (.error (.unavailable path .nameTooLong), t')) ∨
      ∃ t', outcome (s.writeFiles c g) t = (.ok (), t') ∧ GainsFiles s place c g t t' := by
  have hgraph := isFileName_fileName (c := c) graphExtension_mem
  have hdocument := isFileName_fileName (c := c) documentExtension_mem
  have hstaging := isFileName_fileName (c := c) stagingExtension_mem
  have hne : fileName c graphExtension ≠ fileName c stagingExtension :=
    fileName_ne graphExtension_mem stagingExtension_mem (.inr (by decide))
  have hne' : fileName c documentExtension ≠ fileName c graphExtension :=
    fileName_ne documentExtension_mem graphExtension_mem (.inr (by decide))
  simp only [writeFiles, stagingPath, graphPath, documentPath, pathOf_eq_join]
  obtain ⟨hfault, hlong⟩ | ⟨t₁, hwrite, hshort, hstaged⟩ :=
    FileTree.outcome_write_join h hstaging (habsent _ stagingExtension_mem)
  · exact .inl ⟨fun hnames => hlong (hnames _ stagingExtension_mem), _, _,
      FileTree.outcome_bind_error hfault⟩
  rw [FileTree.outcome_bind_ok hwrite]
  obtain ⟨hfault, hlong⟩ | ⟨t₂, hmove, hshort', hmoved⟩ :=
    FileTree.outcome_move_join hstaged hstaging hgraph hne hshort (habsent _ stagingExtension_mem)
      (habsent _ graphExtension_mem)
  · exact .inl ⟨fun hnames => hlong (hnames _ graphExtension_mem), _, _,
      FileTree.outcome_bind_error hfault⟩
  rw [FileTree.outcome_bind_ok hmove, FileTree.outcome_bind_ok FileTree.outcome_now]
  have hentry := hmoved.other _ hne'
  rw [habsent _ documentExtension_mem] at hentry
  obtain ⟨hfault, hlong⟩ | ⟨t₃, hwrite', hshort'', hdone⟩ :=
    FileTree.outcome_write_join hmoved.isFolder hdocument hentry
  · exact .inl ⟨fun hnames => hlong (hnames _ documentExtension_mem), _, _, hfault⟩
  refine .inr ⟨t₃, hwrite', fun ending hending => ?_, t₂, t₂.now, hmoved, hdone⟩
  simp only [extensions, List.mem_cons, List.not_mem_nil, or_false] at hending
  rcases hending with rfl | rfl | rfl
  · exact hshort'
  · exact hshort''
  · exact hshort

/-- With both files of a new graph the folder holds that graph too. -/
theorem Holds.put (h : Holds s place stored t) (hc : stored c = none)
    (hgains : GainsFiles s place c g t t') (hsound : g.IsSound) (hfits : g.Fits) :
    Holds s place ((StoreCall.put c g).after stored) t' := by
  obtain ⟨t₁, storedAt, hgraph, hdocument⟩ := hgains.files
  -- The files of other graphs are not touched.
  have hothers {c' : Coordinate} {g' : MergedGraph} {ending : String} (hc' : stored c' = some g')
      (hending : ending ∈ extensions) :
      t'.entryIn place (fileName c' ending) = t.entryIn place (fileName c' ending) := by
    have hcne : c' ≠ c := by
      rintro rfl
      rw [hc] at hc'
      cases hc'
    rw [hdocument.other _ (fileName_ne hending documentExtension_mem (.inl hcne)),
      hgraph.other _ (fileName_ne hending graphExtension_mem (.inl hcne))]
  refine ⟨hdocument.isFolder, fun c' g' hc' => ?_, fun c' g' hc' => ?_, fun name hname => ?_,
    fun c' hc' => ?_, fun c' g' hc' => ?_⟩
  · rcases StoreCall.after_put_eq_some hc' with hc' | ⟨rfl, rfl⟩
    · rw [hothers hc' graphExtension_mem]
      exact h.graph c' g' hc'
    · rw [hdocument.other _ (fileName_ne graphExtension_mem documentExtension_mem
        (.inr (by decide)))]
      exact hgraph.entry
  · rcases StoreCall.after_put_eq_some hc' with hc' | ⟨rfl, rfl⟩
    · rw [hothers hc' documentExtension_mem]
      exact h.document c' g' hc'
    · exact ⟨storedAt, hdocument.entry⟩
  · have hself : ((StoreCall.put c g).after stored c).isSome :=
      Option.isSome_of_eq_some (StoreCall.after_put_self hc)
    by_cases hdocumentName : name = fileName c documentExtension
    · exact ⟨c, hself, .inr hdocumentName⟩
    · by_cases hgraphName : name = fileName c graphExtension
      · exact ⟨c, hself, .inl hgraphName⟩
      · rw [hdocument.other _ hdocumentName, hgraph.other _ hgraphName] at hname
        obtain ⟨c', hc', hname⟩ := h.named name hname
        obtain ⟨g', hg'⟩ := Option.isSome_iff_exists.1 hc'
        exact ⟨c', Option.isSome_of_eq_some (StoreCall.after_eq_some hg'), hname⟩
  · obtain ⟨g', hg'⟩ := Option.isSome_iff_exists.1 hc'
    rcases StoreCall.after_put_eq_some hg' with hg' | ⟨rfl, rfl⟩
    · exact h.short c' (Option.isSome_of_eq_some hg')
    · exact hgains.short
  · rcases StoreCall.after_put_eq_some hc' with hc' | ⟨rfl, rfl⟩
    · exact h.readable c' g' hc'
    · exact ⟨hsound, hfits⟩

/-! ### Calls -/

/-- The store as a machine whose state is the tree.  The clock shows what it will. -/
def machine (s : DirectoryStore) : StoreMachine FileTree := fun now call t =>
  outcome (s.store.answer call) { t with now }

theorem Holds.withNow (h : Holds s place stored t) (now : Instant) :
    Holds s place stored { t with now } :=
  ⟨h.isFolder.mono (fun _ hentry => hentry) rfl, h.graph, h.document, h.named, h.short, h.readable⟩

/-- What a call does: it is answered and changes nothing, or it adds the files of a new
graph, or a name is too long for them. -/
theorem Holds.machine_cases (h : Holds s place stored t) (now : Instant) (call : StoreCall) :
    (∃ result, s.machine now call t = (result, { t with now }) ∧ IsAnswer stored call result ∧
        call.after stored = stored) ∨
      (∃ c g t', call = .put c g ∧ stored c = none ∧
        s.machine now call t = (.ok .stored, t') ∧ GainsFiles s place c g { t with now } t') ∨
      ∃ c g path t', call = .put c g ∧ stored c = none ∧ ¬HasShortNames c ∧
        s.machine now call t = (.error (.unavailable path .nameTooLong), t') := by
  have h := h.withNow now
  cases call with
  | get c =>
    refine .inl ⟨_, ?_, rfl, StoreCall.after_of_put?_eq_none fun _ => rfl⟩
    have hget := h.outcome_get c
    cases hc : stored c with
    | none =>
      rw [hc] at hget
      exact FileTree.outcome_bind_error hget
    | some g =>
      rw [hc] at hget
      exact FileTree.outcome_bind_ok hget
  | contains c =>
    exact .inl ⟨_, FileTree.outcome_bind_ok (h.outcome_contains c), rfl,
      StoreCall.after_of_put?_eq_none fun _ => rfl⟩
  | list =>
    obtain ⟨entries, hlist, hlisting⟩ := h.outcome_list
    exact .inl ⟨_, FileTree.outcome_bind_ok hlist, ⟨entries, rfl, hlisting⟩,
      StoreCall.after_of_put?_eq_none fun _ => rfl⟩
  | put c g =>
    cases hc : stored c with
    | some g' =>
      have hsome : (stored c).isSome := Option.isSome_of_eq_some hc
      refine .inl ⟨_, FileTree.outcome_bind_error (h.outcome_put_of_some hsome), ?_,
        StoreCall.after_put_of_isSome hsome⟩
      rw [IsAnswer, if_pos hsome]
    | none =>
      have hput := h.outcome_put_of_none (g := g) hc
      rcases outcome_writeFiles (g := g) h.isFolder fun _ => h.entryIn_of_none hc with
        ⟨hlong, path, t', hfault⟩ | ⟨t', hwrite, hgains⟩
      · exact .inr (.inr ⟨c, g, path, t', rfl, hc, hlong,
          FileTree.outcome_bind_error (hput.trans hfault)⟩)
      · exact .inr (.inl ⟨c, g, t', rfl, hc, FileTree.outcome_bind_ok (hput.trans hwrite), hgains⟩)

/-- A call without an I/O error leaves a folder that holds what was there and what it
put. -/
theorem Holds.step {now : Instant} {call : StoreCall} (h : Holds s place stored t)
    (hfault : ¬(s.machine now call t).1.IsFault)
    (hput : ∀ c g, call = .put c g → g.IsSound ∧ g.Fits) :
    Holds s place (call.after stored) (s.machine now call t).2 := by
  rcases h.machine_cases now call with ⟨result, hcall, -, hafter⟩ |
    ⟨c, g, t', rfl, hc, hcall, hgains⟩ | ⟨c, g, path, t', -, -, -, hcall⟩
  · rw [hcall, hafter]
    exact h.withNow now
  · obtain ⟨hsound, hfits⟩ := hput c g rfl
    rw [hcall]
    exact (h.withNow now).put hc hgains hsound hfits
  · rw [hcall] at hfault
    exact absurd ⟨path, _, rfl⟩ hfault

/-- An empty folder holds no graphs. -/
theorem exists_holds_of_list_eq_nil (h : t.list s.root = .ok []) :
    ∃ place, Holds s place (firstPut []) t := by
  obtain ⟨place, hfolder, hnames⟩ := FileTree.exists_isFolder_of_list_eq_ok h
  refine ⟨place, hfolder, fun c g hc => ?_, fun c g hc => ?_, fun name hname => ?_,
    fun c hc => ?_, fun c g hc => ?_⟩
  · cases hc
  · cases hc
  · rw [← FileTree.mem_namesIn, hnames] at hname
    cases hname
  · cases hc
  · cases hc

section Runs

variable {start : FileTree} {history : List StoreCall} {now : Instant} {call : StoreCall}
  (hstart : start.list s.root = .ok [])
  (hbuilt : ∀ c g, .put c g ∈ history → g.IsBuilt ∧ g.Fits)
  (hrun : StoreMachine.Run s.machine start history t)
include hstart hbuilt hrun

/-- After any calls the folder holds the graphs that were put first. -/
theorem exists_holds_of_run : ∃ place, Holds s place (firstPut history) t := by
  induction hrun with
  | start => exact exists_holds_of_list_eq_nil hstart
  | @call history t now call hrun hfault ih =>
    obtain ⟨place, h⟩ := ih fun c g hmem => hbuilt c g (List.mem_append_left _ hmem)
    refine ⟨place, firstPut_concat history call ▸ h.step hfault fun c g heq => ?_⟩
    obtain ⟨hg, hfits⟩ := hbuilt c g (by simp [heq])
    exact ⟨hg.isSound, hfits⟩

/-- Exactly the new coordinates whose files have too long names meet an I/O error. -/
theorem isFault_iff_of_run : (s.machine now call t).1.IsFault ↔
    ∃ c g, call = .put c g ∧ firstPut history c = none ∧ ¬HasShortNames c := by
  obtain ⟨place, h⟩ := exists_holds_of_run hstart hbuilt hrun
  constructor
  · intro hfault
    rcases h.machine_cases now call with ⟨result, hcall, hanswer, -⟩ |
      ⟨c, g, t', -, -, hcall, -⟩ | ⟨c, g, path, t', hput, hc, hlong, -⟩
    · rw [hcall] at hfault
      exact absurd hfault hanswer.not_isFault
    · rw [hcall] at hfault
      obtain ⟨path, fault, heq⟩ := hfault
      cases heq
    · exact ⟨c, g, hput, hc, hlong⟩
  · rintro ⟨c, g, rfl, hc, hlong⟩
    rcases h.machine_cases now (.put c g) with ⟨result, hcall, -, hafter⟩ |
      ⟨c', g', t', hput, -, -, hgains⟩ | ⟨c', g', path, t', -, -, -, hcall⟩
    · -- A graph would be there that no call has put.
      have hself := StoreCall.after_put_self (g := g) hc
      rw [hafter, hc] at hself
      cases hself
    · cases hput
      exact absurd hgains.short hlong
    · rw [hcall]
      exact ⟨path, _, rfl⟩

end Runs

/-- **A store in a folder is a map that only grows**: after any calls, a call is answered
from the graphs that were put first, and unless it stores a graph it changes nothing.  The
only calls with an I/O error instead are those that would store a graph under too long
names. -/
theorem isAnswer_of_run {start : FileTree} {history : List StoreCall} {now : Instant}
    {call : StoreCall} (hstart : start.list s.root = .ok [])
    (hbuilt : ∀ c g, .put c g ∈ history → g.IsBuilt ∧ g.Fits)
    (hrun : StoreMachine.Run s.machine start history t) :
    ((s.machine now call t).1.IsFault ↔
      ∃ c g, call = .put c g ∧ firstPut history c = none ∧ ¬HasShortNames c) ∧
    (¬(s.machine now call t).1.IsFault →
      IsAnswer (firstPut history) call (s.machine now call t).1 ∧
        ((s.machine now call t).1 ≠ .ok .stored → (s.machine now call t).2 = { t with now })) := by
  refine ⟨isFault_iff_of_run hstart hbuilt hrun, fun hfault => ?_⟩
  obtain ⟨place, h⟩ := exists_holds_of_run hstart hbuilt hrun
  rcases h.machine_cases now call with ⟨result, hcall, hanswer, -⟩ |
    ⟨c, g, t', rfl, hc, hcall, -⟩ | ⟨c, g, path, t', -, -, -, hcall⟩
  · rw [hcall]
    exact ⟨hanswer, fun _ => rfl⟩
  · rw [hcall]
    refine ⟨?_, fun hne => absurd rfl hne⟩
    rw [IsAnswer, hc]
    rfl
  · rw [hcall] at hfault
    exact absurd ⟨path, _, rfl⟩ hfault

/-! ### A store with two graphs -/

def sampleStore : DirectoryStore := ⟨⟨"/graphs"⟩⟩

def sampleTree : FileTree := { entries := SortedMap.ofList [(["graphs"], .folder)] }

def sampleCoordinate : Coordinate := ⟨"mvn", ⟨"a_b", "c"⟩, "1.0"⟩

/-- The same text as the sample's with underscores between the fields. -/
def twinCoordinate : Coordinate := ⟨"mvn", ⟨"a", "b_c"⟩, "1.0"⟩

def sampleGraph : MergedGraph where
  nodes := [⟨"/a/F.m()", "/a/F", true⟩, ⟨"/b/G.n()", "", false⟩]
  links := SortedMap.ofList [(⟨0, 1⟩, ())]
  calls := SortedMap.ofList [(⟨0, 1⟩, [.virtual])]

theorem isBuilt_sampleGraph : sampleGraph.IsBuilt := by
  refine .addCall (.addNode ⟨"/b/G.n()", "", false⟩ (.addNode ⟨"/a/F.m()", "/a/F", true⟩ .empty))
    (?_ : MergedGraph.addCall _ ⟨0, 1⟩ .virtual = _)
  decide +kernel

theorem fits_sampleGraph : sampleGraph.Fits := by
  constructor <;> decide +kernel

/-- The sample is read back after a graph was put for its twin. -/
theorem isAnswer_of_run_twin :
    let stored := (sampleStore.machine .epoch (.put sampleCoordinate sampleGraph) sampleTree).2
    let both := (sampleStore.machine .epoch (.put twinCoordinate {}) stored).2
    (sampleStore.machine .epoch (.get sampleCoordinate) both).1 = .ok (.graph sampleGraph) := by
  intro stored both
  have hstart : sampleTree.list sampleStore.root = .ok [] := by decide +kernel
  have hsample := And.intro isBuilt_sampleGraph fits_sampleGraph
  have hempty : ({} : MergedGraph).IsBuilt ∧ ({} : MergedGraph).Fits := by
    refine ⟨.empty, ?_, ?_⟩ <;> decide +kernel
  have hbuilt : ∀ c g, .put c g ∈ [StoreCall.put sampleCoordinate sampleGraph,
      .put twinCoordinate {}] → g.IsBuilt ∧ g.Fits := by
    intro c g hmem
    simp only [List.mem_cons, StoreCall.put.injEq, List.not_mem_nil, or_false] at hmem
    rcases hmem with ⟨-, rfl⟩ | ⟨-, rfl⟩
    · exact hsample
    · exact hempty
  have hrun : StoreMachine.Run sampleStore.machine sampleTree
      [.put sampleCoordinate sampleGraph, .put twinCoordinate {}] both := by
    have hno_fault {r : StoreResult} (h : r = .ok .stored) : ¬r.IsFault := by
      rintro ⟨path, fault, hfault⟩
      cases h.symm.trans hfault
    refine .call (.call .start (hno_fault ?_)) (hno_fault ?_) <;> decide +kernel
  obtain ⟨hfault_iff, hanswers⟩ := isAnswer_of_run hstart hbuilt hrun
  have hfault : ¬(sampleStore.machine .epoch (.get sampleCoordinate) both).1.IsFault := by
    rw [hfault_iff]
    rintro ⟨c, g, hput, -⟩
    cases hput
  have hanswer := (hanswers hfault).1
  have hfirst : firstPut [.put sampleCoordinate sampleGraph, .put twinCoordinate {}]
      sampleCoordinate = some sampleGraph := by decide +kernel
  rw [IsAnswer, hfirst] at hanswer
  exact hanswer

end Stitch.DirectoryStore
