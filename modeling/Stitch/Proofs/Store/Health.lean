/-
A store in a folder that is only written by its own calls is healthy.

After any calls the folder holds the two files of every graph that was put first and
nothing else (`DirectoryStore.Holds`).  So the check can read all that it finds, every
document is that of tables and every tables have a document, and the counts agree.  What is
left are the URIs of internal nodes: the check finds a problem exactly where a graph was put
that has one of them twice, as no merged graph has (`hasDistinctInternals_of_merge`).

* `Holds.isStoreFolder` is what the check asks of a folder, `Holds.describedDetails_eq` and
  `Holds.undescribedNames_eq_nil` are what it finds there.
* `IsListing.length_eq` counts the entries: one for each coordinate that was put.
* **`check_of_run`** is the report after any calls.
-/
import Stitch.Proofs.Merge.Assembly
import Stitch.Proofs.Store.Integrity

namespace Stitch

/-! ### Internal nodes -/

namespace MergedGraph

variable {g : MergedGraph}

/-- No two internal nodes have the same URI. -/
def HasDistinctInternals (g : MergedGraph) : Prop :=
  ((g.nodes.filter (·.isInternal)).map (·.uri)).Nodup

theorem repeatedInternalUris_eq_nil_iff :
    g.repeatedInternalUris = [] ↔ g.HasDistinctInternals := by
  rw [HasDistinctInternals, List.nodup_iff_count_le_one]
  generalize huris : (g.nodes.filter (·.isInternal)).map (·.uri) = uris
  have hmem (uri : String) :
      uri ∈ g.repeatedInternalUris ↔ uri ∈ uris ∧ 1 < uris.count uri := by
    simp [repeatedInternalUris, huris]
  rw [List.eq_nil_iff_forall_not_mem]
  refine forall_congr' fun uri => ?_
  rw [hmem, not_and, Nat.not_lt]
  refine ⟨fun h => ?_, fun h _ => h⟩
  by_cases huri : uri ∈ uris
  · exact h huri
  · rw [List.count_eq_zero_of_not_mem huri]
    exact Nat.zero_le 1

/-- In a merged graph no URI is repeated at all. -/
theorem hasDistinctInternals_of_merge {o : MergeOptions} {base : PartialGraph}
    {dependencies : List PartialGraph} {m : Merged} (h : merge o base dependencies = .ok m) :
    m.graph.HasDistinctInternals := by
  obtain ⟨_, hm, hassembled⟩ := Merge.exists_merge_ok o base dependencies
  cases h.symm.trans hm
  exact hassembled.uris_nodup.sublist (List.filter_sublist.map _)

end MergedGraph

/-! ### Coordinates that are put -/

/-- The coordinate that a call puts a graph at. -/
def StoreCall.putAt? : StoreCall → Option Coordinate
  | .put c _ => some c
  | _ => none

/-- The coordinates that calls put graphs at, each once. -/
def putCoordinates (history : List StoreCall) : List Coordinate :=
  distinct (history.filterMap StoreCall.putAt?)

theorem StoreCall.isSome_put?_iff {call : StoreCall} {c : Coordinate} :
    (call.put? c).isSome ↔ call.putAt? = some c := by
  cases call with
  | put c' g =>
    rw [put?, putAt?, Option.some.injEq]
    split
    next heq => simp [heq]
    next hne => simp [hne]
  | get c' => simp [put?, putAt?]
  | contains c' => simp [put?, putAt?]
  | list => simp [put?, putAt?]

theorem mem_putCoordinates_iff {history : List StoreCall} {c : Coordinate} :
    c ∈ putCoordinates history ↔ (firstPut history c).isSome := by
  rw [putCoordinates, mem_distinct, List.mem_filterMap, firstPut, List.findSome?_isSome_iff]
  simp only [StoreCall.isSome_put?_iff]

/-- A listing has one entry for each coordinate that was put. -/
theorem IsListing.length_eq {history : List StoreCall} {entries : List StoredGraph}
    (h : IsListing (firstPut history) entries) :
    entries.length = (putCoordinates history).length := by
  have hperm : (entries.map (·.coordinate)).Perm (putCoordinates history) := by
    refine (List.perm_ext_iff_of_nodup h.nodup (nodup_distinct _)).2 fun c => ?_
    rw [← putCoordinates, mem_putCoordinates_iff, List.mem_map]
    constructor
    · rintro ⟨e, he, rfl⟩
      obtain ⟨g, hg, -⟩ := h.described e he
      exact Option.isSome_of_eq_some hg
    · intro hc
      obtain ⟨g, hg⟩ := Option.isSome_iff_exists.1 hc
      exact h.complete c g hg
  rw [← hperm.length_eq, List.length_map]

namespace DirectoryStore

open FileTree (outcome)

variable {s : DirectoryStore} {t : FileTree} {place : Location}
  {stored : Coordinate → Option MergedGraph} {entries : List StoredGraph}

/-! ### What the check finds -/

theorem Holds.isStoreFolder (h : Holds s place stored t) : IsStoreFolder s place t where
  isFolder := h.isFolder
  named name hname := by
    obtain ⟨c, hc, rfl | rfl⟩ := h.named name (FileTree.mem_namesIn.1 hname)
    · exact ⟨isFileName_fileName graphExtension_mem, h.short c hc _ graphExtension_mem⟩
    · exact ⟨isFileName_fileName documentExtension_mem, h.short c hc _ documentExtension_mem⟩
  isFile name hname _ := by
    obtain ⟨c, hc, hname⟩ := h.named name (FileTree.mem_namesIn.1 hname)
    obtain ⟨g, hg⟩ := Option.isSome_iff_exists.1 hc
    rcases hname with rfl | rfl
    · simp [h.graph c g hg]
    · obtain ⟨storedAt, hentry⟩ := h.document c g hg
      simp [hentry]

theorem Holds.graphIn_eq (h : Holds s place stored t) {c : Coordinate} {g : MergedGraph}
    (hc : stored c = some g) : graphIn t place c = .ok g := by
  have hget := (outcome_get_graphIn h.isStoreFolder c).symm.trans (h.outcome_get c)
  rw [hc] at hget
  exact congrArg Prod.fst hget

/-- The counts of an entry are those of its graph, so only repeated URIs are wrong. -/
theorem Holds.describedDetails_eq (h : Holds s place stored t) {entry : StoredGraph}
    {g : MergedGraph} (hg : stored entry.coordinate = some g)
    (hnodes : entry.nodeCount = g.nodeCount) (hedges : entry.edgeCount = g.edgeCount) :
    describedDetails t place entry =
      g.repeatedInternalUris.map fun uri => s!"internal URI {uri} appears more than once" := by
  rw [describedDetails, h.graphIn_eq hg]
  show entry.problems g = _
  rw [StoredGraph.problems, if_pos ⟨hnodes.symm, hedges.symm⟩, List.nil_append]

/-- All tables have a document. -/
theorem Holds.undescribedNames_eq_nil (h : Holds s place stored t)
    (hentries : IsListing stored entries) : s.undescribedNames t place entries = [] := by
  refine List.filter_eq_nil_iff.2 fun name hname => ?_
  obtain ⟨hmem, hending⟩ := List.mem_filter.1 hname
  obtain ⟨c, hc, rfl | rfl⟩ := h.named name (FileTree.mem_namesIn.1 hmem)
  · obtain ⟨g, hg⟩ := Option.isSome_iff_exists.1 hc
    obtain ⟨entry, hentry, rfl⟩ := hentries.complete c g hg
    have hpath : s.graphPath entry.coordinate ∈
        entries.map fun entry => s.graphPath entry.coordinate := List.mem_map_of_mem hentry
    rw [graphPath, pathOf_eq_join] at hpath
    simpa using hpath
  · rw [extension?_fileName documentExtension_mem] at hending
    exact absurd hending (by decide)

theorem Holds.describedDetails_eq_nil_iff (h : Holds s place stored t)
    (hentries : IsListing stored entries) :
    (∀ entry ∈ entries, describedDetails t place entry = []) ↔
      ∀ c g, stored c = some g → g.HasDistinctInternals := by
  constructor
  · intro hnone c g hg
    obtain ⟨entry, hentry, rfl⟩ := hentries.complete c g hg
    obtain ⟨g', hg', hnodes, hedges⟩ := hentries.described entry hentry
    cases hg.symm.trans hg'
    have hdetails := hnone entry hentry
    rw [h.describedDetails_eq hg hnodes hedges, List.map_eq_nil_iff] at hdetails
    exact MergedGraph.repeatedInternalUris_eq_nil_iff.1 hdetails
  · intro hdistinct entry hentry
    obtain ⟨g, hg, hnodes, hedges⟩ := hentries.described entry hentry
    rw [h.describedDetails_eq hg hnodes hedges, List.map_eq_nil_iff]
    exact MergedGraph.repeatedInternalUris_eq_nil_iff.2 (hdistinct _ g hg)

/-- **A store that is only written by its own calls is healthy.**  After any calls without an
I/O error the check counts each coordinate once that a graph was put at.  It finds a problem
only if a graph was stored that has the URI of an internal node twice, as no merged graph
has, and without a problem it counts all of them as healthy. -/
theorem check_of_run {start : FileTree} {history : List StoreCall}
    (hstart : start.list s.root = .ok [])
    (hbuilt : ∀ c g, .put c g ∈ history → g.IsBuilt ∧ g.Fits)
    (hrun : StoreMachine.Run s.machine start history t) :
    (∃ report, outcome s.check t = (.ok report, t) ∧
      report.checked = (putCoordinates history).length ∧
      (report.problems = [] ↔ ∀ c g, firstPut history c = some g → g.HasDistinctInternals) ∧
      (report.problems = [] → report.healthy = report.checked)) ∧
    ∀ o base dependencies m, merge o base dependencies = .ok m →
      m.graph.HasDistinctInternals := by
  refine ⟨?_, fun o base dependencies m => MergedGraph.hasDistinctInternals_of_merge⟩
  obtain ⟨place, h⟩ := exists_holds_of_run hstart hbuilt hrun
  obtain ⟨entries, hlist, hentries⟩ := h.outcome_list
  have hnone := h.undescribedNames_eq_nil hentries
  have hproblems : (s.reportOn t place entries).problems = [] ↔
      ∀ entry ∈ entries, describedDetails t place entry = [] := by
    rw [reportOn, hnone]
    simp [List.flatMap_eq_nil_iff]
  refine ⟨_, outcome_check h.isStoreFolder hlist, ?_, ?_, fun hhealthy => ?_⟩
  · rw [reportOn, hnone, ← hentries.length_eq]
    rfl
  · rw [hproblems, h.describedDetails_eq_nil_iff hentries]
  · have hall : entries.filter (fun entry => (describedDetails t place entry).isEmpty) =
        entries := List.filter_eq_self.2 fun entry hentry => by
      rw [hproblems.1 hhealthy entry hentry]
      rfl
    rw [reportOn, hnone, hall]
    rfl

/-- Two graphs, and one more for the first coordinate, which is refused. -/
def sampleHistory : List StoreCall :=
  [.put sampleCoordinate sampleGraph, .put twinCoordinate {}, .put sampleCoordinate {}]

theorem isBuilt_of_mem_sampleHistory {c : Coordinate} {g : MergedGraph}
    (h : .put c g ∈ sampleHistory) : g.IsBuilt ∧ g.Fits ∧ g.HasDistinctInternals := by
  have hempty : ({} : MergedGraph).IsBuilt ∧ ({} : MergedGraph).Fits ∧
      ({} : MergedGraph).HasDistinctInternals := by
    refine ⟨.empty, ⟨?_, ?_⟩, List.nodup_nil⟩ <;> decide +kernel
  simp only [sampleHistory, List.mem_cons, StoreCall.put.injEq, List.not_mem_nil, or_false] at h
  rcases h with ⟨-, rfl⟩ | ⟨-, rfl⟩ | ⟨-, rfl⟩
  · exact ⟨isBuilt_sampleGraph, fits_sampleGraph, List.nodup_singleton _⟩
  · exact hempty
  · exact hempty

theorem exists_run_sampleHistory :
    ∃ t, StoreMachine.Run sampleStore.machine sampleTree sampleHistory t := by
  have hstored {r : StoreResult} (h : r = .ok .stored) : ¬r.IsFault := by
    rintro ⟨path, fault, rfl⟩
    cases h
  have hrefused {r : StoreResult} {c : String} (h : r = .error (.alreadyStored c)) :
      ¬r.IsFault := by
    rintro ⟨path, fault, rfl⟩
    cases h
  have hcall {history : List StoreCall} {t : FileTree} {call : StoreCall}
      (h : StoreMachine.Run sampleStore.machine sampleTree history t)
      (hfault : ¬(sampleStore.machine .epoch call t).1.IsFault) :
      StoreMachine.Run sampleStore.machine sampleTree (history ++ [call])
        (sampleStore.machine .epoch call t).2 := .call h hfault
  refine ⟨_, hcall (hcall (hcall .start (hstored ?_)) (hstored ?_))
    (hrefused (c := sampleCoordinate.text) ?_)⟩ <;> decide +kernel

/-- After the three calls two graphs are checked and healthy. -/
theorem check_of_run_sampleHistory : ∃ t report,
    StoreMachine.Run sampleStore.machine sampleTree sampleHistory t ∧
      outcome sampleStore.check t = (.ok report, t) ∧
      report = { checked := 2, healthy := 2, problems := [] } := by
  obtain ⟨t, hrun⟩ := exists_run_sampleHistory
  have hstart : sampleTree.list sampleStore.root = .ok [] := by decide +kernel
  have hbuilt : ∀ c g, .put c g ∈ sampleHistory → g.IsBuilt ∧ g.Fits := fun c g hmem =>
    ⟨(isBuilt_of_mem_sampleHistory hmem).1, (isBuilt_of_mem_sampleHistory hmem).2.1⟩
  have hinternals : ∀ c g, firstPut sampleHistory c = some g → g.HasDistinctInternals := by
    intro c g hfirst
    obtain ⟨call, hcall, hput⟩ := List.exists_of_findSome?_eq_some hfirst
    cases call with
    | put c' g' =>
      obtain ⟨-, rfl⟩ : c' = c ∧ g' = g := by simpa [StoreCall.put?] using hput
      exact (isBuilt_of_mem_sampleHistory hcall).2.2
    | get c' => cases hput
    | contains c' => cases hput
    | list => cases hput
  obtain ⟨⟨report, hcheck, hchecked, hproblems, hhealthy⟩, -⟩ :=
    check_of_run hstart hbuilt hrun
  have hcount : (putCoordinates sampleHistory).length = 2 := by decide +kernel
  have hnone := hproblems.2 hinternals
  refine ⟨t, report, hrun, hcheck, ?_⟩
  obtain ⟨checked, healthy, problems⟩ := report
  rw [IntegrityReport.mk.injEq]
  exact ⟨hchecked.trans hcount, (hhealthy hnone).trans (hchecked.trans hcount), hnone⟩

end DirectoryStore

end Stitch
