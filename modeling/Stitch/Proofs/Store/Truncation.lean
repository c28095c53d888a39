/-
Files that are cut off are never read as data.

A snapshot and the tables of a stored graph are records one behind the other, and the
readers accept anything behind the last one.  What makes a file safe that was not
written to its end is that no strict prefix of it can be read at all:

* the readers of all records decide from the bytes that they take
  (`Snapshot.readsFront_contents`, `GraphDocument.readsFront_ofBytes`), so nothing is
  read from a cut (`ofSnapshot_eq_error_of_cut`, `decodeGraph_eq_error_of_cut`);
* after a `put` that succeeds, in any tree, the file of the graph has the bytes of its
  tables (`read_graphPath_of_put`).

**`truncated_files_are_refused`** puts these together.
-/
import Stitch.Proofs.Binary.Truncation
import Stitch.Proofs.Dependency.Snapshot
import Stitch.Proofs.Files.Folders
import Stitch.Proofs.Store.Directory

namespace Stitch

open Binary (Reader)

/-! ### Records -/

namespace Snapshot

theorem readsFront_coordinate : coordinate.ReadsFront :=
  Reader.readsFront_string.bind fun _ => Reader.readsFront_string.bind fun _ =>
    Reader.readsFront_string.bind fun _ => Reader.readsFront_string.bind fun _ =>
      Reader.readsFront_pure _

theorem readsFront_artifact : artifact.ReadsFront :=
  Reader.readsFront_string.bind fun _ => Reader.readsFront_string.bind fun _ =>
    Reader.readsFront_pure _

theorem readsFront_revision : revision.ReadsFront :=
  readsFront_coordinate.bind fun _ => Reader.readsFront_int64.bind fun _ =>
    Reader.readsFront_pure _

theorem readsFront_constraint : constraint.ReadsFront :=
  readsFront_coordinate.bind fun _ => readsFront_artifact.bind fun _ =>
    (Reader.readsFront_list (Reader.readsFront_parsed _)).bind fun _ =>
      (Reader.readsFront_case _).bind fun _ =>
        (Reader.readsFront_list (Reader.readsFront_parsed _)).bind fun _ =>
          Reader.readsFront_bool.bind fun _ => Reader.readsFront_pure _

theorem readsFront_contents : contents.ReadsFront :=
  Reader.readsFront_nat32.bind fun _ => (Reader.readsFront_list readsFront_revision).bind fun _ =>
    (Reader.readsFront_list readsFront_constraint).bind fun _ => Reader.readsFront_pure _

end Snapshot

theorem NodeRecord.readsFront_ofBytes : NodeRecord.ofBytes.ReadsFront :=
  Reader.readsFront_nat64.bind fun _ => Reader.readsFront_string.bind fun _ =>
    Reader.readsFront_string.bind fun _ => Reader.readsFront_bool.bind fun _ =>
      Reader.readsFront_pure _

theorem EdgeRecord.readsFront_ofBytes : EdgeRecord.ofBytes.ReadsFront :=
  Reader.readsFront_nat64.bind fun _ => Reader.readsFront_nat64.bind fun _ =>
    (Reader.readsFront_list (Reader.readsFront_case _)).bind fun _ => Reader.readsFront_pure _

theorem GraphDocument.readsFront_ofBytes : GraphDocument.ofBytes.ReadsFront :=
  (Reader.readsFront_list NodeRecord.readsFront_ofBytes).bind fun _ =>
    (Reader.readsFront_list EdgeRecord.readsFront_ofBytes).bind fun _ => Reader.readsFront_pure _

/-! ### Files -/

variable {front : List UInt8}

/-- Nothing is read from a snapshot that is cut off. -/
theorem DependencyGraph.ofSnapshot_eq_error_of_cut {g : DependencyGraph}
    (hparsed : ∀ c ∈ g.constraints, c.IsParsed) (hfits : g.Fits) (hfront : front <+: g.toSnapshot)
    (hne : front ≠ g.toSnapshot) : ofSnapshot front = .error .unreadable := by
  have hreads := Snapshot.reads_contents hfits.revisions hfits.constraints hparsed
  rw [ofSnapshot, hreads.run?_eq_none Snapshot.readsFront_contents hfront hne]

namespace DirectoryStore

open FileTree (outcome)

variable {s : DirectoryStore} {c : Coordinate} {g : MergedGraph} {t t' : FileTree}

/-- No graph is read from tables that are cut off. -/
theorem decodeGraph_eq_error_of_cut (hsound : g.IsSound) (hfits : g.Fits)
    (hfront : front <+: g.toDocument.toBytes) (hne : front ≠ g.toDocument.toBytes) :
    decodeGraph front = .error .unreadable := by
  have hreads := GraphDocument.reads_toBytes (MergedGraph.fits_toDocument hfits hsound)
  rw [decodeGraph, hreads.run?_eq_none GraphDocument.readsFront_ofBytes hfront hne]

/-- The files of a coordinate are at different places. -/
theorem placeOf_pathOf_ne {ending ending' : String} (hending : ending ∈ extensions)
    (hending' : ending' ∈ extensions) (hne : ending ≠ ending') :
    t.placeOf (s.pathOf c ending) ≠ t.placeOf (s.pathOf c ending') := by
  have hname := isFileName_fileName (c := c) hending
  have hname' := isFileName_fileName (c := c) hending'
  have hdiffer : fileName c ending ≠ fileName c ending' :=
    fileName_ne hending hending' (.inr hne)
  rw [pathOf_eq_join, pathOf_eq_join, FileTree.placeOf_join hname.slash,
    FileTree.placeOf_join hname'.slash, hname.names, hname'.names,
    FileTree.foldl_follow _ (by simpa using hname.ne_dots.symm),
    FileTree.foldl_follow _ (by simpa using hname'.ne_dots.symm)]
  simpa using hdiffer

/-- A graph is put only where no file of that name is, and then its files are written. -/
theorem outcome_writeFiles_of_put (h : outcome (s.put c g) t = (.ok (), t')) :
    outcome (s.writeFiles c g) t = (.ok (), t') := by
  rw [put, FileTree.outcome_bind_ok FileTree.outcome_contains] at h
  cases hfound : (t.find (s.graphPath c)).toOption.isSome with
  | true =>
    rw [hfound] at h
    cases h
  | false =>
    rw [hfound] at h
    exact h

/-- After a `put` the file of the graph has the bytes of its tables. -/
theorem read_graphPath_of_put (h : outcome (s.put c g) t = (.ok (), t')) :
    t'.read (s.graphPath c) = .ok g.toDocument.toBytes := by
  have h := outcome_writeFiles_of_put h
  unfold writeFiles at h
  obtain ⟨_, t₁, hstage, h⟩ := FileTree.exists_of_outcome_bind_eq_ok h
  obtain ⟨_, t₂, hmove, h⟩ := FileTree.exists_of_outcome_bind_eq_ok h
  rw [FileTree.outcome_bind_ok FileTree.outcome_now] at h
  have hstage := FileTree.eq_ok_of_run_change (FileTree.run_of_outcome_attempt hstage)
  have hmove := FileTree.eq_ok_of_run_change (FileTree.run_of_outcome_attempt hmove)
  have hdocument := FileTree.eq_ok_of_run_change (FileTree.run_of_outcome_attempt h)
  -- What is moved are the bytes that were staged,
  obtain ⟨bytes, hbytes, hmove⟩ := exists_of_bind_eq_ok hmove
  rw [FileTree.read_of_write hstage] at hbytes
  cases hbytes
  obtain ⟨t₃, -, hmove⟩ := exists_of_bind_eq_ok hmove
  -- and they stay when the document is written beside them.
  exact FileTree.read_of_write_other hdocument
    (placeOf_pathOf_ne graphExtension_mem documentExtension_mem (by decide))
    (FileTree.read_of_write hmove)

end DirectoryStore

/-- **Truncated files are never read as data.**  A snapshot is read, and one that is cut anywhere
before its end is unreadable.  So it is with the file of a stored graph, wherever it is read: what
a `put` leaves behind is all of it or nothing that could be taken for a smaller graph. -/
theorem truncated_files_are_refused :
    (∀ g : DependencyGraph, (∀ c ∈ g.constraints, c.IsParsed) → g.Fits →
      DependencyGraph.ofSnapshot g.toSnapshot = .ok (.ofParts g.revisions g.constraints) ∧
      ∀ front, front <+: g.toSnapshot → front ≠ g.toSnapshot →
        DependencyGraph.ofSnapshot front = .error .unreadable) ∧
    ∀ (s : DirectoryStore) (c : Coordinate) (g : MergedGraph) (t t' : FileTree),
      g.IsBuilt → g.Fits → FileTree.outcome (s.put c g) t = (.ok (), t') →
      ∃ bytes, t'.read (s.graphPath c) = .ok bytes ∧
        FileTree.outcome (DirectoryStore.readGraph (s.graphPath c)) t' = (.ok g, t') ∧
        ∀ front, front <+: bytes → front ≠ bytes →
          ∀ (path : Path) (cut : FileTree), cut.read path = .ok front →
            FileTree.outcome (DirectoryStore.readGraph path) cut = (.error .unreadable, cut) := by
  refine ⟨fun g hparsed hfits => ⟨?_, fun front hfront hne => ?_⟩,
    fun s c g t t' hbuilt hfits hput => ?_⟩
  · have hwhole := DependencyGraph.ofSnapshot_append hparsed hfits []
    rwa [List.append_nil] at hwhole
  · exact DependencyGraph.ofSnapshot_eq_error_of_cut hparsed hfits hfront hne
  · have hread := DirectoryStore.read_graphPath_of_put hput
    refine ⟨_, hread, DirectoryStore.outcome_readGraph hread hbuilt.isSound hfits,
      fun front hfront hne path cut hcut => ?_⟩
    rw [DirectoryStore.outcome_readGraph_bytes hcut,
      DirectoryStore.decodeGraph_eq_error_of_cut hbuilt.isSound hfits hfront hne]

/-- One revision, and one constraint with an exclusion. -/
def smallGraph : DependencyGraph :=
  .ofParts [⟨⟨"mvn", ⟨"org", "app"⟩, "1"⟩, 5⟩]
    [{ source := ⟨"mvn", ⟨"org", "app"⟩, "1"⟩, target := ⟨"org", "lib"⟩
       exclusions := [⟨"*", "log"⟩] }]

theorem isParsed_smallGraph : ∀ c ∈ smallGraph.constraints, c.IsParsed := by
  have hexclusion : Exclusion.ofText "*:log" = .ok ⟨"*", "log"⟩ := by rfl
  rw [smallGraph]
  intro c hc
  have hc := List.filter_subset_self _ hc
  obtain rfl := List.mem_singleton.1 hc
  exact ⟨by simp, by simpa using ⟨_, hexclusion⟩⟩

theorem fits_smallGraph : smallGraph.Fits :=
  DependencyGraph.fits_ofParts (by decide +kernel) (by decide +kernel)

/-- A snapshot without its last byte, and a stored graph cut in its second node. -/
theorem truncated_files_are_refused_smallGraph :
    let stored := (FileTree.outcome (DirectoryStore.sampleStore.put DirectoryStore.sampleCoordinate
      DirectoryStore.sampleGraph) DirectoryStore.sampleTree).2
    let path := DirectoryStore.sampleStore.graphPath DirectoryStore.sampleCoordinate
    let front := DirectoryStore.sampleGraph.toDocument.toBytes.take 80
    let cut := stored.setEntry ["graphs", "mvn_a%5Fb_c_1.0.bin"] (.file front)
    DependencyGraph.ofSnapshot smallGraph.toSnapshot.dropLast = .error .unreadable ∧
      FileTree.outcome (DirectoryStore.readGraph path) cut = (.error .unreadable, cut) := by
  intro stored path front cut
  obtain ⟨hsnapshots, hstores⟩ := truncated_files_are_refused
  have hput : FileTree.outcome (DirectoryStore.sampleStore.put DirectoryStore.sampleCoordinate
      DirectoryStore.sampleGraph) DirectoryStore.sampleTree = (.ok (), stored) :=
    Prod.ext (by decide +kernel) rfl
  obtain ⟨bytes, hread, -, hrefused⟩ := hstores _ _ _ _ _ DirectoryStore.isBuilt_sampleGraph
    DirectoryStore.fits_sampleGraph hput
  have hbytes : stored.read path = .ok DirectoryStore.sampleGraph.toDocument.toBytes := by
    decide +kernel
  cases hread.symm.trans hbytes
  have hcut : cut.read path = .ok front := by decide +kernel
  obtain ⟨-, hsnapshot⟩ := hsnapshots smallGraph isParsed_smallGraph fits_smallGraph
  exact ⟨hsnapshot _ (List.dropLast_prefix _) (by decide +kernel),
    hrefused front (List.take_prefix 80 _) (by decide +kernel) path cut hcut⟩

end Stitch
