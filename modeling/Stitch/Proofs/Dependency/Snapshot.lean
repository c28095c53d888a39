/-
Snapshots are read back.

A snapshot lists the revisions in the order of their coordinates, and ranges and
exclusions as text.  Nothing is lost by either:

* the text of a range or an exclusion that was read is read as the same one
  (`Range.ofText_text_of_ofText_eq_ok`, `Exclusion.ofText_text_of_ofText_eq_ok`);
* each record is read back field by field (`reads_revision`, `reads_constraint`,
  `reads_contents`), if its texts and lists have lengths that fit in 64 bits;
* a graph that is made of its own revisions and constraints is itself again
  (`ofParts_self`), because these are already sorted, distinct and known.

* **`ofSnapshot_toSnapshot`**: the snapshot of a graph is read as that graph,
  whatever bytes come after it.
-/
import Stitch.Dependency.Snapshot
import Stitch.Proofs.Binary.RoundTrip
import Stitch.Proofs.Dependency.Graph
import Stitch.Proofs.Version.Range

namespace Stitch

open Binary (FitsInt FitsText FitsList Reader)

/-! ### Exclusions -/

namespace Exclusion

theorem toList_text (e : Exclusion) : e.text.toList = e.group.toList ++ ':' :: e.name.toList := by
  simp [text, toString]

theorem ofText_eq_ok_iff {text : String} {e : Exclusion} :
    ofText text = .ok e ↔
      Text.cut ':' (Text.trim text.toList) = some (e.group.toList, e.name.toList) ∧
        e.group ≠ "" ∧ e.name ≠ "" := by
  rw [ofText]
  cases hcut : Text.cut ':' (Text.trim text.toList) with
  | none => simp
  | some parts =>
    obtain ⟨group, name⟩ := parts
    have hempty (cs : List Char) : String.ofList cs = "" ↔ cs = [] := by
      rw [← String.toList_inj, String.toList_ofList, String.toList_empty]
    constructor
    · intro h
      by_cases hnone : group.isEmpty || name.isEmpty
      · simp [hnone] at h
      · simp only [hnone, Bool.false_eq_true, if_false] at h
        cases h
        simpa [hempty] using hnone
    · rintro ⟨hparts, hgroup, hname⟩
      obtain ⟨rfl, rfl⟩ := Prod.mk.inj (Option.some.inj hparts)
      simp [hgroup, hname]

/-- The text of an exclusion that was read is read as that exclusion. -/
theorem ofText_text_of_ofText_eq_ok {text : String} {e : Exclusion} (h : ofText text = .ok e) :
    ofText e.text = .ok e := by
  obtain ⟨hcut, hnonempty⟩ := ofText_eq_ok_iff.1 h
  have htext : e.text.toList = Text.trim text.toList := by
    rw [toList_text, (Text.cut_eq_some.1 hcut).1]
  refine ofText_eq_ok_iff.2 ⟨?_, hnonempty⟩
  rw [htext, Text.trim_trim, hcut]

end Exclusion

/-! ### Records -/

/-- The ranges and exclusions were read from text. -/
structure Constraint.IsParsed (c : Constraint) : Prop where
  ranges : ∀ range ∈ c.ranges, ∃ text, Range.ofText text = .ok range
  exclusions : ∀ exclusion ∈ c.exclusions, ∃ text, Exclusion.ofText text = .ok exclusion

namespace Snapshot

/-- The texts of a coordinate have lengths of 64 bits. -/
@[mk_iff]
structure FitsCoordinate (c : Coordinate) : Prop where
  forge : FitsText c.forge
  group : FitsText c.artifact.group
  name : FitsText c.artifact.name
  version : FitsText c.version

@[mk_iff]
structure FitsRevision (r : Revision) : Prop where
  coordinate : FitsCoordinate r.coordinate
  released : FitsInt r.released

@[mk_iff]
structure FitsConstraint (c : Constraint) : Prop where
  source : FitsCoordinate c.source
  group : FitsText c.target.group
  name : FitsText c.target.name
  ranges : FitsList (fun range => FitsText range.text) c.ranges
  exclusions : FitsList (fun exclusion => FitsText exclusion.text) c.exclusions

instance : DecidablePred FitsCoordinate := fun c =>
  decidable_of_iff _ (fitsCoordinate_iff c).symm

instance : DecidablePred FitsRevision := fun r => decidable_of_iff _ (fitsRevision_iff r).symm

instance : DecidablePred FitsConstraint := fun c =>
  decidable_of_iff _ (fitsConstraint_iff c).symm

theorem reads_coordinate {c : Coordinate} (h : FitsCoordinate c) :
    coordinate.Reads (coordinateBytes c) c := by
  simp only [coordinate, coordinateBytes, List.append_assoc]
  exact (Reader.reads_string h.forge).bind <| (Reader.reads_string h.group).bind <|
    (Reader.reads_string h.name).bind <| (Reader.reads_string h.version).bind_pure _

theorem reads_revision {r : Revision} (h : FitsRevision r) :
    revision.Reads (revisionBytes r) r := by
  simp only [revision, revisionBytes]
  exact (reads_coordinate h.coordinate).bind ((Reader.reads_int64 h.released).bind_pure _)

theorem reads_scope (s : Scope) :
    (Reader.case Scope.all).Reads (Binary.nat32 (scopeIndex s)) s :=
  Reader.reads_case (by cases s <;> decide) (by decide)

theorem reads_range {range : Range} (hfits : FitsText range.text)
    (hparsed : ∃ text, Range.ofText text = .ok range) :
    (Reader.parsed fun text => (Range.ofText text).toOption).Reads (Binary.string range.text)
      range := by
  obtain ⟨text, htext⟩ := hparsed
  refine Reader.reads_parsed hfits ?_
  rw [Range.ofText_text_of_ofText_eq_ok htext, Except.toOption]

theorem reads_exclusion {exclusion : Exclusion} (hfits : FitsText exclusion.text)
    (hparsed : ∃ text, Exclusion.ofText text = .ok exclusion) :
    (Reader.parsed fun text => (Exclusion.ofText text).toOption).Reads
      (Binary.string exclusion.text) exclusion := by
  obtain ⟨text, htext⟩ := hparsed
  refine Reader.reads_parsed hfits ?_
  rw [Exclusion.ofText_text_of_ofText_eq_ok htext, Except.toOption]

theorem reads_constraint {c : Constraint} (h : FitsConstraint c) (hparsed : c.IsParsed) :
    constraint.Reads (constraintBytes c) c := by
  have hranges := Reader.reads_list h.ranges.1 fun range hrange =>
    reads_range (h.ranges.2 range hrange) (hparsed.ranges range hrange)
  have hexclusions := Reader.reads_list h.exclusions.1 fun exclusion hexclusion =>
    reads_exclusion (h.exclusions.2 exclusion hexclusion) (hparsed.exclusions exclusion hexclusion)
  have htarget : artifact.Reads (artifactBytes c.target) c.target :=
    (Reader.reads_string h.group).bind ((Reader.reads_string h.name).bind_pure _)
  simp only [constraint, constraintBytes, List.append_assoc]
  exact (reads_coordinate h.source).bind <| htarget.bind <| hranges.bind <|
    (reads_scope c.scope).bind <| hexclusions.bind <| (Reader.reads_bool c.isOptional).bind_pure _

theorem reads_contents {revisions : List Revision} {constraints : List Constraint}
    (hrevisions : FitsList FitsRevision revisions)
    (hconstraints : FitsList FitsConstraint constraints)
    (hparsed : ∀ c ∈ constraints, c.IsParsed) :
    contents.Reads
      (Binary.nat32 currentFormat ++ Binary.list revisionBytes revisions ++
        Binary.list constraintBytes constraints)
      (currentFormat, revisions, constraints) := by
  simp only [contents, List.append_assoc]
  refine (Reader.reads_nat32 (by decide)).bind <|
    (Reader.reads_list hrevisions.1 fun r hr => reads_revision (hrevisions.2 r hr)).bind <|
    (Reader.reads_list hconstraints.1 fun c hc =>
      reads_constraint (hconstraints.2 c hc) (hparsed c hc)).bind_pure _

end Snapshot

/-! ### Graphs -/

namespace DependencyGraph

variable {revisions : List Revision} {constraints : List Constraint}

/-- A graph is made of its own revisions and constraints. -/
theorem ofParts_self {g : DependencyGraph} (hg : g = ofParts revisions constraints)
    (hordered : g.IsOrdered) : ofParts g.revisions g.constraints = g := by
  subst hg
  have hnodup := coordinates_nodup revisions constraints
  rw [List.nodup_iff_pairwise_ne, List.pairwise_map] at hnodup
  have hdistinct : distinctBy Revision.same (ofParts revisions constraints).revisions =
      (ofParts revisions constraints).revisions :=
    distinctBy_eq_self (hnodup.imp fun hne => by simpa [Revision.same] using hne)
  -- Sorting the revisions does not change which ones are known.
  have hknown : ∀ c ∈ (ofParts revisions constraints).constraints,
      (ofParts revisions constraints).revisions.any fun r => r.coordinate == c.source := by
    intro c hc
    obtain ⟨r, hr, hsource⟩ := List.any_eq_true.1 (List.mem_filter.1 hc).2
    exact List.any_eq_true.2 ⟨r, mem_revisions_ofParts.2 hr, hsource⟩
  conv_lhs => rw [ofParts, hdistinct, sorted_revisions hordered, List.filter_eq_self.2 hknown]

/-- The lists and texts of a graph have lengths of 64 bits, and so have its times. -/
structure Fits (g : DependencyGraph) : Prop where
  revisions : FitsList Snapshot.FitsRevision g.revisions
  constraints : FitsList Snapshot.FitsConstraint g.constraints

theorem fits_ofParts (hrevisions : FitsList Snapshot.FitsRevision revisions)
    (hconstraints : FitsList Snapshot.FitsConstraint constraints) :
    (ofParts revisions constraints).Fits where
  revisions := by
    have hsublist := sublist_distinctBy Revision.same revisions
    refine hrevisions.mono ?_ fun r hr => hsublist.subset (mem_revisions_ofParts.1 hr)
    rw [ofParts, Revision.sorted, List.length_mergeSort]
    exact hsublist.length_le
  constraints := hconstraints.mono (List.length_filter_le _ _) (List.filter_subset_self constraints)

/-- A snapshot is read as the graph of the parts that were written. -/
theorem ofSnapshot_append {g : DependencyGraph} (hparsed : ∀ c ∈ g.constraints, c.IsParsed)
    (hfits : g.Fits) (trailing : List UInt8) :
    ofSnapshot (g.toSnapshot ++ trailing) = .ok (ofParts g.revisions g.constraints) := by
  have hcontents : Binary.run? Snapshot.contents (g.toSnapshot ++ trailing) =
      some (Snapshot.currentFormat, g.revisions, g.constraints) :=
    (Snapshot.reads_contents hfits.revisions hfits.constraints hparsed).run?_append trailing
  simp only [ofSnapshot, hcontents, if_true]

/-- **Snapshots are read back.**  The snapshot of a graph, with any bytes after it, is read as
that graph: with the same revisions, their releases included, and the same constraints, which
are all that a query looks at. -/
theorem ofSnapshot_toSnapshot {g : DependencyGraph} (hg : g = ofParts revisions constraints)
    (hordered : g.IsOrdered) (hparsed : ∀ c ∈ g.constraints, c.IsParsed) (hfits : g.Fits)
    (trailing : List UInt8) : ofSnapshot (g.toSnapshot ++ trailing) = .ok g := by
  rw [ofSnapshot_append hparsed hfits, ofParts_self hg hordered]

/-- The range in the sample has that expression. -/
theorem exists_range_sample : ∃ range, Range.ofText "[1,2)" = .ok range ∧ range.text = "[1,2)" := by
  have hone : (Version.ofText "1").components = [.number 1] := by decide +kernel
  have htwo : (Version.ofText "2").components = [.number 2] := by decide +kernel
  have hbefore : (Version.ofText "2").before (Version.ofText "1") = false := by
    rw [Version.before, Version.compare, hone, htwo]
    simp only [Version.compareComponents]
    decide +kernel
  have hinterval : Range.interval true ['1', ',', '2'] false =
      if (Version.ofText "2").before (Version.ofText "1") then .error .crossedBounds
      else .ok ⟨some ⟨.ofText "1", true⟩, some ⟨.ofText "2", false⟩⟩ := by rfl
  have htrim : Text.trim "[1,2)".toList = ['[', '1', ',', '2', ')'] := by rfl
  have hparse : Range.parse "[1,2)" =
      .ok ⟨"[1,2)", [⟨some ⟨.ofText "1", true⟩, some ⟨.ofText "2", false⟩⟩]⟩ := by
    rw [Range.parse, htrim]
    simp [Range.intervalsFrom, Range.isOpening, Range.isClosing, Text.isBlank, hinterval, hbefore,
      pure, Except.pure, bind, Except.bind]
  exact ⟨_, Range.ofText_eq_ok_iff.2 hparse, rfl⟩

/-- A snapshot of the sample with two bytes after it. -/
theorem ofSnapshot_toSnapshot_sample :
    ofSnapshot (sample.toSnapshot ++ [1, 0]) = .ok sample := by
  obtain ⟨range, hrange, htext⟩ := exists_range_sample
  have hexclusion : Exclusion.ofText "*:log" = .ok ⟨"*", "log"⟩ := by rfl
  have hparsed : ∀ c ∈ sample.constraints, c.IsParsed := by
    rw [sample, hrange]
    intro c hc
    have hc := List.filter_subset_self _ hc
    simp only [List.mem_cons, List.not_mem_nil, or_false] at hc
    rcases hc with rfl | rfl | rfl | rfl | rfl
    · exact ⟨by simp, by simpa using ⟨_, hexclusion⟩⟩
    · exact ⟨by simp, by simp⟩
    · exact ⟨by simp, by simp⟩
    · exact ⟨by simp, by simp⟩
    · exact ⟨by simpa [Except.toOption] using ⟨_, hrange⟩, by simp⟩
  have hfits : sample.Fits := by
    rw [sample, hrange]
    have hranges : FitsList (fun r : Range => FitsText r.text) [range] :=
      ⟨by simp, by rw [List.forall_mem_singleton, htext]; decide +kernel⟩
    have hlast : Snapshot.FitsCoordinate ⟨"mvn", ⟨"org", "util"⟩, "1"⟩ ∧ FitsText "org" ∧
        FitsText "log" ∧ FitsList (fun e : Exclusion => FitsText e.text) [] := by decide +kernel
    refine fits_ofParts (by decide +kernel) ⟨by simp, ?_⟩
    simp only [List.forall_mem_cons, List.not_mem_nil, false_imp_iff, implies_true, and_true]
    exact ⟨by decide +kernel, by decide +kernel, by decide +kernel, by decide +kernel,
      ⟨hlast.1, hlast.2.1, hlast.2.2.1, hranges, hlast.2.2.2⟩⟩
  exact ofSnapshot_toSnapshot rfl isOrdered_sample hparsed hfits [1, 0]

end DependencyGraph

end Stitch
