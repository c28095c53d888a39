/-
Deep merges and shallow ones.

A deep merge begins as the shallow one does: the calls of the base come first, with
the same outcomes, since neither the universe nor the strategy of a contributor
depends on what else is resolved (`calls_shallow_prefix`).  The calls of the dependencies
only add to the graph that is there by then (`foldlM_growsTo`), so that its
placeholders keep their numbers and the counts of the report do not fall.

Main statement: **`merge_deepens`**.
-/
import Stitch.Proofs.Merge.Accounting

namespace Stitch

/-- Whether no count of calls is smaller in another report. -/
structure MergeReport.CountsUpTo (r r' : MergeReport) : Prop where
  resolvedCalls : r.resolvedCalls ≤ r'.resolvedCalls
  unresolvedCalls : r.unresolvedCalls ≤ r'.unresolvedCalls
  dynamicCalls : r.dynamicCalls ≤ r'.dynamicCalls
  droppedCalls : r.droppedCalls ≤ r'.droppedCalls

namespace Merge

variable {u : Universe}

/-- The calls that a shallow merge resolves are the first ones of the deep merge. -/
theorem calls_shallow_prefix (s : Strategy) (u : Universe) :
    calls ⟨s, false⟩ u <+: calls ⟨s, true⟩ u :=
  (List.take_prefix 1 u.contributors.zipIdx).flatMap _

/-- More outcomes are more of each sort. -/
theorem report_countsUpTo {o o' : MergeOptions} {base base' : PartialGraph}
    {outcomes outcomes' : List CallOutcome} (h : outcomes <+: outcomes') (g g' : MergedGraph) :
    (report o base u outcomes g).CountsUpTo (report o' base' u outcomes' g') where
  resolvedCalls := h.sublist.countP_le
  unresolvedCalls := h.sublist.countP_le
  dynamicCalls := h.sublist.countP_le
  droppedCalls := h.sublist.countP_le

/-- **A deep merge extends the shallow one.**  Both succeed; the nodes of the shallow
merge, placeholders included, are the first ones of the deep merge, in the same places,
each of its edges is an edge of the deep merge with at least the same kinds, and no count
of calls falls. -/
theorem merge_deepens (s : Strategy) (base : PartialGraph) (dependencies : List PartialGraph) :
    ∃ m m', merge ⟨s, false⟩ base dependencies = .ok m ∧
      merge ⟨s, true⟩ base dependencies = .ok m' ∧
      m.graph.GrowsTo m'.graph ∧ m.report.CountsUpTo m'.report := by
  obtain ⟨m, hm, -⟩ := exists_merge_ok ⟨s, false⟩ base dependencies
  obtain ⟨m', hm', -⟩ := exists_merge_ok ⟨s, true⟩ base dependencies
  obtain ⟨hfold, hreport⟩ := merge_eq_ok_iff.1 hm
  obtain ⟨hfold', hreport'⟩ := merge_eq_ok_iff.1 hm'
  have hprefix := calls_shallow_prefix s (Universe.build base dependencies)
  refine ⟨m, m', hm, hm', ?_, ?_⟩
  · -- The deep merge goes on from the graph of the shallow one.
    obtain ⟨more, hmore⟩ := hprefix
    rw [← hmore, List.foldlM_append, hfold] at hfold'
    exact foldlM_growsTo hfold'
  · rw [hreport, hreport']
    exact report_countsUpTo hprefix m.graph m'.graph

end Merge

end Stitch
