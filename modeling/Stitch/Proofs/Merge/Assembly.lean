/-
The shape of merged graphs.

A merge never fails, and the graph that comes out is stitched (`IsStitched`):
the methods of the universe are its internal nodes, each at its own number; all
other nodes are placeholders, which are called and call nothing; no two nodes
carry the same URI.  The main statement is `merge_isStitched`.

The induction is over the outcomes of the calls.  Its invariant has two parts,
because a placeholder is added before the call that leads to it: `IsLaidOut`
holds at any time, and `IsAssembled` adds that every placeholder is called,
which holds after each outcome.  A placeholder is only added for a reference
that neither the index nor a placeholder knows, so its URI is new.
-/
import Mathlib.Tactic.Set
import Stitch.Merge.Assembly
import Stitch.Merge.Consistency
import Stitch.Proofs.CallGraph.Merged
import Stitch.Proofs.Merge.Dispatch
import Stitch.Proofs.Steps

namespace Stitch.Merge

/-- What the graph of a merge over a universe looks like. -/
structure IsStitched (u : Universe) (g : MergedGraph) : Prop where
  uris_nodup : (g.nodes.map (·.uri)).Nodup
  /-- The internal nodes, with their numbers, are those of the universe. -/
  internal_iff : ∀ gid n, (gid, n) ∈ g.numbered ∧ n.isInternal ↔ u.nodes[gid]? = some n
  le_placeholder : ∀ gid ∈ g.externalNodes, u.nodes.length ≤ gid
  placeholder_called : ∀ gid ∈ g.externalNodes, ∃ e ∈ g.edges, e.target = gid
  placeholder_calls_nothing : ∀ gid ∈ g.externalNodes, ∀ e ∈ g.edges, e.source ≠ gid
  ends_exist : ∀ e ∈ g.edges, e.source < g.nodeCount ∧ e.target < g.nodeCount

/-- The nodes of the universe come first and all others are placeholders; URIs
are unique; calls go from nodes of the universe to nodes, and have their links. -/
structure IsLaidOut (u : Universe) (g : MergedGraph) : Prop where
  nodes_eq : ∃ placeholders, g.nodes = u.nodes ++ placeholders ∧
    ∀ n ∈ placeholders, n.isInternal = false
  uris_nodup : (g.nodes.map (·.uri)).Nodup
  source_lt : ∀ e ∈ g.edges, e.source < u.nodes.length
  target_lt : ∀ e ∈ g.edges, e.target < g.nodeCount
  linked : g.IsLinked

/-- In addition, every placeholder is called. -/
structure IsAssembled (u : Universe) (g : MergedGraph) : Prop extends IsLaidOut u g where
  called : ∀ gid, u.nodes.length ≤ gid → gid < g.nodeCount → ∃ e ∈ g.edges, e.target = gid

variable {u : Universe} {g : MergedGraph}

namespace IsLaidOut

theorem length_le (h : IsLaidOut u g) : u.nodes.length ≤ g.nodeCount := by
  obtain ⟨placeholders, hnodes, -⟩ := h.nodes_eq
  rw [MergedGraph.nodeCount, hnodes, List.length_append]
  exact Nat.le_add_right _ _

theorem getElem?_eq (h : IsLaidOut u g) {gid : Gid} (hgid : gid < u.nodes.length) :
    g.nodes[gid]? = u.nodes[gid]? := by
  obtain ⟨placeholders, hnodes, -⟩ := h.nodes_eq
  rw [hnodes, List.getElem?_append_left hgid]

/-- Behind the nodes of the universe there are only placeholders. -/
theorem isInternal_eq_false (h : IsLaidOut u g) {gid : Gid} {n : Node}
    (hgid : u.nodes.length ≤ gid) (hn : g.nodes[gid]? = some n) : n.isInternal = false := by
  obtain ⟨placeholders, hnodes, hexternal⟩ := h.nodes_eq
  rw [hnodes, List.getElem?_append_right hgid] at hn
  exact hexternal n (List.mem_of_getElem? hn)

/-- A number of the universe may be the source of a call. -/
theorem exists_internal (h : IsLaidOut u g) {gid : Gid} (hgid : gid < u.nodes.length) :
    ∃ n, g.node? gid = some n ∧ n.isInternal := by
  have hplace : MergedGraph.place gid < u.nodes.length :=
    Nat.lt_of_le_of_lt (MergedGraph.place_le gid) hgid
  refine ⟨u.nodes[MergedGraph.place gid], ?_, Universe.isInternal_of_mem_nodes (List.getElem_mem _)⟩
  rw [MergedGraph.node?, h.getElem?_eq hplace, List.getElem?_eq_getElem hplace]

theorem mem_externalNodes_iff (h : IsLaidOut u g) {gid : Gid} :
    gid ∈ g.externalNodes ↔ u.nodes.length ≤ gid ∧ gid < g.nodeCount := by
  rw [MergedGraph.mem_externalNodes_iff]
  constructor
  · rintro ⟨n, hn, hexternal⟩
    refine ⟨Nat.le_of_not_lt fun hlt => ?_, (List.getElem?_eq_some_iff.1 hn).1⟩
    rw [h.getElem?_eq hlt] at hn
    rw [Universe.isInternal_of_mem_nodes (List.mem_of_getElem? hn)] at hexternal
    cases hexternal
  · rintro ⟨hle, hlt⟩
    exact ⟨g.nodes[gid], List.getElem?_eq_getElem hlt,
      h.isInternal_eq_false hle (List.getElem?_eq_getElem hlt)⟩

/-- A call from the universe to a node is recorded, and only that happens. -/
theorem addCall (h : IsLaidOut u g) {e : Edge} (kind : CallKind)
    (hsource : e.source < u.nodes.length) (htarget : e.target < g.nodeCount) :
    g.addCall e kind = .ok (g.withCall e kind) ∧ IsLaidOut u (g.withCall e kind) := by
  obtain ⟨source, hnode, hinternal⟩ := h.exists_internal hsource
  obtain ⟨target, -, htargetNode⟩ := MergedGraph.exists_node?_of_lt htarget
  refine ⟨MergedGraph.addCall_eq_ok kind hnode hinternal (by simp [htargetNode]), ?_⟩
  refine ⟨h.nodes_eq, h.uris_nodup, fun e' he' => ?_, fun e' he' => ?_, h.linked.withCalls e [kind]⟩
  · rcases MergedGraph.mem_edges_withCalls.1 he' with rfl | he'
    · exact hsource
    · exact h.source_lt e' he'
  · rcases MergedGraph.mem_edges_withCalls.1 he' with rfl | he'
    · exact htarget
    · exact h.target_lt e' he'

end IsLaidOut

/-! ### Placeholders -/

theorem placeholder?_lt {reference : String} {gid : Gid}
    (h : placeholder? g reference = some gid) : gid < g.nodeCount := by
  obtain ⟨⟨i, n⟩, hfind, rfl⟩ := Option.map_eq_some_iff.1 h
  have hn := MergedGraph.mem_numbered_iff.1 (List.mem_of_find?_eq_some hfind)
  exact (List.getElem?_eq_some_iff.1 hn).1

theorem uri_ne_of_placeholder?_eq_none {reference : String} {gid : Gid} {n : Node}
    (h : placeholder? g reference = none) (hn : g.nodes[gid]? = some n)
    (hexternal : n.isInternal = false) : n.uri ≠ reference := by
  intro huri
  have hfind := Option.map_eq_none_iff.1 h
  have := List.find?_eq_none.1 hfind (gid, n) (MergedGraph.mem_numbered_iff.2 hn)
  simp [hexternal, huri] at this

/-- A reference that neither the index nor a placeholder knows is no URI of the graph. -/
theorem IsLaidOut.uri_fresh (h : IsLaidOut u g) {reference : String}
    (hlook : u.symbols.lookup reference = none) (hplaceholder : placeholder? g reference = none) :
    reference ∉ g.nodes.map (·.uri) := by
  intro hmem
  obtain ⟨n, hn, huri⟩ := List.mem_map.1 hmem
  obtain ⟨gid, hgid⟩ := List.mem_iff_getElem?.1 hn
  rcases Nat.lt_or_ge gid u.nodes.length with hlt | hge
  · rw [h.getElem?_eq hlt] at hgid
    refine SymbolIndex.lookup_eq_none_iff.1 hlook ?_
    rw [← Universe.map_uri_nodes, ← huri]
    exact List.mem_map_of_mem (List.mem_of_getElem? hgid)
  · exact uri_ne_of_placeholder?_eq_none hplaceholder hgid (h.isInternal_eq_false hge hgid) huri

theorem IsLaidOut.addNode (h : IsLaidOut u g) {n : Node} (hexternal : n.isInternal = false)
    (hfresh : n.uri ∉ g.nodes.map (·.uri)) : IsLaidOut u (g.addNode n) := by
  obtain ⟨placeholders, hnodes, hplaceholders⟩ := h.nodes_eq
  refine ⟨⟨placeholders ++ [n], ?_, ?_⟩, ?_, h.source_lt, fun e he => ?_, h.linked.addNode n⟩
  · rw [MergedGraph.addNode, hnodes, List.append_assoc]
  · intro m hm
    rcases List.mem_append.1 hm with hm | hm
    · exact hplaceholders m hm
    · rw [List.mem_singleton.1 hm]
      exact hexternal
  · rw [MergedGraph.addNode, List.map_append, List.map_singleton, ← List.concat_eq_append]
    exact h.uris_nodup.concat hfresh
  · have hcount : g.nodeCount ≤ (g.addNode n).nodeCount := by
      simp [MergedGraph.nodeCount, MergedGraph.addNode]
    exact Nat.lt_of_lt_of_le (h.target_lt e he) hcount

/-- The stand-in of a reference is a node, and the only one that may be new. -/
theorem standIn_spec (hu : u.symbols.IsDense) (h : IsLaidOut u g) (reference : String) :
    IsLaidOut u (standIn u g reference).1 ∧
      (standIn u g reference).2 < (standIn u g reference).1.nodeCount ∧
      (standIn u g reference).1.edges = g.edges ∧
      ∀ gid < (standIn u g reference).1.nodeCount,
        gid < g.nodeCount ∨ gid = (standIn u g reference).2 := by
  rw [standIn]
  cases hknown : (u.symbols.lookup reference).or (placeholder? g reference) with
  | some gid =>
    refine ⟨h, ?_, rfl, fun _ hgid => .inl hgid⟩
    rcases Option.or_eq_some_iff.1 hknown with hlook | ⟨-, hplaceholder⟩
    · have hlt := hu.lookup_lt hlook
      rw [← Universe.length_nodes] at hlt
      exact Nat.lt_of_lt_of_le hlt h.length_le
    · exact placeholder?_lt hplaceholder
  | none =>
    obtain ⟨hlook, hplaceholder⟩ := Option.or_eq_none_iff.1 hknown
    have hlength : (g.addNode ⟨reference, owningType reference, false⟩).nodeCount =
        g.nodeCount + 1 := by
      simp [MergedGraph.nodeCount, MergedGraph.addNode]
    refine ⟨h.addNode rfl (h.uri_fresh hlook hplaceholder), ?_, rfl, fun gid hgid => ?_⟩
    · rw [hlength]
      exact Nat.lt_succ_self _
    · rw [hlength] at hgid
      exact Nat.lt_succ_iff_lt_or_eq.1 hgid

/-! ### One outcome -/

/-- The outcome of a call never fails, and leaves every placeholder called. -/
theorem connect_isAssembled (hu : u.symbols.IsDense) (h : IsAssembled u g) (o : CallOutcome)
    (hwithin : o.resolution.IsWithin u.nodes.length) :
    ∃ g', connect u g o = .ok g' ∧ IsAssembled u g' := by
  rw [connect]
  cases hres : o.resolution with
  | dropped => exact ⟨g, rfl, h⟩
  | resolved caller targets =>
    rw [hres] at hwithin
    obtain ⟨hcaller, htargets⟩ := hwithin
    refine exists_foldlM_ok (P := IsAssembled u) (fun g target htarget hg => ?_) h
    have hlt : target < g.nodeCount := Nat.lt_of_lt_of_le (htargets target htarget) hg.length_le
    obtain ⟨hadd, hlaid⟩ := hg.addCall (e := ⟨caller, target⟩) o.call.kind hcaller hlt
    refine ⟨_, hadd, hlaid, fun gid hge hgid => ?_⟩
    obtain ⟨e, he, heq⟩ := hg.called gid hge hgid
    exact ⟨e, MergedGraph.mem_edges_withCalls.2 (.inr he), heq⟩
  | unresolved caller =>
    rw [hres] at hwithin
    obtain ⟨hstand, hlt, hedges, hnew⟩ := standIn_spec hu h.toIsLaidOut o.call.callee
    obtain ⟨hadd, hlaid⟩ := hstand.addCall (e := ⟨caller, _⟩) o.call.kind hwithin hlt
    refine ⟨_, hadd, hlaid, fun gid hge hgid => ?_⟩
    -- The stand-in is called by this call, all other placeholders were called before.
    rcases hnew gid hgid with hold | rfl
    · obtain ⟨e, he, heq⟩ := h.called gid hge hold
      exact ⟨e, MergedGraph.mem_edges_withCalls.2 (.inr (hedges ▸ he)), heq⟩
    · exact ⟨_, MergedGraph.mem_edges_withCalls.2 (.inl rfl), rfl⟩

/-! ### The whole merge -/

theorem isAssembled_nodes (hu : u.symbols.IsDense) : IsAssembled u { nodes := u.nodes } where
  nodes_eq := ⟨[], (List.append_nil _).symm, fun _ h => by cases h⟩
  uris_nodup := u.map_uri_nodes ▸ hu.uris_nodup
  source_lt := fun _ h => by cases h
  target_lt := fun _ h => by cases h
  linked := MergedGraph.isLinked_nodes u.nodes
  called := fun _ hge hlt => absurd hlt (Nat.not_lt_of_le hge)

/-- The outcome of a call is that of resolving it for the contributor that makes it. -/
theorem resolution_of_mem_calls {o : MergeOptions} {c : CallOutcome} (h : c ∈ calls o u) :
    ∃ useHierarchy s, c.resolution = u.resolve c.block c.call useHierarchy s := by
  obtain ⟨⟨contributor, block⟩, -, h⟩ := List.mem_flatMap.1 h
  obtain ⟨call, -, rfl⟩ := List.mem_map.1 h
  exact ⟨_, _, rfl⟩

theorem isWithin_of_mem_calls (hu : u.symbols.IsDense) {o : MergeOptions} {c : CallOutcome}
    (h : c ∈ calls o u) : c.resolution.IsWithin u.nodes.length := by
  obtain ⟨useHierarchy, s, hres⟩ := resolution_of_mem_calls h
  rw [Universe.length_nodes, hres]
  exact Universe.resolve_isWithin hu _ _ _ _

theorem isAssembled_of_connect (hu : u.symbols.IsDense) {o : MergeOptions} {c : CallOutcome}
    (hc : c ∈ calls o u) (h : IsAssembled u g) {g' : MergedGraph}
    (hconnect : connect u g c = .ok g') : IsAssembled u g' := by
  obtain ⟨g'', hok, h'⟩ := connect_isAssembled hu h c (isWithin_of_mem_calls hu hc)
  cases hconnect.symm.trans hok
  exact h'

/-- The graph of a merge is that of the outcomes of its calls. -/
theorem merge_eq_ok_iff {o : MergeOptions} {base : PartialGraph}
    {dependencies : List PartialGraph} {m : Merged} :
    merge o base dependencies = .ok m ↔
      (calls o (Universe.build base dependencies)).foldlM
          (connect (Universe.build base dependencies))
          { nodes := (Universe.build base dependencies).nodes } = .ok m.graph ∧
        m.report = report o base (Universe.build base dependencies)
          (calls o (Universe.build base dependencies)) m.graph := by
  rw [merge]
  set u := Universe.build base dependencies
  cases hfold : (calls o u).foldlM (connect u) { nodes := u.nodes } with
  | error e => exact ⟨nofun, fun h => nomatch h.1⟩
  | ok g =>
    constructor
    · rintro ⟨⟩
      exact ⟨rfl, rfl⟩
    · rintro ⟨⟨⟩, hreport⟩
      exact congrArg Except.ok (congrArg (Merged.mk m.graph) hreport.symm)

theorem exists_merge_ok (o : MergeOptions) (base : PartialGraph)
    (dependencies : List PartialGraph) :
    ∃ m, merge o base dependencies = .ok m ∧
      IsAssembled (Universe.build base dependencies) m.graph := by
  have hu := Universe.isDense_build base dependencies
  set u := Universe.build base dependencies with hbuild
  have hstep : ∀ g c, c ∈ calls o u → IsAssembled u g →
      ∃ g', connect u g c = .ok g' ∧ IsAssembled u g' :=
    fun g c hc hg => connect_isAssembled hu hg c (isWithin_of_mem_calls hu hc)
  obtain ⟨g, hfold, hg⟩ := exists_foldlM_ok hstep (isAssembled_nodes hu)
  exact ⟨⟨g, report o base u (calls o u) g⟩, merge_eq_ok_iff.2 ⟨hfold, rfl⟩, hg⟩

theorem IsAssembled.isStitched (h : IsAssembled u g) : IsStitched u g where
  uris_nodup := h.uris_nodup
  internal_iff gid n := by
    rw [MergedGraph.mem_numbered_iff]
    constructor
    · rintro ⟨hn, hinternal⟩
      rcases Nat.lt_or_ge gid u.nodes.length with hlt | hge
      · rw [← h.getElem?_eq hlt]
        exact hn
      · rw [h.isInternal_eq_false hge hn] at hinternal
        cases hinternal
    · intro hn
      rw [h.getElem?_eq (List.getElem?_eq_some_iff.1 hn).1]
      exact ⟨hn, Universe.isInternal_of_mem_nodes (List.mem_of_getElem? hn)⟩
  le_placeholder gid hgid := (h.mem_externalNodes_iff.1 hgid).1
  placeholder_called gid hgid := by
    obtain ⟨hge, hlt⟩ := h.mem_externalNodes_iff.1 hgid
    exact h.called gid hge hlt
  placeholder_calls_nothing gid hgid e he heq := by
    have hge := (h.mem_externalNodes_iff.1 hgid).1
    exact absurd (h.source_lt e he) (Nat.not_lt_of_le (heq ▸ hge))
  ends_exist e he := ⟨Nat.lt_of_lt_of_le (h.source_lt e he) h.length_le, h.target_lt e he⟩

/-- The check for repeated URIs finds nothing where all URIs differ. -/
theorem isClean_of_uris_nodup (h : (g.nodes.map (·.uri)).Nodup) :
    (UriCheck.ofGraph g).isClean = true := by
  have hcount : ∀ uri, UriCheck.occurrences g uri ≤ 1 := fun uri => by
    have := List.nodup_iff_count.1 h uri
    rwa [List.count, List.countP_map] at this
  have hnone : ((g.nodes.map fun n => (n.uri, UriCheck.occurrences g n.uri)).filter
      fun p => 1 < p.2) = [] := by
    refine List.filter_eq_nil_iff.2 fun p hp => ?_
    obtain ⟨n, -, rfl⟩ := List.mem_map.1 hp
    simpa using hcount n.uri
  rw [UriCheck.isClean, UriCheck.ofGraph, hnone]
  rfl

/-- **A merge never fails, and its graph is stitched.**  So no URI is repeated
in it; and if every number in it is a place of its own, placeholders have
callers and no callees. -/
theorem merge_isStitched (o : MergeOptions) (base : PartialGraph)
    (dependencies : List PartialGraph) :
    ∃ m, merge o base dependencies = .ok m ∧
      IsStitched (Universe.build base dependencies) m.graph ∧
      (UriCheck.ofGraph m.graph).isClean = true ∧
      (m.graph.nodeCount < 4294967295 → ∀ gid ∈ m.graph.externalNodes,
        m.graph.predecessors gid ≠ [] ∧ m.graph.successors gid = []) := by
  obtain ⟨m, hm, hassembled⟩ := exists_merge_ok o base dependencies
  have h := hassembled.isStitched
  refine ⟨m, hm, h, isClean_of_uris_nodup h.uris_nodup, fun hsize gid hgid => ⟨?_, ?_⟩⟩
  · obtain ⟨e, he, rfl⟩ := h.placeholder_called gid hgid
    exact MergedGraph.predecessors_ne_nil hassembled.linked h.ends_exist he
  · exact MergedGraph.successors_eq_nil hassembled.linked h.ends_exist hsize
      (MergedGraph.lt_of_mem_externalNodes hgid) (h.placeholder_calls_nothing gid hgid)

/-- A method that calls what nobody defines. -/
def strayCaller : PartialGraph where
  revision := ⟨⟨"mvn", ⟨"org", "app"⟩, "1"⟩, 1⟩
  internalNodes := ["/org/App.run()V"]
  calls := [⟨"/org/App.run()V", "/org/Log.write()V", .dynamic⟩]

theorem merge_isStitched_strayCaller :
    ∃ m, merge {} strayCaller [] = .ok m ∧ m.graph.externalNodes = [1] ∧
      m.graph.predecessors 1 ≠ [] ∧ m.graph.successors 1 = [] := by
  obtain ⟨m, hm, -, -, hplaceholders⟩ := merge_isStitched {} strayCaller []
  have hshape : (merge {} strayCaller []).toOption.map
      (fun m => (m.graph.externalNodes, m.graph.nodeCount)) = some ([1], 2) := by
    decide +kernel
  rw [hm] at hshape
  obtain ⟨hexternal, hcount⟩ := Prod.mk.inj (Option.some.inj hshape)
  refine ⟨m, hm, hexternal, hplaceholders ?_ 1 ?_⟩
  · rw [hcount]
    decide
  · rw [hexternal]
    exact List.mem_singleton_self 1

end Stitch.Merge
