/-
What the operations on merged graphs do.

* `addCalls_eq_ok_iff` says when calls are recorded and which graph comes out, `withCalls`.
  For a single call that is `withCall` (`addCall_eq_ok`, `eq_withCall_of_addCall`).
  `mem_edges_withCalls` and `mem_kindsBetween_withCalls` say which pairs and kinds it has;
  `GrowsTo` is what all additions have in common.
* A call is kept twice, in the table of calls and as a link.  The two are in step
  (`IsLinked`), and stay so when calls are recorded (`IsLinked.withCalls`).  A number is
  reduced to 32 bits before it names a place, so two pairs may have one link
  (`IsLinked.edgeCount_le`); where every number is a place of its own, links are pairs
  (`IsLinked.keys_eq_edges`, `IsLinked.edgeCount_eq`).
* `mem_numbered_iff` and `mem_externalNodes_iff` go from numbers to nodes.
* `mem_successors_iff` and `mem_predecessors_iff` go from links to neighbours, and
  `successors_eq_nil` and `predecessors_ne_nil` from pairs.
-/
import Mathlib.Data.List.Perm.Subperm
import Stitch.CallGraph.Merged
import Stitch.Proofs.Distinct
import Stitch.Proofs.SortedMap

namespace Stitch.MergedGraph

theorem place_le (gid : Gid) : place gid ≤ gid := Nat.mod_le _ _

/-- In a graph that is not too large the number of every node is its place. -/
theorem place_eq_self {g : MergedGraph} {gid : Gid} (hsize : g.nodeCount < 4294967295)
    (h : gid < g.nodeCount) : place gid = gid :=
  Nat.mod_eq_of_lt (Nat.lt_trans h (Nat.lt_succ_of_lt hsize))

/-- A number below the node count names a node, though not always its own. -/
theorem exists_node?_of_lt {g : MergedGraph} {gid : Gid} (h : gid < g.nodeCount) :
    ∃ n ∈ g.nodes, g.node? gid = some n := by
  have hplace : place gid < g.nodes.length := Nat.lt_of_le_of_lt (place_le gid) h
  exact ⟨_, List.getElem_mem hplace, List.getElem?_eq_getElem hplace⟩

/-! ### Recording calls -/

/-- The graph with calls of some kinds recorded between a pair, whatever its nodes. -/
def withCalls (g : MergedGraph) (e : Edge) (kinds : List CallKind) : MergedGraph :=
  { g with
    links := g.links.insert e.placed ()
    calls := g.calls.alter e fun old => CallKind.normalized (old.getD [] ++ kinds) }

/-- The graph with one call recorded. -/
def withCall (g : MergedGraph) (e : Edge) (kind : CallKind) : MergedGraph := g.withCalls e [kind]

@[simp] theorem nodes_withCalls (g : MergedGraph) (e : Edge) (kinds : List CallKind) :
    (g.withCalls e kinds).nodes = g.nodes := rfl

@[simp] theorem mem_edges_withCalls {g : MergedGraph} {e e' : Edge} {kinds : List CallKind} :
    e' ∈ (g.withCalls e kinds).edges ↔ e' = e ∨ e' ∈ g.edges :=
  SortedMap.mem_keys_alter

@[simp] theorem mem_links_withCalls {g : MergedGraph} {e l : Edge} {kinds : List CallKind} :
    l ∈ (g.withCalls e kinds).links.keys ↔ l = e.placed ∨ l ∈ g.links.keys :=
  SortedMap.mem_keys_alter

/-- What recording calls asks for and what it does. -/
theorem addCalls_eq_ok_iff {g g' : MergedGraph} {e : Edge} {kinds : List CallKind} :
    g.addCalls e kinds = .ok g' ↔
      (∃ n, g.node? e.source = some n ∧ n.isInternal) ∧ (∃ n, g.node? e.target = some n) ∧
        g' = g.withCalls e kinds := by
  constructor
  · intro h
    rw [addCalls] at h
    split at h
    · cases h
    next source hsource =>
      split at h
      · cases h
      next hinternal =>
        split at h
        · cases h
        next htarget =>
          rw [Option.isNone_iff_eq_none, ← ne_eq, Option.ne_none_iff_exists'] at htarget
          exact ⟨⟨source, hsource, by simpa using hinternal⟩, htarget, (Except.ok.inj h).symm⟩
  · rintro ⟨⟨source, hsource, hinternal⟩, ⟨target, htarget⟩, rfl⟩
    simp [addCalls, withCalls, hsource, hinternal, htarget]

theorem addCall_eq_ok {g : MergedGraph} {e : Edge} {source : Node} (kind : CallKind)
    (hsource : g.node? e.source = some source) (hinternal : source.isInternal)
    (htarget : (g.node? e.target).isSome) : g.addCall e kind = .ok (g.withCall e kind) :=
  addCalls_eq_ok_iff.2 ⟨⟨source, hsource, hinternal⟩, Option.isSome_iff_exists.1 htarget, rfl⟩

theorem eq_withCall_of_addCall {g g' : MergedGraph} {e : Edge} {kind : CallKind}
    (h : g.addCall e kind = .ok g') : g' = g.withCall e kind :=
  (addCalls_eq_ok_iff.1 h).2.2

/-! ### Kinds -/

/-- The kinds of the calls between a pair, none if there is no call. -/
def kindsBetween (g : MergedGraph) (e : Edge) : List CallKind := (g.kinds? e).getD []

/-- Recording calls adds their kinds to those of the pair. -/
theorem mem_kindsBetween_withCalls {g : MergedGraph} {e e' : Edge} {kinds : List CallKind}
    {k : CallKind} :
    k ∈ (g.withCalls e' kinds).kindsBetween e ↔ k ∈ g.kindsBetween e ∨ e = e' ∧ k ∈ kinds := by
  have hmem : ∀ ks : List CallKind, k ∈ CallKind.normalized ks ↔ k ∈ ks := by
    intro ks
    cases k <;> simp [CallKind.normalized, CallKind.all]
  rw [kindsBetween, kindsBetween, kinds?, kinds?, withCalls, SortedMap.get?_alter]
  by_cases he : e = e'
  · simp [he, hmem]
  · simp [he]

theorem mem_kindsBetween_withCall {g : MergedGraph} {e e' : Edge} {kind k : CallKind} :
    k ∈ (g.withCall e' kind).kindsBetween e ↔ k ∈ g.kindsBetween e ∨ e = e' ∧ k = kind := by
  rw [withCall, mem_kindsBetween_withCalls, List.mem_singleton]

/-! ### Links -/

/-- The links of a graph are those of the pairs in its table, no more and no fewer. -/
def IsLinked (g : MergedGraph) : Prop := ∀ l, l ∈ g.links.keys ↔ ∃ e ∈ g.edges, e.placed = l

theorem isLinked_nodes (nodes : List Node) : IsLinked { nodes } := by
  refine fun l => iff_of_false List.not_mem_nil ?_
  rintro ⟨e, he, -⟩
  cases he

theorem IsLinked.addNode {g : MergedGraph} (h : g.IsLinked) (n : Node) : (g.addNode n).IsLinked :=
  h

/-- A pair and its link are written together, whether they are new or not. -/
theorem IsLinked.withCalls {g : MergedGraph} (h : g.IsLinked) (e : Edge) (kinds : List CallKind) :
    (g.withCalls e kinds).IsLinked := by
  intro l
  rw [mem_links_withCalls, h l]
  constructor
  · rintro (rfl | ⟨e', he', rfl⟩)
    · exact ⟨e, mem_edges_withCalls.2 (.inl rfl), rfl⟩
    · exact ⟨e', mem_edges_withCalls.2 (.inr he'), rfl⟩
  · rintro ⟨e', he', rfl⟩
    rcases mem_edges_withCalls.1 he' with rfl | he'
    · exact .inl rfl
    · exact .inr ⟨e', he', rfl⟩

/-- Links are settled by the table of calls. -/
theorem eq_of_isLinked {g g' : MergedGraph} (h : g.IsLinked) (h' : g'.IsLinked)
    (hnodes : g.nodes = g'.nodes) (hcalls : g.calls = g'.calls) : g = g' := by
  have hedges : g.edges = g'.edges := congrArg SortedMap.keys hcalls
  have hlinks : g.links = g'.links :=
    SortedMap.eq_of_mem_keys_iff fun l => by rw [h l, h' l, hedges]
  cases g
  cases g'
  simp_all

theorem edgeCount_eq_length (g : MergedGraph) : g.edgeCount = g.links.keys.length :=
  (List.length_map _).symm

/-- Several pairs may have one link, but no link comes without a pair. -/
theorem IsLinked.edgeCount_le {g : MergedGraph} (h : g.IsLinked) :
    g.edgeCount ≤ g.edges.length := by
  have hsubset : g.links.keys ⊆ g.edges.map Edge.placed := fun l hl =>
    List.mem_map.2 ((h l).1 hl)
  have hle := (List.Nodup.subperm g.links.nodup_keys hsubset).length_le
  rwa [List.length_map, ← edgeCount_eq_length] at hle

/-- Where all numbers are places, the links are the pairs of the table. -/
theorem IsLinked.keys_eq_edges {g : MergedGraph} (h : g.IsLinked)
    (hplaced : ∀ e ∈ g.edges, e.placed = e) : g.links.keys = g.edges := by
  refine SortedMap.keys_eq_of_mem_iff fun l => (h l).trans ?_
  constructor
  · rintro ⟨e, he, rfl⟩
    rw [hplaced e he]
    exact he
  · exact fun hl => ⟨l, hl, hplaced l hl⟩

/-- Where all numbers are places, every pair is counted once. -/
theorem IsLinked.edgeCount_eq {g : MergedGraph} (h : g.IsLinked)
    (hplaced : ∀ e ∈ g.edges, e.placed = e) : g.edgeCount = g.edges.length := by
  rw [edgeCount_eq_length, h.keys_eq_edges hplaced]

/-! ### Growth -/

/-- Whether a graph has become another one by additions: the nodes keep their places, and
every pair keeps its kinds. -/
structure GrowsTo (g g' : MergedGraph) : Prop where
  nodes : g.nodes <+: g'.nodes
  edges : g.edges ⊆ g'.edges
  kinds : ∀ e, g.kindsBetween e ⊆ g'.kindsBetween e

namespace GrowsTo

variable {g g' g'' : MergedGraph}

theorem refl (g : MergedGraph) : g.GrowsTo g :=
  ⟨List.prefix_rfl, List.Subset.refl _, fun _ => List.Subset.refl _⟩

theorem trans (h : g.GrowsTo g') (h' : g'.GrowsTo g'') : g.GrowsTo g'' :=
  ⟨h.nodes.trans h'.nodes, List.Subset.trans h.edges h'.edges,
    fun e => List.Subset.trans (h.kinds e) (h'.kinds e)⟩

theorem addNode (g : MergedGraph) (n : Node) : g.GrowsTo (g.addNode n) :=
  ⟨List.prefix_append _ _, List.Subset.refl _, fun _ => List.Subset.refl _⟩

theorem withCall (g : MergedGraph) (e : Edge) (kind : CallKind) :
    g.GrowsTo (g.withCall e kind) :=
  ⟨List.prefix_rfl, fun _ he => mem_edges_withCalls.2 (.inr he),
    fun _ _ hk => mem_kindsBetween_withCall.2 (.inl hk)⟩

end GrowsTo

/-! ### Nodes with their numbers -/

theorem mem_numbered_iff {g : MergedGraph} {gid : Gid} {n : Node} :
    (gid, n) ∈ g.numbered ↔ g.nodes[gid]? = some n := by
  rw [numbered, List.mem_map]
  constructor
  · rintro ⟨⟨m, i⟩, hmem, heq⟩
    cases heq
    exact List.mem_zipIdx_iff_getElem?.1 hmem
  · exact fun h => ⟨(n, gid), List.mem_zipIdx_iff_getElem?.2 h, rfl⟩

theorem mem_externalNodes_iff {g : MergedGraph} {gid : Gid} :
    gid ∈ g.externalNodes ↔ ∃ n, g.nodes[gid]? = some n ∧ n.isInternal = false := by
  simp [externalNodes, mem_numbered_iff]

theorem lt_of_mem_externalNodes {g : MergedGraph} {gid : Gid} (h : gid ∈ g.externalNodes) :
    gid < g.nodeCount := by
  obtain ⟨n, hn, -⟩ := mem_externalNodes_iff.1 h
  exact (List.getElem?_eq_some_iff.1 hn).1

/-! ### Neighbours -/

theorem mem_map_outgoing_iff {g : MergedGraph} {i j : Nat} :
    j ∈ (g.outgoing i).map Edge.target ↔ ⟨i, j⟩ ∈ g.links.keys := by
  rw [outgoing, List.mem_map]
  constructor
  · rintro ⟨l, hl, rfl⟩
    obtain ⟨hl, hsource⟩ := List.mem_filter.1 hl
    rwa [← eq_of_beq hsource]
  · exact fun hl => ⟨_, List.mem_filter.2 ⟨hl, beq_self_eq_true i⟩, rfl⟩

theorem mem_map_incoming_iff {g : MergedGraph} {i j : Nat} :
    i ∈ (g.incoming j).map Edge.source ↔ ⟨i, j⟩ ∈ g.links.keys := by
  rw [incoming, List.mem_map]
  constructor
  · rintro ⟨l, hl, rfl⟩
    obtain ⟨hl, htarget⟩ := List.mem_filter.1 hl
    rwa [← eq_of_beq htarget]
  · exact fun hl => ⟨_, List.mem_filter.2 ⟨hl, beq_self_eq_true j⟩, rfl⟩

theorem mem_successors_iff {g : MergedGraph} {s t : Gid} :
    t ∈ g.successors s ↔ (g.node? s).isSome ∧ ⟨place s, t⟩ ∈ g.links.keys := by
  rw [successors]
  cases hnode : g.node? s with
  | none => simp
  | some n =>
    rw [Option.isNone_some, if_neg Bool.false_ne_true, mem_distinct, List.mem_mergeSort,
      mem_map_outgoing_iff]
    exact (and_iff_right rfl).symm

theorem mem_predecessors_iff {g : MergedGraph} {s t : Gid} :
    s ∈ g.predecessors t ↔ (g.node? t).isSome ∧ ⟨s, place t⟩ ∈ g.links.keys := by
  rw [predecessors]
  cases hnode : g.node? t with
  | none => simp
  | some n =>
    rw [Option.isNone_some, if_neg Bool.false_ne_true, mem_distinct, List.mem_mergeSort,
      mem_map_incoming_iff]
    exact (and_iff_right rfl).symm

section Neighbours

variable {g : MergedGraph} (hlinked : g.IsLinked)
  (hends : ∀ e ∈ g.edges, e.source < g.nodeCount ∧ e.target < g.nodeCount)
include hlinked hends

theorem successors_eq_nil (hsize : g.nodeCount < 4294967295) {gid : Gid}
    (hgid : gid < g.nodeCount) (h : ∀ e ∈ g.edges, e.source ≠ gid) : g.successors gid = [] := by
  refine List.eq_nil_iff_forall_not_mem.2 fun t ht => ?_
  obtain ⟨e, he, hplaced⟩ := (hlinked _).1 (mem_successors_iff.1 ht).2
  have hsource : place e.source = place gid := congrArg Edge.source hplaced
  rw [place_eq_self hsize (hends e he).1, place_eq_self hsize hgid] at hsource
  exact h e he hsource

theorem predecessors_ne_nil {e : Edge} (he : e ∈ g.edges) : g.predecessors e.target ≠ [] := by
  obtain ⟨n, -, hn⟩ := exists_node?_of_lt (hends e he).2
  exact List.ne_nil_of_mem (mem_predecessors_iff.2 ⟨by simp [hn], (hlinked _).2 ⟨e, he, rfl⟩⟩)

end Neighbours

end Stitch.MergedGraph
