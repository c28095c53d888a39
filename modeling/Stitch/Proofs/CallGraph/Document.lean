/-
Merged graphs are read back from their documents.

* The tables of a graph are read back from their bytes (`reads_toBytes`), if
  their sizes and numbers fit in 64 bits (`MergedGraph.Fits`).
* Graphs that the operations build are sound (`IsBuilt.isSound`): calls start at
  internal nodes, end at nodes and have their kinds in order.
* **`ofDocument_toDocument`**: a sound graph is the graph of its tables.  The nodes
  come back in their places because the table numbers them without a gap, and each
  pair of the call table is added behind those before it, since these are smaller.
-/
import Stitch.CallGraph.Document
import Stitch.Proofs.Binary.RoundTrip
import Stitch.Proofs.CallGraph.Merged
import Stitch.Proofs.Distinct
import Stitch.Proofs.Steps

namespace Stitch

open Binary (FitsNat FitsText FitsList Reader)

/-! ### Tables in bytes -/

theorem CallKind.index_eq_idxOf (k : CallKind) : k.index = all.idxOf k := by
  cases k <;> rfl

theorem CallKind.mem_all (k : CallKind) : k ∈ all := by
  cases k <;> decide

structure NodeRecord.Fits (r : NodeRecord) : Prop where
  gid : FitsNat r.gid
  uri : FitsText r.node.uri
  owningType : FitsText r.node.owningType

structure EdgeRecord.Fits (r : EdgeRecord) : Prop where
  source : FitsNat r.edge.source
  target : FitsNat r.edge.target
  kinds : FitsNat r.kinds.length

structure GraphDocument.Fits (d : GraphDocument) : Prop where
  nodes : FitsList NodeRecord.Fits d.nodes
  edges : FitsList EdgeRecord.Fits d.edges

theorem NodeRecord.reads_toBytes {r : NodeRecord} (h : r.Fits) :
    NodeRecord.ofBytes.Reads r.toBytes r := by
  simp only [ofBytes, toBytes, List.append_assoc]
  exact (Reader.reads_nat64 h.gid).bind <| (Reader.reads_string h.uri).bind <|
    (Reader.reads_string h.owningType).bind <| (Reader.reads_bool r.node.isInternal).bind_pure _

theorem EdgeRecord.reads_toBytes {r : EdgeRecord} (h : r.Fits) :
    EdgeRecord.ofBytes.Reads r.toBytes r := by
  have hkind (k : CallKind) : (Reader.case CallKind.all).Reads (Binary.nat32 k.index) k := by
    rw [CallKind.index_eq_idxOf]
    exact Reader.reads_case k.mem_all (by decide)
  simp only [ofBytes, toBytes, List.append_assoc]
  exact (Reader.reads_nat64 h.source).bind <| (Reader.reads_nat64 h.target).bind <|
    (Reader.reads_list h.kinds fun k _ => hkind k).bind_pure _

theorem GraphDocument.reads_toBytes {d : GraphDocument} (h : d.Fits) :
    GraphDocument.ofBytes.Reads d.toBytes d := by
  simp only [ofBytes, toBytes]
  exact (Reader.reads_list h.nodes.1 fun r hr => NodeRecord.reads_toBytes (h.nodes.2 r hr)).bind <|
    (Reader.reads_list h.edges.1 fun r hr =>
      EdgeRecord.reads_toBytes (h.edges.2 r hr)).bind_pure _

namespace MergedGraph

/-! ### Sound graphs -/

/-- The graphs that the operations build. -/
inductive IsBuilt : MergedGraph → Prop
  | empty : IsBuilt {}
  | addNode {g : MergedGraph} (n : Node) (h : IsBuilt g) : IsBuilt (g.addNode n)
  | addCall {g g' : MergedGraph} {e : Edge} {kind : CallKind} (h : IsBuilt g)
    (hcall : g.addCall e kind = .ok g') : IsBuilt g'
  | ofDocument {d : GraphDocument} {g : MergedGraph} (h : ofDocument d = .ok g) : IsBuilt g

/-- The calls of a graph lead from internal nodes to nodes and have their links, and the
kinds of each pair are listed in order. -/
structure IsSound (g : MergedGraph) : Prop where
  source : ∀ e ∈ g.edges, ∃ n, g.node? e.source = some n ∧ n.isInternal
  target : ∀ e ∈ g.edges, ∃ n, g.node? e.target = some n
  kinds : ∀ p ∈ g.calls.entries, CallKind.normalized p.2 = p.2
  linked : g.IsLinked

theorem node?_addNode {g : MergedGraph} {gid : Gid} {n m : Node} (h : g.node? gid = some m) :
    (g.addNode n).node? gid = some m := by
  rw [node?, addNode, List.getElem?_append_left (List.getElem?_eq_some_iff.1 h).1]
  exact h

theorem CallKind.normalized_normalized (kinds : List CallKind) :
    CallKind.normalized (CallKind.normalized kinds) = CallKind.normalized kinds := by
  refine List.filter_congr fun k _ => ?_
  simp [CallKind.normalized, k.mem_all]

theorem isSound_addNode {g : MergedGraph} (h : g.IsSound) (n : Node) : (g.addNode n).IsSound where
  source e he := by
    obtain ⟨m, hm, hinternal⟩ := h.source e he
    exact ⟨m, node?_addNode hm, hinternal⟩
  target e he := by
    obtain ⟨m, hm⟩ := h.target e he
    exact ⟨m, node?_addNode hm⟩
  kinds := h.kinds
  linked := h.linked.addNode n

theorem isSound_addCalls {g g' : MergedGraph} {e : Edge} {kinds : List CallKind} (h : g.IsSound)
    (hcalls : g.addCalls e kinds = .ok g') : g'.IsSound := by
  obtain ⟨hsource, htarget, rfl⟩ := addCalls_eq_ok_iff.1 hcalls
  refine ⟨fun e' he' => ?_, fun e' he' => ?_, fun p hp => ?_, h.linked.withCalls e kinds⟩
  · rcases mem_edges_withCalls.1 he' with rfl | he'
    · exact hsource
    · exact h.source e' he'
  · rcases mem_edges_withCalls.1 he' with rfl | he'
    · exact htarget
    · exact h.target e' he'
  · have hget := SortedMap.get?_eq_some_iff.2 hp
    rw [withCalls, SortedMap.get?_alter] at hget
    split at hget
    · rw [← Option.some.inj hget, CallKind.normalized_normalized]
    · exact h.kinds p (SortedMap.get?_eq_some_iff.1 hget)

theorem isSound_nodes (nodes : List Node) : IsSound { nodes } := by
  refine ⟨fun e he => ?_, fun e he => ?_, fun p hp => ?_, isLinked_nodes nodes⟩
  · cases he
  · cases he
  · cases hp

theorem IsBuilt.isSound {g : MergedGraph} (h : g.IsBuilt) : g.IsSound := by
  induction h with
  | empty => exact isSound_nodes []
  | addNode n _ ih => exact isSound_addNode ih n
  | addCall _ hcall ih => exact isSound_addCalls ih hcall
  | @ofDocument d g h =>
    obtain ⟨nodes, -, hedges⟩ := exists_of_bind_eq_ok h
    exact foldlM_preserves (fun g r g' _ hg hcalls => isSound_addCalls hg hcalls)
      (isSound_nodes nodes) hedges

/-! ### Graphs from their tables -/

theorem denseNodes_zipIdx (nodes : List Node) (start : Nat) :
    denseNodes start ((nodes.zipIdx start).map fun p => ⟨p.2, p.1⟩) = .ok nodes := by
  induction nodes generalizing start with
  | nil => rfl
  | cons n nodes ih =>
    rw [List.zipIdx_cons, List.map_cons, denseNodes, if_pos rfl, ih]
    rfl

/-- The pairs of a sound graph are recorded one behind the other: those before them
are smaller, and their kinds are in order. -/
theorem foldlM_addCalls_entries {g g₀ : MergedGraph} (h : g.IsSound)
    {before rest : List (Edge × List CallKind)} (hentries : g.calls.entries = before ++ rest)
    (hnodes : g₀.nodes = g.nodes) (hlinked : g₀.IsLinked) (hbefore : g₀.calls.entries = before) :
    (rest.map fun e => (⟨e.1, e.2⟩ : EdgeRecord)).foldlM
      (fun g r => g.addCalls r.edge r.kinds) g₀ = .ok g := by
  induction rest generalizing before g₀ with
  | nil =>
    have hcalls : g₀.calls = g.calls :=
      SortedMap.eq_of_entries_eq (by rw [hbefore, hentries, List.append_nil])
    rw [eq_of_isLinked hlinked h.linked hnodes hcalls]
    rfl
  | cons e rest ih =>
    have hmem : e ∈ g.calls.entries := by simp [hentries]
    have hedge : e.1 ∈ g.edges := List.mem_map_of_mem hmem
    have hlast : ∀ e' ∈ g₀.calls.entries, compare e'.1 e.1 = .lt := by
      have hordered := g.calls.ordered
      rw [hentries, List.pairwise_append] at hordered
      exact fun e' he' => hordered.2.2 e' (hbefore ▸ he') e List.mem_cons_self
    have hnode : ∀ gid, g₀.node? gid = g.node? gid := fun gid => by rw [node?, node?, hnodes]
    have hstep : g₀.addCalls e.1 e.2 = .ok _ := addCalls_eq_ok_iff.2
      ⟨by rw [hnode]; exact h.source e.1 hedge, by rw [hnode]; exact h.target e.1 hedge, rfl⟩
    rw [List.map_cons, List.foldlM_cons, hstep]
    refine ih (by rw [hentries, List.append_cons]) hnodes (hlinked.withCalls e.1 e.2) ?_
    rw [withCalls, SortedMap.entries_alter_of_lt hlast, hbefore, Option.getD_none,
      List.nil_append, h.kinds e hmem]

theorem ofDocument_toDocument {g : MergedGraph} (h : g.IsSound) :
    ofDocument g.toDocument = .ok g := by
  have hsorted : (g.numbered.map fun p => (⟨p.1, p.2⟩ : NodeRecord)).Pairwise
      fun a b => decide (a.gid ≤ b.gid) := by
    rw [numbered, List.map_map, List.pairwise_map]
    exact (pairwise_zipIdx g.nodes).imp fun hlt => decide_eq_true (Nat.le_of_lt hlt)
  have hnodes : denseNodes 0 (g.toDocument.nodes.mergeSort fun a b => a.gid ≤ b.gid) =
      .ok g.nodes := by
    rw [toDocument, List.mergeSort_of_pairwise hsorted, numbered, List.map_map]
    exact denseNodes_zipIdx g.nodes 0
  rw [ofDocument, hnodes]
  exact foldlM_addCalls_entries h (List.nil_append _).symm rfl (isLinked_nodes g.nodes) rfl

/-! ### Sizes -/

/-- The sizes of a graph and the numbers in it fit in 64 bits. -/
@[mk_iff]
structure Fits (g : MergedGraph) : Prop where
  nodes : FitsList (fun n : Node => FitsText n.uri ∧ FitsText n.owningType) g.nodes
  edges : FitsList (fun e : Edge => FitsNat e.source ∧ FitsNat e.target) g.edges

instance : DecidablePred Fits := fun g => decidable_of_iff _ (fits_iff g).symm

theorem fits_toDocument {g : MergedGraph} (h : g.Fits) (hsound : g.IsSound) :
    g.toDocument.Fits where
  nodes := by
    refine ⟨by simpa [toDocument, numbered] using h.nodes.1, fun r hr => ?_⟩
    obtain ⟨⟨gid, n⟩, hp, rfl⟩ := List.mem_map.1 hr
    obtain ⟨hgid, hn⟩ := List.getElem?_eq_some_iff.1 (mem_numbered_iff.1 hp)
    have hmem : n ∈ g.nodes := hn ▸ List.getElem_mem hgid
    exact ⟨Nat.lt_trans hgid h.nodes.1, (h.nodes.2 n hmem).1, (h.nodes.2 n hmem).2⟩
  edges := by
    refine ⟨by simpa [toDocument, edges, SortedMap.keys] using h.edges.1, fun r hr => ?_⟩
    obtain ⟨⟨e, kinds⟩, hp, rfl⟩ := List.mem_map.1 hr
    have hfits := h.edges.2 e (List.mem_map_of_mem hp)
    -- There are no more kinds than the enumeration has.
    have hkinds : kinds.length ≤ CallKind.all.length := by
      have hnormal : CallKind.normalized kinds = kinds := hsound.kinds _ hp
      rw [← hnormal]
      exact List.length_filter_le _ _
    exact ⟨hfits.1, hfits.2, Nat.lt_of_le_of_lt hkinds (by decide)⟩

theorem nodeCount_lt {g : MergedGraph} (h : g.Fits) : FitsNat g.nodeCount := h.nodes.1

theorem edgeCount_lt {g : MergedGraph} (h : g.Fits) (hlinked : g.IsLinked) :
    FitsNat g.edgeCount :=
  Nat.lt_of_le_of_lt hlinked.edgeCount_le h.edges.1

end MergedGraph

end Stitch
