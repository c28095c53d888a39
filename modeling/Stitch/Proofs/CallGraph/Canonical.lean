/-
The canonical form of the tables of a graph.

A document may list nodes and calls in any order, a pair of calls more than once and its
kinds as often as it likes.  What counts is what it records (`RecordsSame`): the same nodes,
the same pairs and for each pair the same kinds.

* `ofDocument_eq_ok_iff` says of which graph given tables are the document, without a word
  on their order: of the sound graph with these nodes that has recorded these calls.  So
  documents that record the same are accepted or refused together
  (`ofDocument_congr`).
* Among all documents that record the same there is at most one in canonical form
  (`IsCanonical.eq_of_recordsSame`), and a sound graph writes that one
  (`isCanonical_toDocument`).

The main statement is **`ofDocument_canonical`**.
-/
import Stitch.Proofs.CallGraph.History
import Stitch.Proofs.Sorting

namespace Stitch

/-! ### Kinds in order -/

namespace CallKind

theorem pairwise_index_normalized (kinds : List CallKind) :
    (normalized kinds).Pairwise fun j k => j.index < k.index := by
  have hall : all.Pairwise fun j k => j.index < k.index := by decide
  exact hall.sublist List.filter_sublist

theorem normalized_congr {kinds kinds' : List CallKind} (h : ∀ k, k ∈ kinds ↔ k ∈ kinds') :
    normalized kinds = normalized kinds' :=
  List.filter_congr fun k _ => by
    rw [Bool.eq_iff_iff, List.contains_iff_mem, List.contains_iff_mem, h]

end CallKind

/-! ### Documents -/

namespace GraphDocument

/-- Nodes in the order of their numbers, which leave no gap; pairs in order, each of them
once; and the kinds of a pair in order, each of them once. -/
structure IsCanonical (d : GraphDocument) : Prop where
  gids : d.nodes.map (·.gid) = List.range d.nodes.length
  edges : d.edges.Pairwise fun r s => compare r.edge s.edge = .lt
  kinds : ∀ r ∈ d.edges, r.kinds.Pairwise fun j k => j.index < k.index

/-- The documents have the same nodes, the same pairs and for each pair the same kinds,
in whatever order and however often. -/
structure RecordsSame (d d' : GraphDocument) : Prop where
  nodes : d.nodes.Perm d'.nodes
  mem_edges_iff : ∀ e, (∃ r ∈ d.edges, r.edge = e) ↔ ∃ r ∈ d'.edges, r.edge = e
  mem_kinds_iff : ∀ e k, (∃ r ∈ d.edges, r.edge = e ∧ k ∈ r.kinds) ↔
    ∃ r ∈ d'.edges, r.edge = e ∧ k ∈ r.kinds

variable {d d' : GraphDocument}

theorem RecordsSame.symm (h : d.RecordsSame d') : d'.RecordsSame d :=
  ⟨h.nodes.symm, fun e => (h.mem_edges_iff e).symm, fun e k => (h.mem_kinds_iff e k).symm⟩

theorem RecordsSame.trans {d'' : GraphDocument} (h : d.RecordsSame d')
    (h' : d'.RecordsSame d'') : d.RecordsSame d'' :=
  ⟨h.nodes.trans h'.nodes, fun e => (h.mem_edges_iff e).trans (h'.mem_edges_iff e),
    fun e k => (h.mem_kinds_iff e k).trans (h'.mem_kinds_iff e k)⟩

theorem recordsSame_of_perm (hnodes : d.nodes.Perm d'.nodes) (hedges : d.edges.Perm d'.edges) :
    d.RecordsSame d' where
  nodes := hnodes
  mem_edges_iff e := by simp only [hedges.mem_iff]
  mem_kinds_iff e k := by simp only [hedges.mem_iff]

namespace IsCanonical

theorem pairwise_gid (h : d.IsCanonical) : d.nodes.Pairwise fun r s => r.gid < s.gid := by
  rw [← List.pairwise_map, h.gids]
  exact List.pairwise_lt_range

/-- In canonical form a pair has one record. -/
theorem eq_of_edge_eq (h : d.IsCanonical) {r s : EdgeRecord} (hr : r ∈ d.edges)
    (hs : s ∈ d.edges) (heq : r.edge = s.edge) : r = s := by
  have hnodup : (d.edges.map (·.edge)).Nodup := by
    rw [List.nodup_iff_pairwise_ne, List.pairwise_map]
    exact h.edges.imp fun hlt heq => by simp [heq] at hlt
  exact List.inj_on_of_nodup_map hnodup hr hs heq

theorem mem_kinds_iff (h : d.IsCanonical) {r : EdgeRecord} (hr : r ∈ d.edges) {k : CallKind} :
    k ∈ r.kinds ↔ ∃ s ∈ d.edges, s.edge = r.edge ∧ k ∈ s.kinds :=
  ⟨fun hk => ⟨r, hr, rfl, hk⟩, fun ⟨_, hs, heq, hk⟩ => h.eq_of_edge_eq hs hr heq ▸ hk⟩

theorem mem_edges_of_recordsSame (h : d.IsCanonical) (h' : d'.IsCanonical)
    (hsame : d.RecordsSame d') {r : EdgeRecord} (hr : r ∈ d.edges) : r ∈ d'.edges := by
  obtain ⟨s, hs, hedge⟩ := (hsame.mem_edges_iff r.edge).1 ⟨r, hr, rfl⟩
  have : Std.Asymm fun j k : CallKind => j.index < k.index := ⟨fun _ _ => Nat.lt_asymm⟩
  have hkinds : r.kinds = s.kinds := (h.kinds r hr).eq_of_mem_iff (h'.kinds s hs) fun k => by
    rw [h.mem_kinds_iff hr, h'.mem_kinds_iff hs, hedge, hsame.mem_kinds_iff]
  obtain rfl : r = s := congrArg₂ EdgeRecord.mk hedge.symm hkinds
  exact hs

/-- Documents in canonical form that record the same are equal. -/
theorem eq_of_recordsSame (h : d.IsCanonical) (h' : d'.IsCanonical)
    (hsame : d.RecordsSame d') : d = d' := by
  have : Std.Asymm fun r s : EdgeRecord => compare r.edge s.edge = .lt :=
    ⟨fun _ _ hlt hgt => by
      rw [Std.OrientedCmp.gt_of_lt hlt] at hgt
      cases hgt⟩
  have hnodes : d.nodes = d'.nodes := hsame.nodes.eq_of_pairwise
    (fun _ _ _ _ hlt hgt => absurd hgt (Nat.lt_asymm hlt)) h.pairwise_gid h'.pairwise_gid
  have hedges : d.edges = d'.edges := h.edges.eq_of_mem_iff h'.edges fun r =>
    ⟨h.mem_edges_of_recordsSame h' hsame, h'.mem_edges_of_recordsSame h hsame.symm⟩
  exact congrArg₂ GraphDocument.mk hnodes hedges

end IsCanonical

end GraphDocument

namespace MergedGraph

variable {g g' : MergedGraph} {d d' : GraphDocument}

/-! ### The tables of a graph -/

theorem nodes_toDocument (g : MergedGraph) :
    g.toDocument.nodes = g.nodes.zipIdx.map fun p => ⟨p.2, p.1⟩ := by
  rw [toDocument, numbered, List.map_map]
  rfl

/-- A graph has recorded what its own table lists. -/
theorem records_toDocument (g : MergedGraph) : g.Records g.toDocument.edges where
  mem_edges_iff e := by
    simp [toDocument, edges, SortedMap.keys]
  mem_kinds_iff e k := by
    rw [kindsBetween, kinds?]
    constructor
    · intro hk
      cases hget : g.calls.get? e with
      | none => simp [hget] at hk
      | some kinds =>
        rw [hget, Option.getD_some] at hk
        exact ⟨⟨e, kinds⟩, List.mem_map.2 ⟨_, SortedMap.get?_eq_some_iff.1 hget, rfl⟩, rfl, hk⟩
    · rintro ⟨r, hr, rfl, hk⟩
      obtain ⟨⟨e, kinds⟩, hmem, rfl⟩ := List.mem_map.1 hr
      rwa [SortedMap.get?_eq_some_iff.2 hmem]

theorem isCanonical_toDocument (h : g.IsSound) : g.toDocument.IsCanonical where
  gids := by
    rw [nodes_toDocument, List.map_map, List.length_map, List.length_zipIdx,
      List.range_eq_range', ← List.zipIdx_map_snd]
    rfl
  edges := List.pairwise_map.2 g.calls.ordered
  kinds r hr := by
    obtain ⟨p, hp, rfl⟩ := List.mem_map.1 hr
    rw [← h.kinds p hp]
    exact CallKind.pairwise_index_normalized p.2

theorem recordsSame_toDocument (hnodes : g.toDocument.nodes.Perm d.nodes)
    (hrecords : g.Records d.edges) : g.toDocument.RecordsSame d where
  nodes := hnodes
  mem_edges_iff e := by rw [← g.records_toDocument.mem_edges_iff, hrecords.mem_edges_iff]
  mem_kinds_iff e k := by rw [← g.records_toDocument.mem_kinds_iff, hrecords.mem_kinds_iff]

/-- A sound graph is told by its nodes and by what it has recorded. -/
theorem eq_of_records {recorded : List EdgeRecord} (h : g.IsSound) (h' : g'.IsSound)
    (hnodes : g.nodes = g'.nodes) (hrecords : g.Records recorded)
    (hrecords' : g'.Records recorded) : g = g' := by
  have hcalls : g.calls = g'.calls := by
    refine SortedMap.eq_of_get?_eq fun e => ?_
    have hsome : (g.calls.get? e).isSome ↔ (g'.calls.get? e).isSome := by
      rw [← SortedMap.mem_keys_iff, ← SortedMap.mem_keys_iff]
      exact (hrecords.mem_edges_iff e).trans (hrecords'.mem_edges_iff e).symm
    have hkinds : ∀ k, k ∈ g.kindsBetween e ↔ k ∈ g'.kindsBetween e := fun k =>
      (hrecords.mem_kinds_iff e k).trans (hrecords'.mem_kinds_iff e k).symm
    simp only [kindsBetween, kinds?] at hkinds
    cases hget : g.calls.get? e with
    | none =>
      rw [hget, Option.isSome_none, Bool.false_eq_true, false_iff, Option.not_isSome_iff_eq_none]
        at hsome
      exact hsome.symm
    | some kinds =>
      obtain ⟨kinds', hget'⟩ := Option.isSome_iff_exists.1 (hsome.1 (by rw [hget]; rfl))
      rw [hget, hget', Option.getD_some, Option.getD_some] at hkinds
      have hnormal : CallKind.normalized kinds = kinds :=
        h.kinds _ (SortedMap.get?_eq_some_iff.1 hget)
      have hnormal' : CallKind.normalized kinds' = kinds' :=
        h'.kinds _ (SortedMap.get?_eq_some_iff.1 hget')
      rw [hget', ← hnormal, ← hnormal', CallKind.normalized_congr hkinds]
  exact eq_of_isLinked h.linked h'.linked hnodes hcalls

/-! ### Graphs of documents -/

theorem denseNodes_eq_ok_iff {records : List NodeRecord} {nodes : List Node} {start : Nat} :
    denseNodes start records = .ok nodes ↔
      records = (nodes.zipIdx start).map fun p => ⟨p.2, p.1⟩ := by
  constructor
  · intro h
    induction records generalizing start nodes with
    | nil =>
      cases h
      rfl
    | cons r records ih =>
      rw [denseNodes] at h
      split at h
      next hgid =>
        cases hrest : denseNodes (start + 1) records with
        | error e =>
          rw [hrest] at h
          cases h
        | ok rest =>
          rw [hrest] at h
          cases h
          rw [List.zipIdx_cons, List.map_cons, ← ih hrest, ← hgid]
      next => cases h
  · rintro rfl
    exact denseNodes_zipIdx nodes start

theorem nodes_foldlM_addCalls {records : List EdgeRecord}
    (h : records.foldlM (fun g r => g.addCalls r.edge r.kinds) g = .ok g') :
    g'.nodes = g.nodes :=
  foldlM_preserves (P := fun g₁ : MergedGraph => g₁.nodes = g.nodes)
    (fun g₁ r g₂ _ hnodes hcalls => by
      rw [(addCalls_eq_ok_iff.1 hcalls).2.2, nodes_withCalls, hnodes]) rfl h

/-- **Of which graph a document is.**  The order of its tables does not count, nor what they
list again. -/
theorem ofDocument_eq_ok_iff : ofDocument d = .ok g ↔
    g.toDocument.nodes.Perm d.nodes ∧ g.Records d.edges ∧ g.IsSound := by
  constructor
  · intro h
    obtain ⟨nodes, hdense, hfold⟩ := exists_of_bind_eq_ok h
    refine ⟨?_, records_of_ofDocument h, (IsBuilt.ofDocument h).isSound⟩
    rw [nodes_toDocument, nodes_foldlM_addCalls hfold, ← denseNodes_eq_ok_iff.1 hdense]
    exact List.mergeSort_perm _ _
  · rintro ⟨hnodes, hrecords, hsound⟩
    have hdense : denseNodes 0 (d.nodes.mergeSort fun r s => r.gid ≤ s.gid) = .ok g.nodes := by
      rw [denseNodes_eq_ok_iff, mergeSort_eq_of_pairwise_lt
        (isCanonical_toDocument hsound).pairwise_gid hnodes, nodes_toDocument]
    -- The nodes stay as they are while calls are recorded, so that none is refused.
    have hstep : ∀ g₁ : MergedGraph, ∀ r ∈ d.edges, g₁.nodes = g.nodes →
        ∃ g₂, g₁.addCalls r.edge r.kinds = .ok g₂ ∧ g₂.nodes = g.nodes := by
      intro g₁ r hr hnodes₁
      have hedge : r.edge ∈ g.edges := (hrecords.mem_edges_iff _).2 ⟨r, hr, rfl⟩
      have hnode : ∀ gid, g₁.node? gid = g.node? gid := fun gid => by
        rw [node?, node?, hnodes₁]
      exact ⟨_, addCalls_eq_ok_iff.2 ⟨by rw [hnode]; exact hsound.source _ hedge,
        by rw [hnode]; exact hsound.target _ hedge, rfl⟩, hnodes₁⟩
    obtain ⟨g', hfold, hnodes'⟩ := exists_foldlM_ok (b := { nodes := g.nodes }) hstep rfl
    have hread : ofDocument d = .ok g' := by rw [ofDocument, hdense]; exact hfold
    rw [hread, eq_of_records (IsBuilt.ofDocument hread).isSound hsound hnodes'
      (records_of_ofDocument hread) hrecords]

/-- Documents that record the same are those of the same graph, or all refused. -/
theorem ofDocument_congr (h : d.RecordsSame d') : ofDocument d = .ok g ↔ ofDocument d' = .ok g := by
  have hrecords : g.Records d.edges ↔ g.Records d'.edges :=
    ⟨fun ⟨hedges, hkinds⟩ => ⟨fun e => (hedges e).trans (h.mem_edges_iff e),
      fun e k => (hkinds e k).trans (h.mem_kinds_iff e k)⟩,
    fun ⟨hedges, hkinds⟩ => ⟨fun e => (hedges e).trans (h.mem_edges_iff e).symm,
      fun e k => (hkinds e k).trans (h.mem_kinds_iff e k).symm⟩⟩
  rw [ofDocument_eq_ok_iff, ofDocument_eq_ok_iff, hrecords]
  exact and_congr_left' ⟨fun hperm => hperm.trans h.nodes, fun hperm => hperm.trans h.nodes.symm⟩

/-- **Documents have a canonical form.**  Every graph that the operations build is the graph
of its own document.  That document is canonical, and the only canonical one among those
that record the same as a document from which the graph was read.  And the order of the
tables decides neither whether they are accepted nor what graph they make. -/
theorem ofDocument_canonical :
    (∀ g : MergedGraph, g.IsBuilt → ofDocument g.toDocument = .ok g) ∧
      (∀ (d : GraphDocument) (g : MergedGraph), ofDocument d = .ok g →
        ∀ d', d' = g.toDocument ↔ d'.IsCanonical ∧ d'.RecordsSame d) ∧
      ∀ d d' : GraphDocument, d.nodes.Perm d'.nodes → d.edges.Perm d'.edges →
        ∀ g, ofDocument d = .ok g ↔ ofDocument d' = .ok g := by
  refine ⟨fun g hg => ofDocument_toDocument hg.isSound, fun d g hread d' => ?_,
    fun d d' hnodes hedges g => ofDocument_congr (GraphDocument.recordsSame_of_perm hnodes hedges)⟩
  obtain ⟨hnodes, hrecords, hsound⟩ := ofDocument_eq_ok_iff.1 hread
  have hcanonical := isCanonical_toDocument hsound
  have hsame := recordsSame_toDocument hnodes hrecords
  constructor
  · rintro rfl
    exact ⟨hcanonical, hsame⟩
  · rintro ⟨hcanonical', hsame'⟩
    exact hcanonical'.eq_of_recordsSame hcanonical (hsame'.trans hsame.symm)

/-- The sample that records a pair twice, with both of its tables turned round. -/
theorem ofDocument_canonical_reversed :
    ofDocument ⟨History.sampleDocument.nodes.reverse, History.sampleDocument.edges.reverse⟩ =
        .ok History.sampleGraph ∧
      ofDocument History.sampleGraph.toDocument = .ok History.sampleGraph ∧
      History.sampleGraph.toDocument.edges = [⟨⟨0, 0⟩, []⟩, ⟨⟨0, 1⟩, [.static, .virtual]⟩] ∧
      History.sampleGraph.toDocument.IsCanonical := by
  obtain ⟨hwritten, hread, hordered⟩ := ofDocument_canonical
  have hsample := History.ofDocument_sample
  exact ⟨(hordered _ _ (List.reverse_perm _).symm (List.reverse_perm _).symm _).1 hsample,
    hwritten _ (.ofDocument hsample), by decide +kernel,
    ((hread _ _ hsample _).1 rfl).1⟩

end MergedGraph

end Stitch
