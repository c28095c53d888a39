/-
The history of a merged graph.

A graph begins empty or with a document, and is added to: nodes, and calls, which are
refused where they do not fit.  Its history (`History`) keeps beside the graph the records
of all calls that were accepted, those of the document included.

* The table of calls has the pairs that were recorded, and for each of them the kinds that
  were recorded, no more and no fewer (`Records`).  One accepted record keeps that
  (`Records.addCalls`), so a document does and any run of additions (`Kept.add`).
* Every call is kept as a link too, and from the links come the neighbours of a node and
  the count of edges.  Links and table are in step in every graph that the operations build
  (`IsSound.linked`).  Links are between places, and a number below 2³² is its place, so
  that where only such numbers are named (`Edge.IsNarrow`) the links are the pairs of the
  table (`links_eq_edges`), and a pair is found from either end
  (`hasEdge_iff_mem_successors`, `hasEdge_iff_mem_predecessors`).
* A graph does not say in which order its links were made.  Each accepted record makes its
  link, unless it is there (`linksMade`).  These are the links of the graph, each once
  (`Records.linksMade_perm`), so that they can be counted and searched for neighbours as
  they were made (`reads_of_perm`).

The main statement is **`isInStep_of_run`**.
-/
import Stitch.Proofs.CallGraph.Document
import Stitch.Proofs.Sorting

namespace Stitch

/-- Both numbers of the pair fit in 32 bits. -/
def Edge.IsNarrow (e : Edge) : Prop := e.source < 4294967296 ∧ e.target < 4294967296

theorem MergedGraph.place_of_lt {gid : Gid} (h : gid < 4294967296) : place gid = gid :=
  Nat.mod_eq_of_lt h

theorem Edge.placed_of_isNarrow {e : Edge} (h : e.IsNarrow) : e.placed = e := by
  rw [placed, MergedGraph.place_of_lt h.1, MergedGraph.place_of_lt h.2]

/-- What can be added to a graph. -/
inductive Addition where
  | node (n : Node)
  | call (e : Edge) (kind : CallKind)

/-- Only numbers of 32 bits are named. -/
def Addition.IsNarrow : Addition → Prop
  | .node _ => True
  | .call e _ => e.IsNarrow

/-- The node that is added, if one is. -/
def Addition.node? : Addition → Option Node
  | .node n => some n
  | .call _ _ => none

/-- A graph and the records of the calls that were accepted in it, the oldest first. -/
structure History where
  graph : MergedGraph
  recorded : List EdgeRecord

namespace History

/-- How a history begins: empty, or with a document and all that it records. -/
inductive Begins : History → Prop
  | empty : Begins ⟨{}, []⟩
  | document {d : GraphDocument} {g : MergedGraph} (h : MergedGraph.ofDocument d = .ok g) :
    Begins ⟨g, d.edges⟩

/-- The history after one more addition.  A call that is refused leaves all as it is. -/
def add (h : History) : Addition → History
  | .node n => ⟨h.graph.addNode n, h.recorded⟩
  | .call e kind =>
    match h.graph.addCall e kind with
    | .ok g => ⟨g, h.recorded ++ [⟨e, [kind]⟩]⟩
    | .error _ => h

/-- The history after further additions. -/
def run (h : History) (additions : List Addition) : History := additions.foldl add h

end History

namespace MergedGraph

variable {g g' : MergedGraph} {e : Edge} {kinds : List CallKind} {recorded : List EdgeRecord}

/-! ### Recording -/

/-- The table of calls has the pairs and the kinds that were recorded. -/
structure Records (g : MergedGraph) (recorded : List EdgeRecord) : Prop where
  mem_edges_iff : ∀ e, e ∈ g.edges ↔ ∃ r ∈ recorded, r.edge = e
  mem_kinds_iff : ∀ e k, k ∈ g.kindsBetween e ↔ ∃ r ∈ recorded, r.edge = e ∧ k ∈ r.kinds

theorem records_nodes (nodes : List Node) : Records { nodes } [] where
  mem_edges_iff _ := iff_of_false List.not_mem_nil (by simp)
  mem_kinds_iff _ _ := iff_of_false List.not_mem_nil (by simp)

theorem Records.addCalls (h : Records g recorded) (hcalls : g.addCalls e kinds = .ok g') :
    Records g' (recorded ++ [⟨e, kinds⟩]) := by
  obtain ⟨-, -, rfl⟩ := addCalls_eq_ok_iff.1 hcalls
  refine ⟨fun e' => ?_, fun e' k => ?_⟩
  · rw [mem_edges_withCalls, h.mem_edges_iff]
    simp [or_and_right, exists_or, or_comm, eq_comm]
  · rw [mem_kindsBetween_withCalls, h.mem_kinds_iff]
    simp [or_and_right, exists_or, eq_comm]

/-- The records of a document are all accepted. -/
theorem records_foldlM {before records : List EdgeRecord} (h : Records g before)
    (hfold : records.foldlM (fun g r => g.addCalls r.edge r.kinds) g = .ok g') :
    Records g' (before ++ records) := by
  induction records generalizing g before with
  | nil =>
    cases hfold
    rwa [List.append_nil]
  | cons r records ih =>
    rw [List.foldlM_cons] at hfold
    obtain ⟨g₁, hfirst, hrest⟩ := exists_of_bind_eq_ok hfold
    rw [List.append_cons]
    exact ih (h.addCalls hfirst) hrest

theorem records_of_ofDocument {d : GraphDocument} (h : ofDocument d = .ok g) :
    Records g d.edges := by
  obtain ⟨nodes, -, hfold⟩ := exists_of_bind_eq_ok h
  exact records_foldlM (records_nodes nodes) hfold

/-! ### Neighbours -/

theorem pairwise_lt_distinct_mergeSort (gids : List Gid) :
    (distinct gids.mergeSort).Pairwise (· < ·) := by
  have hsorted : gids.mergeSort.Pairwise (· ≤ ·) := by
    simpa using @List.pairwise_mergeSort Nat (fun a b => decide (a ≤ b))
      (fun a b c => by simpa using Nat.le_trans) (fun a b => by simpa using Nat.le_total a b) gids
  have hnodup := List.nodup_iff_pairwise_ne.1 (nodup_distinct gids.mergeSort)
  exact ((hsorted.sublist (sublist_distinctBy _ _)).and hnodup).imp
    fun h => Nat.lt_of_le_of_ne h.1 h.2

theorem pairwise_lt_successors (g : MergedGraph) (gid : Gid) :
    (g.successors gid).Pairwise (· < ·) := by
  rw [successors]
  split
  · exact List.Pairwise.nil
  · exact pairwise_lt_distinct_mergeSort _

theorem pairwise_lt_predecessors (g : MergedGraph) (gid : Gid) :
    (g.predecessors gid).Pairwise (· < ·) := by
  rw [predecessors]
  split
  · exact List.Pairwise.nil
  · exact pairwise_lt_distinct_mergeSort _

theorem hasEdge_iff : g.hasEdge e ↔ e ∈ g.edges := SortedMap.mem_keys_iff.symm

/-! ### Links as they are made -/

/-- The links of some records, made one after the other, the newest first.  A link that is
there is not made again. -/
def linksMade (recorded : List EdgeRecord) : List Edge :=
  recorded.foldl (fun made r => made.insert r.edge.placed) []

theorem linksMade_concat (recorded : List EdgeRecord) (r : EdgeRecord) :
    linksMade (recorded ++ [r]) = (linksMade recorded).insert r.edge.placed :=
  List.foldl_concat ..

theorem nodup_linksMade (recorded : List EdgeRecord) : (linksMade recorded).Nodup := by
  induction recorded using List.reverseRecOn with
  | nil => exact List.nodup_nil
  | append_singleton recorded r ih =>
    rw [linksMade_concat]
    exact ih.insert

theorem mem_linksMade_iff {l : Edge} :
    l ∈ linksMade recorded ↔ ∃ r ∈ recorded, r.edge.placed = l := by
  induction recorded using List.reverseRecOn with
  | nil => simp [linksMade]
  | append_singleton recorded r ih =>
    rw [linksMade_concat, List.mem_insert_iff, ih]
    simp [or_and_right, exists_or, or_comm, eq_comm]

/-- The links of a graph are those that its records make, in another order. -/
theorem Records.linksMade_perm (h : Records g recorded) (hlinked : g.IsLinked) :
    (linksMade recorded).Perm g.links.keys := by
  refine (List.perm_ext_iff_of_nodup (nodup_linksMade recorded) g.links.nodup_keys).2 fun l => ?_
  rw [mem_linksMade_iff, hlinked l]
  constructor
  · rintro ⟨r, hr, hplaced⟩
    exact ⟨r.edge, (h.mem_edges_iff _).2 ⟨r, hr, rfl⟩, hplaced⟩
  · rintro ⟨e, he, hplaced⟩
    obtain ⟨r, hr, rfl⟩ := (h.mem_edges_iff e).1 he
    exact ⟨r, hr, hplaced⟩

/-- The answers of a graph that come from links are those of a list of links. -/
structure Reads (g : MergedGraph) (links : List Edge) : Prop where
  edgeCount : g.edgeCount = links.length
  successors : ∀ gid n, g.node? gid = some n → g.successors gid =
    distinct ((links.filter fun l => l.source == place gid).map (·.target)).mergeSort
  predecessors : ∀ gid n, g.node? gid = some n → g.predecessors gid =
    distinct ((links.filter fun l => l.target == place gid).map (·.source)).mergeSort

theorem mergeSort_gids_eq_of_perm {gids gids' : List Gid} (h : gids.Perm gids') :
    gids.mergeSort = gids'.mergeSort :=
  mergeSort_eq_of_perm (by simpa using fun _ _ _ _ _ _ => Nat.le_trans)
    (fun a b => by simpa using Nat.le_total a b)
    (by simpa using fun _ _ _ _ => Nat.le_antisymm) h

/-- Neighbours are sorted, so that the order of the links is not seen in them. -/
theorem reads_of_perm {links : List Edge} (h : links.Perm g.links.keys) : g.Reads links where
  edgeCount := by rw [edgeCount_eq_length, h.length_eq]
  successors gid n hn := by
    rw [MergedGraph.successors, hn, outgoing,
      ← mergeSort_gids_eq_of_perm ((h.filter _).map Edge.target)]
    rfl
  predecessors gid n hn := by
    rw [MergedGraph.predecessors, hn, incoming,
      ← mergeSort_gids_eq_of_perm ((h.filter _).map Edge.source)]
    rfl

section Narrow

variable (hnarrow : ∀ e ∈ g.edges, e.IsNarrow) (hsound : g.IsSound)
include hnarrow hsound

theorem links_eq_edges : g.links.keys = g.edges :=
  hsound.linked.keys_eq_edges fun e he => Edge.placed_of_isNarrow (hnarrow e he)

theorem hasEdge_iff_mem_successors {s t : Gid} (hs : s < 4294967296) :
    g.hasEdge ⟨s, t⟩ ↔ t ∈ g.successors s := by
  rw [hasEdge_iff, mem_successors_iff, place_of_lt hs, links_eq_edges hnarrow hsound]
  refine (and_iff_right_of_imp fun he => ?_).symm
  obtain ⟨n, hn, -⟩ := hsound.source _ he
  exact Option.isSome_of_eq_some hn

theorem hasEdge_iff_mem_predecessors {s t : Gid} (ht : t < 4294967296) :
    g.hasEdge ⟨s, t⟩ ↔ s ∈ g.predecessors t := by
  rw [hasEdge_iff, mem_predecessors_iff, place_of_lt ht, links_eq_edges hnarrow hsound]
  refine (and_iff_right_of_imp fun he => ?_).symm
  obtain ⟨n, hn⟩ := hsound.target _ he
  exact Option.isSome_of_eq_some hn

/-- The ends of a pair are nodes, found at their numbers, and the first is internal. -/
theorem ends_of_mem_edges (he : e ∈ g.edges) :
    (∃ n, g.nodes[e.source]? = some n ∧ n.isInternal) ∧ e.target < g.nodeCount := by
  obtain ⟨n, hn, hinternal⟩ := hsound.source e he
  obtain ⟨m, hm⟩ := hsound.target e he
  rw [node?, place_of_lt (hnarrow e he).1] at hn
  rw [node?, place_of_lt (hnarrow e he).2] at hm
  exact ⟨⟨n, hn, hinternal⟩, (List.getElem?_eq_some_iff.1 hm).1⟩

end Narrow

end MergedGraph

/-! ### Runs -/

namespace History

variable {h : History} {a : Addition}

/-- What additions keep: the graph is one that the operations build, its table is that of
the records, and these name numbers of 32 bits. -/
structure Kept (h : History) : Prop where
  built : h.graph.IsBuilt
  records : h.graph.Records h.recorded
  narrow : ∀ r ∈ h.recorded, r.edge.IsNarrow

theorem Begins.kept (hbegins : h.Begins) (hnarrow : ∀ r ∈ h.recorded, r.edge.IsNarrow) :
    h.Kept := by
  cases hbegins with
  | empty => exact ⟨.empty, MergedGraph.records_nodes [], hnarrow⟩
  | document hd => exact ⟨.ofDocument hd, MergedGraph.records_of_ofDocument hd, hnarrow⟩

theorem Kept.add (hkept : h.Kept) (ha : a.IsNarrow) : (h.add a).Kept := by
  cases a with
  | node n => exact ⟨hkept.built.addNode n, ⟨hkept.records.1, hkept.records.2⟩, hkept.narrow⟩
  | call e kind =>
    rw [History.add]
    cases hcall : h.graph.addCall e kind with
    | error error => exact hkept
    | ok g =>
      refine ⟨hkept.built.addCall hcall, hkept.records.addCalls hcall, fun r hr => ?_⟩
      rcases List.mem_append.1 hr with hr | hr
      · exact hkept.narrow r hr
      · rw [List.mem_singleton.1 hr]
        exact ha

theorem Kept.run (hkept : h.Kept) {additions : List Addition}
    (hnarrow : ∀ a ∈ additions, a.IsNarrow) : (h.run additions).Kept := by
  induction additions generalizing h with
  | nil => exact hkept
  | cons a additions ih =>
    exact ih (hkept.add (hnarrow a List.mem_cons_self))
      fun a ha => hnarrow a (List.mem_cons_of_mem _ ha)

/-- Nodes are added behind those that were there, and calls add none. -/
theorem nodes_run (h : History) (additions : List Addition) :
    (h.run additions).graph.nodes = h.graph.nodes ++ additions.filterMap Addition.node? := by
  induction additions generalizing h with
  | nil => exact (List.append_nil _).symm
  | cons a additions ih =>
    refine (ih (h.add a)).trans ?_
    cases a with
    | node n => exact List.append_assoc ..
    | call e kind =>
      have hnodes : (h.add (.call e kind)).graph.nodes = h.graph.nodes := by
        rw [History.add]
        cases hcall : h.graph.addCall e kind with
        | error error => rfl
        | ok g =>
          rw [MergedGraph.eq_withCall_of_addCall hcall]
          rfl
      rw [hnodes]
      rfl

/-- The two sides of a graph, its table of calls and its links, say what its history says. -/
structure IsInStep (h : History) : Prop where
  gids : h.graph.numbered.map (·.1) = List.range h.graph.nodeCount
  edges_ascending : h.graph.edges.Pairwise fun a b => compare a b = .lt
  mem_edges_iff : ∀ e, e ∈ h.graph.edges ↔ ∃ r ∈ h.recorded, r.edge = e
  /-- The links are the pairs of the table. -/
  links : h.graph.links.keys = h.graph.edges
  /-- Made one after the other, they are the pairs too, each made once. -/
  made : (MergedGraph.linksMade h.recorded).Perm h.graph.edges
  reads : h.graph.Reads (MergedGraph.linksMade h.recorded)
  edgeCount : h.graph.edgeCount = h.graph.edges.length
  ends : ∀ e ∈ h.graph.edges,
    (∃ n, h.graph.nodes[e.source]? = some n ∧ n.isInternal) ∧ e.target < h.graph.nodeCount
  kinds : ∀ e ∈ h.graph.edges, ∃ kinds, h.graph.kinds? e = some kinds ∧
    CallKind.normalized kinds = kinds ∧
    ∀ k, k ∈ kinds ↔ ∃ r ∈ h.recorded, r.edge = e ∧ k ∈ r.kinds
  successors : ∀ s t, s < 4294967296 → (h.graph.hasEdge ⟨s, t⟩ ↔ t ∈ h.graph.successors s)
  predecessors : ∀ s t, t < 4294967296 → (h.graph.hasEdge ⟨s, t⟩ ↔ s ∈ h.graph.predecessors t)
  neighbours_ascending : ∀ gid, (h.graph.successors gid).Pairwise (· < ·) ∧
    (h.graph.predecessors gid).Pairwise (· < ·)
  accepted_iff : ∀ e kind, (∃ g, h.graph.addCall e kind = .ok g) ↔
    (∃ n, h.graph.node? e.source = some n ∧ n.isInternal) ∧ ∃ n, h.graph.node? e.target = some n
  refused : ∀ e kind error, h.graph.addCall e kind = .error error → h.add (.call e kind) = h

theorem Kept.isInStep (hkept : h.Kept) : h.IsInStep := by
  have hsound := hkept.built.isSound
  have hnarrow : ∀ e ∈ h.graph.edges, e.IsNarrow := by
    intro e he
    obtain ⟨r, hr, rfl⟩ := (hkept.records.mem_edges_iff e).1 he
    exact hkept.narrow r hr
  have hlinks := MergedGraph.links_eq_edges hnarrow hsound
  have hmade := hkept.records.linksMade_perm hsound.linked
  exact {
    gids := by
      rw [MergedGraph.numbered, List.map_map, List.range_eq_range']
      exact List.zipIdx_map_snd ..
    edges_ascending := List.pairwise_map.2 h.graph.calls.ordered
    mem_edges_iff := hkept.records.mem_edges_iff
    links := hlinks
    made := hlinks ▸ hmade
    reads := MergedGraph.reads_of_perm hmade
    edgeCount := hsound.linked.edgeCount_eq fun e he => Edge.placed_of_isNarrow (hnarrow e he)
    ends := fun e he => MergedGraph.ends_of_mem_edges hnarrow hsound he
    kinds := by
      intro e he
      obtain ⟨kinds, hkinds⟩ := Option.isSome_iff_exists.1 (SortedMap.mem_keys_iff.1 he)
      refine ⟨kinds, hkinds, hsound.kinds _ (SortedMap.get?_eq_some_iff.1 hkinds), fun k => ?_⟩
      rw [← hkept.records.mem_kinds_iff, MergedGraph.kindsBetween, MergedGraph.kinds?, hkinds,
        Option.getD_some]
    successors := fun s t hs => MergedGraph.hasEdge_iff_mem_successors hnarrow hsound hs
    predecessors := fun s t ht => MergedGraph.hasEdge_iff_mem_predecessors hnarrow hsound ht
    neighbours_ascending := fun gid =>
      ⟨h.graph.pairwise_lt_successors gid, h.graph.pairwise_lt_predecessors gid⟩
    accepted_iff := fun e kind =>
      ⟨fun ⟨g, hg⟩ => ⟨(MergedGraph.addCalls_eq_ok_iff.1 hg).1,
        (MergedGraph.addCalls_eq_ok_iff.1 hg).2.1⟩,
      fun ⟨hsource, htarget⟩ => ⟨_, MergedGraph.addCalls_eq_ok_iff.2 ⟨hsource, htarget, rfl⟩⟩⟩
    refused := fun e kind error herror => by rw [History.add, herror] }

/-- **A graph is in step with its history.**  However it began and whatever was added to it,
refused calls included, as long as only numbers of 32 bits are named: its nodes are those it
began with and those that were added, in order; its pairs and kinds are those that were
recorded, and no others; the links that the records made are its pairs, each once; and its
neighbours, which it reads off the links, are those of its pairs. -/
theorem isInStep_of_run {start : History} (hbegins : start.Begins)
    (hrecorded : ∀ r ∈ start.recorded, r.edge.IsNarrow) {additions : List Addition}
    (hadditions : ∀ a ∈ additions, a.IsNarrow) :
    (start.run additions).IsInStep ∧ (start.run additions).graph.nodes =
      start.graph.nodes ++ additions.filterMap Addition.node? :=
  ⟨((hbegins.kept hrecorded).run hadditions).isInStep, nodes_run start additions⟩

/-- A document that records a pair twice. -/
def sampleDocument : GraphDocument where
  nodes := [⟨0, "fasten://mvn!org:app$1/p/A.f()V", "/p/A", true⟩, ⟨1, "/q/B.g()V", "/q/B", false⟩]
  edges := [⟨⟨0, 1⟩, [.virtual]⟩, ⟨⟨0, 0⟩, []⟩, ⟨⟨0, 1⟩, [.static]⟩]

def sampleGraph : MergedGraph where
  nodes := [⟨"fasten://mvn!org:app$1/p/A.f()V", "/p/A", true⟩, ⟨"/q/B.g()V", "/q/B", false⟩]
  links := .ofList [(⟨0, 0⟩, ()), (⟨0, 1⟩, ())]
  calls := .ofList [(⟨0, 0⟩, []), (⟨0, 1⟩, [.static, .virtual])]

/-- A call from the placeholder and one to a missing node are refused between others. -/
def sampleAdditions : List Addition :=
  [.call ⟨1, 0⟩ .static, .node ⟨"fasten://mvn!org:app$1/p/A.h()V", "/p/A", true⟩,
    .call ⟨2, 0⟩ .special, .call ⟨2, 9⟩ .static, .call ⟨0, 1⟩ .virtual]

theorem ofDocument_sample : MergedGraph.ofDocument sampleDocument = .ok sampleGraph := by
  have hsorted : sampleDocument.nodes.mergeSort (fun a b => a.gid ≤ b.gid) =
      sampleDocument.nodes := List.mergeSort_of_pairwise (by decide +kernel)
  rw [MergedGraph.ofDocument, hsorted]
  decide +kernel

theorem isInStep_of_run_sample :
    let h := History.run ⟨sampleGraph, sampleDocument.edges⟩ sampleAdditions
    h.IsInStep ∧ h.graph.edges = [⟨0, 0⟩, ⟨0, 1⟩, ⟨2, 0⟩] ∧
      h.graph.kinds? ⟨0, 1⟩ = some [.static, .virtual] ∧ 2 ∈ h.graph.predecessors 0 := by
  have hrecorded : ∀ r ∈ sampleDocument.edges, r.edge.IsNarrow := by
    unfold Edge.IsNarrow
    decide
  have hadditions : ∀ a ∈ sampleAdditions, a.IsNarrow := by
    simp [sampleAdditions, Addition.IsNarrow, Edge.IsNarrow]
  obtain ⟨h, -⟩ := isInStep_of_run (.document ofDocument_sample) hrecorded hadditions
  exact ⟨h, by decide +kernel, by decide +kernel,
    (h.predecessors 2 0 (by decide)).1 (by decide +kernel)⟩

end History

end Stitch
