/-
Calls to nodes that are not there.

A number names the node at the place that its low 32 bits give.  So a call is refused if there
is no node at one of its places (`Edge.placed`), and then nothing is recorded:

* `exists_error_of_isOutside` for one call, `exists_error_of_ofDocument` for a document that
  holds one, and `not_isOutside_of_run` for all that a graph has recorded in the end;
* **`outside_places_are_refused`** puts them together.  A number of 32 bits is its own place, so
  for such numbers the graph has no call to a node that it does not have.
* `wide_number_is_accepted`: a greater number is no place itself, and is accepted nevertheless
  where its low bits name a node.
-/
import Stitch.Proofs.CallGraph.Canonical

namespace Stitch

namespace Edge

/-- One of the numbers is not below a number of nodes. -/
def IsOutside (e : Edge) (count : Nat) : Prop := count ≤ e.source ∨ count ≤ e.target

end Edge

namespace MergedGraph

variable {g : MergedGraph} {e : Edge}

theorem node?_eq_none_iff {gid : Gid} : g.node? gid = none ↔ g.nodeCount ≤ place gid :=
  List.getElem?_eq_none_iff

theorem not_isOutside_of_isSome (hsource : (g.node? e.source).isSome)
    (htarget : (g.node? e.target).isSome) : ¬e.placed.IsOutside g.nodeCount := by
  rw [Option.isSome_iff_ne_none, ne_eq, node?_eq_none_iff] at hsource htarget
  rintro (h | h)
  · exact hsource h
  · exact htarget h

/-- The reasons for which a call between two numbers is refused. -/
def refusals (e : Edge) : List GraphError :=
  [.unknownNode e.source, .externalSource e.source, .unknownNode e.target]

/-- A call to or from a place without a node is refused. -/
theorem exists_error_of_isOutside (h : e.placed.IsOutside g.nodeCount) (kinds : List CallKind) :
    ∃ error ∈ refusals e, g.addCalls e kinds = .error error := by
  rw [addCalls]
  -- The target is looked up last, only for a source that is an internal node.
  cases hsource : g.node? e.source with
  | none => exact ⟨.unknownNode e.source, by simp [refusals], rfl⟩
  | some source =>
    cases hinternal : source.isInternal with
    | false => exact ⟨.externalSource e.source, by simp [refusals], by simp [hinternal]⟩
    | true =>
      have htarget : g.node? e.target = none := by
        by_contra hne
        exact not_isOutside_of_isSome (by simp [hsource]) (Option.isSome_iff_ne_none.2 hne) h
      exact ⟨.unknownNode e.target, by simp [refusals], by simp [hinternal, htarget]⟩

/-- The recorded calls of a sound graph lead from nodes to nodes, by their places. -/
theorem IsSound.not_isOutside (h : g.IsSound) (he : e ∈ g.edges) :
    ¬e.placed.IsOutside g.nodeCount := by
  obtain ⟨source, hsource, -⟩ := h.source e he
  obtain ⟨target, htarget⟩ := h.target e he
  exact not_isOutside_of_isSome (by simp [hsource]) (by simp [htarget])

/-- A document with a call to or from a place without a node is refused. -/
theorem exists_error_of_ofDocument {d : GraphDocument} {r : EdgeRecord} (hr : r ∈ d.edges)
    (h : r.edge.placed.IsOutside d.nodes.length) : ∃ error, ofDocument d = .error error := by
  cases hd : ofDocument d with
  | error error => exact ⟨error, rfl⟩
  | ok g =>
    -- A graph that was read has the document's nodes and calls, and it is sound.
    obtain ⟨hnodes, hrecords, hsound⟩ := ofDocument_eq_ok_iff.1 hd
    have hcount : d.nodes.length = g.nodeCount := by
      rw [← hnodes.length_eq, nodes_toDocument, List.length_map, List.length_zipIdx, nodeCount]
    have hedge : r.edge ∈ g.edges := (hrecords.mem_edges_iff _).2 ⟨r, hr, rfl⟩
    exact absurd (hcount ▸ h) (hsound.not_isOutside hedge)

end MergedGraph

/-! ### Histories -/

namespace History

variable {h start : History}

theorem Begins.isBuilt (hbegins : start.Begins) : start.graph.IsBuilt := by
  cases hbegins with
  | empty => exact .empty
  | document hd => exact .ofDocument hd

theorem isBuilt_add (hbuilt : h.graph.IsBuilt) (a : Addition) : (h.add a).graph.IsBuilt := by
  cases a with
  | node n => exact hbuilt.addNode n
  | call e kind =>
    rw [History.add]
    cases hcall : h.graph.addCall e kind with
    | error error => exact hbuilt
    | ok g => exact hbuilt.addCall hcall

theorem isBuilt_run (hbuilt : h.graph.IsBuilt) (additions : List Addition) :
    (h.run additions).graph.IsBuilt := by
  induction additions generalizing h with
  | nil => exact hbuilt
  | cons a additions ih => exact ih (isBuilt_add hbuilt a)

/-- Whatever was added, all recorded calls lead from nodes to nodes, by their places. -/
theorem not_isOutside_of_run (hbegins : start.Begins) (additions : List Addition) {e : Edge}
    (he : e ∈ (start.run additions).graph.edges) :
    ¬e.placed.IsOutside (start.run additions).graph.nodeCount :=
  (isBuilt_run hbegins.isBuilt additions).isSound.not_isOutside he

/-- **A call to or from a place without a node is refused**, added or in a document, so that
none is ever recorded.  Numbers of 32 bits are their own places. -/
theorem outside_places_are_refused (h : History) (e : Edge) (kind : CallKind) :
    (e.placed.IsOutside h.graph.nodeCount →
      (∃ error ∈ MergedGraph.refusals e, h.graph.addCall e kind = .error error) ∧
        h.add (.call e kind) = h) ∧
    (∀ d : GraphDocument, (∃ r ∈ d.edges, r.edge = e) → e.placed.IsOutside d.nodes.length →
      ∃ error, MergedGraph.ofDocument d = .error error) ∧
    (∀ start additions, Begins start → h = start.run additions → e ∈ h.graph.edges →
      ¬e.placed.IsOutside h.graph.nodeCount) ∧
    (e.IsNarrow → e.placed = e) := by
  refine ⟨fun houtside => ?_, ?_, ?_, Edge.placed_of_isNarrow⟩
  · obtain ⟨error, hmem, herror⟩ := MergedGraph.exists_error_of_isOutside houtside [kind]
    have hcall : h.graph.addCall e kind = .error error := herror
    exact ⟨⟨error, hmem, hcall⟩, by rw [History.add, hcall]⟩
  · rintro d ⟨r, hr, rfl⟩ houtside
    exact MergedGraph.exists_error_of_ofDocument hr houtside
  · rintro start additions hbegins rfl he
    exact not_isOutside_of_run hbegins additions he

/-- Number nine is no node of the sample, by whatever number it is named. -/
theorem outside_places_are_refused_sample :
    let h : History := ⟨sampleGraph, sampleDocument.edges⟩
    (h.add (.call ⟨0, 9⟩ .static) = h ∧ h.add (.call ⟨4294967305, 0⟩ .static) = h) ∧
      ∃ error, MergedGraph.ofDocument { sampleDocument with edges := [⟨⟨9, 0⟩, []⟩] } =
        .error error := by
  intro h
  obtain ⟨hcall, -⟩ := outside_places_are_refused h ⟨0, 9⟩ .static
  obtain ⟨hwide, -⟩ := outside_places_are_refused h ⟨4294967305, 0⟩ .static
  obtain ⟨-, hdocument, -⟩ := outside_places_are_refused h ⟨9, 0⟩ .static
  refine ⟨⟨(hcall ?_).2, (hwide ?_).2⟩, hdocument _ ⟨_, List.mem_cons_self, rfl⟩ ?_⟩
  · exact .inr (by decide)
  · exact .inl (by decide)
  · exact .inl (by decide)

/-- A number that no node of the graph has, one above the last number of 32 bits, is taken for
the node 0, by a call and by a document. -/
theorem wide_number_is_accepted :
    let n : Node := ⟨"fasten://mvn!org:app$1/p/A.f()V", "/p/A", true⟩
    let g := MergedGraph.addNode {} n
    (⟨4294967296, 0⟩ : Edge).IsOutside g.nodeCount ∧
      (∃ g', g.addCall ⟨4294967296, 0⟩ .static = .ok g' ∧ ⟨4294967296, 0⟩ ∈ g'.edges) ∧
      ∃ g', MergedGraph.ofDocument ⟨[⟨0, n⟩], [⟨⟨4294967296, 0⟩, [.static]⟩]⟩ = .ok g' ∧
        ⟨4294967296, 0⟩ ∈ g'.edges := by
  intro n g
  refine ⟨.inl (by decide), ⟨_, rfl, by decide⟩, ?_⟩
  rw [MergedGraph.ofDocument, List.mergeSort_singleton]
  exact ⟨_, rfl, by decide⟩

end History

end Stitch
