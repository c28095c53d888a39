/-
The methods of a universe.

The index of a universe is dense (`isDense_build`): taking in a graph registers
its methods one after the other under the next free number, behind those that
were there (`exists_addMethods`), and a graph that is left out registers none.  So
the table of nodes and the index say the same: `map_uri_nodes` and `length_nodes`
compare them, and all nodes are internal.
-/
import Stitch.Merge.Universe
import Stitch.Proofs.CallGraph.SymbolIndex

namespace Stitch.Universe

theorem isDense_addMethods {index : SymbolIndex} (h : index.IsDense) (owner : Coordinate)
    (methods : List String) : (methods.foldl (addMethod owner) index).IsDense := by
  induction methods generalizing index with
  | nil => exact h
  | cons method methods ih => exact ih (h.insert _ _)

/-- What is registered comes behind what was there. -/
theorem exists_addMethods (owner : Coordinate) (methods : List String) (index : SymbolIndex) :
    ∃ more, (methods.foldl (addMethod owner) index).symbols = index.symbols ++ more ∧
      ∀ s ∈ more, s.localUri ∈ methods ∧ s.uri = MethodUri.qualify owner s.localUri := by
  induction methods generalizing index with
  | nil => exact ⟨[], (List.append_nil _).symm, by simp⟩
  | cons method methods ih =>
    obtain ⟨more, hmore, hregisters⟩ := ih (addMethod owner index method)
    have hlater : ∀ s ∈ more, s.localUri ∈ method :: methods ∧
        s.uri = MethodUri.qualify owner s.localUri := fun s hs =>
      ⟨List.mem_cons_of_mem _ (hregisters s hs).1, (hregisters s hs).2⟩
    rw [List.foldl_cons, hmore, addMethod, SymbolIndex.insert]
    split
    · exact ⟨more, rfl, hlater⟩
    · refine ⟨_ :: more, List.append_assoc .., fun s hs => ?_⟩
      rcases List.mem_cons.1 hs with rfl | hs
      · exact ⟨List.mem_cons_self, rfl⟩
      · exact hlater s hs

theorem isDense_add {u : Universe} (h : u.symbols.IsDense) (g : PartialGraph) :
    (u.add g).symbols.IsDense := by
  rw [add]
  split
  · exact h
  · exact isDense_addMethods h _ _

theorem isDense_build (base : PartialGraph) (dependencies : List PartialGraph) :
    (build base dependencies).symbols.IsDense := by
  have hfold : ∀ (gs : List PartialGraph) (u : Universe),
      u.symbols.IsDense → (gs.foldl add u).symbols.IsDense := by
    intro gs
    induction gs with
    | nil => exact fun _ h => h
    | cons g gs ih => exact fun u h => ih _ (isDense_add h g)
  exact hfold _ _ SymbolIndex.isDense_empty

theorem build_nil (base : PartialGraph) : build base [] = add {} base := by
  rw [build, ordered, List.mergeSort_nil]
  rfl

theorem contributors_alone (base : PartialGraph) :
    ∃ size, (build base []).contributors = [⟨base, 0, size⟩] := by
  rw [build_nil]
  exact ⟨_, rfl⟩

theorem build_singleton (base dependency : PartialGraph) :
    build base [dependency] = (add {} base).add dependency := by
  rw [build, ordered, List.mergeSort_singleton]
  rfl

theorem map_uri_nodes (u : Universe) :
    u.nodes.map (·.uri) = u.symbols.symbols.map (·.uri) := by
  rw [nodes, List.map_map]
  rfl

theorem length_nodes (u : Universe) : u.nodes.length = u.symbols.size := by
  rw [nodes, List.length_map, SymbolIndex.size]

/-- The number that a URI is registered under is that of the node with this URI. -/
theorem getElem?_nodes_of_lookup {u : Universe} (h : u.symbols.IsDense) {uri : String} {gid : Gid}
    (hlook : u.symbols.lookup uri = some gid) : ∃ n, u.nodes[gid]? = some n ∧ n.uri = uri := by
  obtain ⟨method, hmethod, rfl⟩ := h.lookup_eq_some_iff.1 hlook
  exact ⟨node method, by rw [nodes, List.getElem?_map, hmethod, Option.map_some], rfl⟩

theorem isInternal_of_mem_nodes {u : Universe} {n : Node} (h : n ∈ u.nodes) :
    n.isInternal = true := by
  obtain ⟨s, -, rfl⟩ := List.mem_map.1 h
  rfl

end Stitch.Universe
