/-
How a universe numbers its contributors and their methods.

* Graphs of different coordinates all become contributors, in the order in which they
  are handed over (`foldl_add_of_nodup`).  So the contributors are the base and, in
  ascending order, one graph of every other coordinate (`map_graph_build`).
* `FollowFrom` says that blocks lie one behind the other, with no gap between them.
  Taking a graph in adds a block at the end (`followFrom_add`), and then the
  numbers in the blocks, in order, are all numbers (`flatMap_gids`).
* A method is made from a local URI by the contributor in whose block it is
  (`IsMadeFrom`), and that is the local URI that it is registered with
  (`isMadeFrom_iff`).  The index gives the least number of the methods that are made
  from one (`lookupLocal_eq_some_iff_isLeast`).

**`isNumbered_build`** puts these together.
-/
import Mathlib.Order.Bounds.Basic
import Stitch.Proofs.Merge.Blocks

namespace Stitch

/-- The numbers of a contributor's block, in order. -/
def Contributor.gids (c : Contributor) : List Gid := List.range' c.firstGid c.size

namespace SymbolIndex

variable {index : SymbolIndex}

/-- A local URI is looked up as the first place of a method that has it. -/
theorem IsDense.lookupLocal_eq_some_iff (h : index.IsDense) {localUri : String} {gid : Gid} :
    index.lookupLocal localUri = some gid ↔
      (∃ s, index.symbols[gid]? = some s ∧ s.localUri = localUri) ∧
        ∀ i s, index.symbols[i]? = some s → s.localUri = localUri → gid ≤ i := by
  rw [lookupLocal, Option.map_eq_some_iff]
  constructor
  · rintro ⟨s, hfind, rfl⟩
    obtain ⟨hlocal, i, hi, rfl, hbefore⟩ := List.find?_eq_some_iff_getElem.1 hfind
    have hplace : index.symbols[i].gid = i :=
      h.gid_eq i _ (List.getElem?_eq_getElem hi)
    rw [hplace]
    refine ⟨⟨_, List.getElem?_eq_getElem hi, eq_of_beq hlocal⟩, fun j s hj hs => ?_⟩
    by_contra hlt
    obtain ⟨hlength, rfl⟩ := List.getElem?_eq_some_iff.1 hj
    have hnot := hbefore j (Nat.lt_of_not_le hlt)
    simp [hs] at hnot
  · rintro ⟨⟨s, hs, hlocal⟩, hleast⟩
    obtain ⟨hgid, rfl⟩ := List.getElem?_eq_some_iff.1 hs
    refine ⟨_, List.find?_eq_some_iff_getElem.2 ⟨by simpa using hlocal, gid, hgid, rfl,
      fun j hj => ?_⟩, h.gid_eq gid _ hs⟩
    have hne : index.symbols[j].localUri ≠ localUri := fun heq =>
      Nat.not_le_of_lt hj (hleast j _ (List.getElem?_eq_getElem (Nat.lt_trans hj hgid)) heq)
    simpa using hne

end SymbolIndex

namespace Universe

variable {u : Universe} {gs : List PartialGraph} {base : PartialGraph}
  {dependencies : List PartialGraph}

/-! ### Contributors -/

theorem coordinates_eq (u : Universe) :
    u.coordinates = (u.contributors.map (·.graph)).map (·.coordinate) := by
  rw [List.map_map]
  rfl

/-- Graphs of different coordinates all take part, and none is left out. -/
theorem foldl_add_of_nodup (h : (u.coordinates ++ gs.map (·.coordinate)).Nodup) :
    (gs.foldl add u).contributors.map (·.graph) = u.contributors.map (·.graph) ++ gs ∧
      (gs.foldl add u).skipped = u.skipped := by
  induction gs generalizing u with
  | nil => simp
  | cons g gs ih =>
    rw [List.map_cons, List.append_cons] at h
    have hnew : g.coordinate ∉ u.coordinates := by
      have hfront := (List.nodup_append.1 h).1
      exact fun hmem => (List.nodup_append.1 hfront).2.2 _ hmem _ (List.mem_singleton_self _) rfl
    obtain ⟨block, symbols, hgraph, hadd⟩ := add_of_not_mem hnew
    have hcoordinates : (u.add g).coordinates = u.coordinates ++ [g.coordinate] := by
      rw [hadd, coordinates, List.map_append, ← hgraph]
      rfl
    obtain ⟨hgraphs, hskipped⟩ := ih (u := u.add g) (by rwa [hcoordinates])
    rw [List.foldl_cons, hgraphs, hskipped, hadd]
    simp [hgraph]

theorem perm_ordered (base : PartialGraph) (dependencies : List PartialGraph) :
    (base :: ordered dependencies).Perm (base :: dependencies) :=
  (List.mergeSort_perm _ _).cons base

/-- The contributors are the base and the dependencies that take part, in order. -/
theorem map_graph_build (base : PartialGraph) (dependencies : List PartialGraph) :
    (build base dependencies).contributors.map (·.graph) = base :: others base dependencies := by
  have halike := isAlike_foldl_participants {} (base :: ordered dependencies)
  have hnodup : ((base :: others base dependencies).map (·.coordinate)).Nodup :=
    nodup_map_distinctBy PartialGraph.coordinate (base :: ordered dependencies)
  rw [build, halike.contributors_eq, participants_eq,
    (foldl_add_of_nodup (by simpa [coordinates] using hnodup)).1]
  rfl

/-- The dependencies that take part come in strictly ascending order. -/
theorem pairwise_lt_others (h : IsOrderedInput dependencies) :
    ((others base dependencies).map (·.coordinate)).Pairwise fun a b => a.compare b = .lt := by
  have hnodup : ((base :: others base dependencies).map (·.coordinate)).Nodup :=
    nodup_map_distinctBy PartialGraph.coordinate (base :: ordered dependencies)
  rw [List.map_cons, List.nodup_cons, List.nodup_iff_pairwise_ne, List.pairwise_map] at hnodup
  exact List.pairwise_map.2 (((pairwise_others h).and hnodup.2).imp fun hab =>
    Coordinate.compare_eq_lt_of_atMost hab.1 hab.2)

/-! ### Blocks -/

/-- The blocks lie one behind the other between two numbers: each begins where the one
before it ends. -/
def FollowFrom (start stop : Nat) : List Contributor → Prop
  | [] => start = stop
  | c :: cs => c.firstGid = start ∧ FollowFrom (start + c.size) stop cs

theorem FollowFrom.concat {start stop stop' : Nat} {cs : List Contributor} {c : Contributor}
    (h : FollowFrom start stop cs) (hc : c.firstGid = stop) (hstop : stop + c.size = stop') :
    FollowFrom start stop' (cs ++ [c]) := by
  induction cs generalizing start with
  | nil =>
    obtain rfl : start = stop := h
    exact ⟨hc, hstop⟩
  | cons first cs ih => exact ⟨h.1, ih h.2⟩

/-- The numbers in the blocks are all numbers between the two, in order. -/
theorem FollowFrom.flatMap_gids {start stop : Nat} {cs : List Contributor}
    (h : FollowFrom start stop cs) :
    start ≤ stop ∧ cs.flatMap (·.gids) = List.range' start (stop - start) := by
  induction cs generalizing start with
  | nil =>
    obtain rfl : start = stop := h
    simp
  | cons c cs ih =>
    obtain ⟨hle, hrest⟩ := ih h.2
    refine ⟨by omega, ?_⟩
    rw [List.flatMap_cons, hrest, Contributor.gids, h.1, List.range'_append_1]
    congr 1
    omega

theorem followFrom_add (h : FollowFrom 0 u.symbols.size u.contributors) (g : PartialGraph) :
    FollowFrom 0 (u.add g).symbols.size (u.add g).contributors := by
  rw [add]
  split
  · exact h
  · have hgrows := (prefix_addMethods g.coordinate g.internalNodes u.symbols).length_le
    exact h.concat rfl (Nat.add_sub_cancel' hgrows)

/-- Every block begins with the first free number, and the numbers go on behind it. -/
theorem followFrom_build (base : PartialGraph) (dependencies : List PartialGraph) :
    FollowFrom 0 (build base dependencies).symbols.size (build base dependencies).contributors :=
  List.foldlRecOn (motive := fun u : Universe => FollowFrom 0 u.symbols.size u.contributors) _ add
    (rfl : FollowFrom 0 0 []) fun _ hu g _ => followFrom_add hu g

/-! ### Methods -/

/-- The node of a number is made from a local URI: the contributor in whose block it is has a
method with this local URI, and the node has its global URI. -/
def IsMadeFrom (u : Universe) (localUri : String) (gid : Gid) : Prop :=
  ∃ c ∈ u.contributors, c.Owns gid ∧ localUri ∈ c.graph.internalNodes ∧
    ∃ n, u.nodes[gid]? = some n ∧ n.uri = MethodUri.qualify c.coordinate localUri

theorem IsBlocked.eq_of_owns (h : IsBlocked u) {c d : Contributor} {gid : Gid}
    (hc : c ∈ u.contributors) (hd : d ∈ u.contributors) (hcgid : c.Owns gid)
    (hdgid : d.Owns gid) : c = d := by
  obtain ⟨i, hi⟩ := List.mem_iff_getElem?.1 hc
  obtain ⟨j, hj⟩ := List.mem_iff_getElem?.1 hd
  rw [h.block_unique hi hj hcgid hdgid, hj] at hi
  exact (Option.some.inj hi).symm

/-- A node is made from the local URI that its method is registered with, and from no other:
the global URIs of one contributor tell its local URIs apart. -/
theorem isMadeFrom_iff (h : IsBlocked u) {localUri : String} {gid : Gid} :
    u.IsMadeFrom localUri gid ↔
      ∃ s, u.symbols.symbols[gid]? = some s ∧ s.localUri = localUri := by
  have hnode {s : Symbol} (hs : u.symbols.symbols[gid]? = some s) :
      u.nodes[gid]? = some (node s) := by
    rw [nodes, List.getElem?_map, hs, Option.map_some]
  constructor
  · rintro ⟨c, hc, howns, -, n, hn, huri⟩
    obtain ⟨s, hs, rfl⟩ := Option.map_eq_some_iff.1 ((List.getElem?_map ..).symm.trans hn)
    obtain ⟨d, hd, hdowns, -, hregistered⟩ := h.exists_owner gid s hs
    obtain rfl := h.eq_of_owns hc hd howns hdowns
    exact ⟨s, hs, qualify_inj.1 (hregistered.symm.trans huri)⟩
  · rintro ⟨s, hs, rfl⟩
    obtain ⟨c, hc, howns, hmethod, hregistered⟩ := h.exists_owner gid s hs
    exact ⟨c, hc, howns, hmethod, node s, hnode hs, hregistered⟩

theorem lookupLocal_eq_some_iff_isLeast (h : IsBlocked u) {localUri : String} {gid : Gid} :
    u.symbols.lookupLocal localUri = some gid ↔
      IsLeast {gid | u.IsMadeFrom localUri gid} gid := by
  rw [h.isDense.lookupLocal_eq_some_iff, ← isMadeFrom_iff h, IsLeast, mem_lowerBounds]
  refine and_congr_right' (forall_congr' fun i => ?_)
  rw [Set.mem_ofPred_eq, isMadeFrom_iff h]
  exact ⟨fun hleast ⟨s, hs, hlocal⟩ => hleast s hs hlocal,
    fun hleast s hs hlocal => hleast ⟨s, hs, hlocal⟩⟩

/-! ### The whole universe -/

/-- The contributors, their blocks and the methods of a universe agree with each other. -/
structure IsNumbered (base : PartialGraph) (dependencies : List PartialGraph) (u : Universe) :
    Prop where
  /-- Every coordinate takes part, and only once. -/
  mem_coordinates : ∀ c, c ∈ u.coordinates ↔ ∃ g ∈ base :: dependencies, g.coordinate = c
  coordinates_nodup : u.coordinates.Nodup
  /-- The base comes first, and its block begins at zero; the others ascend. -/
  base_first : ∃ size rest, u.contributors = ⟨base, 0, size⟩ :: rest ∧
    (rest.map (·.coordinate)).Pairwise fun a b => a.compare b = .lt
  /-- The blocks lie one behind the other, up to the number of nodes. -/
  follow : FollowFrom 0 u.nodes.length u.contributors
  gids : u.contributors.flatMap (·.gids) = List.range u.nodes.length
  uris_nodup : (u.nodes.map (·.uri)).Nodup
  size_symbols : u.symbols.size = u.nodes.length
  lookup_iff : ∀ uri gid, u.symbols.lookup uri = some gid ↔
    ∃ n, u.nodes[gid]? = some n ∧ n.uri = uri
  /-- Every node is made from one local URI. -/
  made : ∀ gid < u.nodes.length, ∃! localUri, u.IsMadeFrom localUri gid
  lookupLocal_iff : ∀ localUri gid, u.symbols.lookupLocal localUri = some gid ↔
    IsLeast {gid | u.IsMadeFrom localUri gid} gid

theorem mem_coordinates_build {c : Coordinate} : c ∈ (build base dependencies).coordinates ↔
    ∃ g ∈ base :: dependencies, g.coordinate = c := by
  rw [coordinates_eq, map_graph_build, ← participants_eq, participants,
    mem_map_distinctBy PartialGraph.coordinate, ((perm_ordered base dependencies).map _).mem_iff,
    List.mem_map]

/-- **Universes are numbered block by block.**  The base comes first and the other contributors
follow in strictly ascending order, one for each coordinate; their blocks share out the numbers
of the nodes in that order.  The index has one method for each node: by its URI, and by a local
URI the first that is made from it. -/
theorem isNumbered_build (h : IsOrderedInput dependencies) :
    (build base dependencies).IsNumbered base dependencies := by
  have hblocked := isBlocked_build base dependencies
  have hfollow := followFrom_build base dependencies
  have hsize := length_nodes (build base dependencies)
  obtain ⟨size, rest, hfirst⟩ := exists_contributors_build base dependencies
  have hrest : rest.map (·.graph) = others base dependencies := by
    have hgraphs := map_graph_build base dependencies
    rw [hfirst, List.map_cons, List.cons.injEq] at hgraphs
    exact hgraphs.2
  refine ⟨fun c => mem_coordinates_build, hblocked.coordinates_nodup, ⟨size, rest, hfirst, ?_⟩,
    hsize ▸ hfollow, ?_, ?_, hsize.symm, fun uri gid => ?_, fun gid hgid => ?_,
    fun localUri gid => lookupLocal_eq_some_iff_isLeast hblocked⟩
  · have hascending : ((others base dependencies).map (·.coordinate)).Pairwise
        fun a b => a.compare b = .lt := pairwise_lt_others h
    rwa [← hrest, List.map_map] at hascending
  · rw [hfollow.flatMap_gids.2, hsize, List.range_eq_range', Nat.sub_zero]
  · rw [map_uri_nodes]
    exact hblocked.isDense.uris_nodup
  · rw [hblocked.isDense.lookup_eq_some_iff, nodes]
    simp [node]
  · rw [hsize] at hgid
    have hs := List.getElem?_eq_getElem hgid
    refine ⟨_, (isMadeFrom_iff hblocked).2 ⟨_, hs, rfl⟩, fun localUri hmade => ?_⟩
    obtain ⟨s, hs', rfl⟩ := (isMadeFrom_iff hblocked).1 hmade
    rw [Option.some.inj (hs.symm.trans hs')]

/-- Coordinates of different artifacts are transitively ordered. -/
theorem isOrderedInput_of_artifacts {gs : List PartialGraph}
    (h : ∀ a ∈ gs, ∀ b ∈ gs, a.coordinate.artifact = b.coordinate.artifact →
      a.coordinate = b.coordinate) : IsOrderedInput gs := by
  intro a ha b hb c hc hab hbc
  refine Coordinate.atMost_trans_of hab hbc fun hartifact _ => ?_
  rw [h a ha b hb hartifact]
  exact hbc

/-- Two artifacts that define one method of the base too, and a second graph of one of them. -/
def sharedMethods : List PartialGraph :=
  let artifact (name : String) (methods : List String) : PartialGraph :=
    { revision := ⟨⟨"mvn", ⟨"org", name⟩, "1"⟩, 1⟩, internalNodes := methods }
  [artifact "log" ["/org/Log.write()V", "/org/App.run()V"], artifact "core" ["/org/App.run()V"],
    artifact "log" ["/org/App.stop()V"]]

/-- Three graphs share a method, and two share a coordinate. -/
theorem isNumbered_build_sharedMethods :
    (build Merge.firstVersion sharedMethods).IsNumbered Merge.firstVersion sharedMethods :=
  isNumbered_build (isOrderedInput_of_artifacts (by decide +kernel))

end Universe

end Stitch
