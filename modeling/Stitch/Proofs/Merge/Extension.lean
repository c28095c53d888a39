/-
Universes with further contributors.

A universe that was extended (`Extends`) has the old contributors and methods in
front.  So it finds what was found before: methods by their URIs, the declaration
of a type that was declared, and the methods that such a type has.  More types
may be subtypes, more are declared and more are instantiated, and so the upward
walk from a receiver of a call, which ends at the nearest type with an accepted
method, may end earlier.  But it only does if it comes by a type that the
extension changed (`IsChanged`):

* `Extends.nearest?_eq_or_isIntercepted`: a walk that ended at a method ends there
  still, or it is intercepted and ends at another one.
-/
import Mathlib.Data.List.Infix
import Stitch.Proofs.Merge.Dispatch
import Stitch.Proofs.Search
import Stitch.Proofs.SortedMap

namespace Stitch.Universe

/-- The second universe has further contributors, with further methods, behind
those of the first. -/
structure Extends (u v : Universe) : Prop where
  contributors_kept : u.contributors <+: v.contributors
  symbols_kept : u.symbols.symbols <+: v.symbols.symbols

variable {u v w : Universe}

theorem Extends.refl (u : Universe) : u.Extends u := ⟨List.prefix_rfl, List.prefix_rfl⟩

theorem Extends.trans (h : u.Extends v) (h' : v.Extends w) : u.Extends w :=
  ⟨h.contributors_kept.trans h'.contributors_kept, h.symbols_kept.trans h'.symbols_kept⟩

/-! ### Taking graphs in -/

theorem prefix_addMethods (owner : Coordinate) (methods : List String) (index : SymbolIndex) :
    index.symbols <+: (methods.foldl (addMethod owner) index).symbols := by
  obtain ⟨more, hmore, -⟩ := exists_addMethods owner methods index
  exact ⟨more, hmore.symm⟩

theorem extends_add (u : Universe) (g : PartialGraph) : u.Extends (u.add g) := by
  rw [add]
  split
  · exact ⟨List.prefix_rfl, List.prefix_rfl⟩
  · exact ⟨List.prefix_append _ _, prefix_addMethods _ _ _⟩

theorem extends_foldl_add (u : Universe) (gs : List PartialGraph) :
    u.Extends (gs.foldl add u) := by
  induction gs generalizing u with
  | nil => exact .refl u
  | cons g gs ih => exact (extends_add u g).trans (ih _)

/-- Merging with dependencies extends the universe of the base alone. -/
theorem extends_build (base : PartialGraph) (dependencies : List PartialGraph) :
    (build base []).Extends (build base dependencies) := by
  rw [build_nil]
  exact extends_foldl_add _ _

/-- The base is the first contributor, and its block begins at zero. -/
theorem exists_contributors_build (base : PartialGraph) (dependencies : List PartialGraph) :
    ∃ size rest, (build base dependencies).contributors = ⟨base, 0, size⟩ :: rest := by
  obtain ⟨rest, hrest⟩ := (extends_build base dependencies).contributors_kept
  obtain ⟨size, halone⟩ := contributors_alone base
  exact ⟨size, rest, by rw [← hrest, halone]; rfl⟩

/-- A contributor declares exactly the types of its hierarchy's entries. -/
theorem typeDecl?_eq_some_iff {c : Contributor} {type : String} {decl : TypeDecl} :
    c.typeDecl? type = some decl ↔ (type, decl) ∈ c.graph.hierarchy.elim [] (·.entries) := by
  rw [Contributor.typeDecl?]
  cases c.graph.hierarchy with
  | none => simp
  | some hierarchy => exact SortedMap.get?_eq_some_iff

theorem declaration?_eq_some_iff {type : String} {block owner : Nat} {decl : TypeDecl} :
    u.declaration? type block = some (owner, decl) ↔ u.owner? type block = some owner ∧
      ∃ c, u.contributors[owner]? = some c ∧ c.typeDecl? type = some decl := by
  simp only [declaration?, Option.bind_eq_bind, Option.bind_eq_some_iff, Option.pure_def,
    Option.some.injEq, Prod.mk.injEq]
  constructor
  · rintro ⟨_, howner, c, hc, _, hdecl, rfl, rfl⟩
    exact ⟨howner, c, hc, hdecl⟩
  · rintro ⟨howner, c, hc, hdecl⟩
    exact ⟨owner, howner, c, hc, decl, hdecl, rfl, rfl⟩

namespace Extends

variable (h : u.Extends v)
include h

/-! ### What is found as before -/

theorem lookup {uri : String} {gid : Gid} (hlook : u.symbols.lookup uri = some gid) :
    v.symbols.lookup uri = some gid := by
  obtain ⟨more, hmore⟩ := h.symbols_kept
  obtain ⟨s, hs, hgid⟩ := Option.map_eq_some_iff.1 hlook
  rw [SymbolIndex.lookup, ← hmore, List.find?_append, hs, Option.some_or, Option.map_some, hgid]

theorem getElem?_nodes {gid : Gid} {n : Node} (hn : u.nodes[gid]? = some n) :
    v.nodes[gid]? = some n := by
  obtain ⟨more, hmore⟩ := h.symbols_kept
  rw [nodes] at hn ⊢
  rw [← hmore, List.map_append, List.getElem?_append_left (List.getElem?_eq_some_iff.1 hn).1, hn]

theorem getElem?_contributors {block : Nat} {c : Contributor}
    (hc : u.contributors[block]? = some c) : v.contributors[block]? = some c := by
  obtain ⟨more, hmore⟩ := h.contributors_kept
  rw [← hmore, List.getElem?_append_left (List.getElem?_eq_some_iff.1 hc).1, hc]

theorem method? {block : Nat} {localUri : String} {gid : Gid}
    (hm : u.method? block localUri = some gid) : v.method? block localUri = some gid := by
  obtain ⟨c, hc, hlook⟩ := Option.bind_eq_some_iff.1 hm
  exact Option.bind_eq_some_iff.2 ⟨c, h.getElem?_contributors hc, h.lookup hlook⟩

/-- Further contributors that declare a type have higher numbers. -/
theorem declaring (type : String) :
    ∃ more, v.declaring type = u.declaring type ++ more ∧
      ∀ block ∈ more, u.contributors.length ≤ block := by
  obtain ⟨more, hmore⟩ := h.contributors_kept
  rw [Universe.declaring, ← hmore, List.zipIdx_append, List.filter_append, List.map_append]
  refine ⟨_, rfl, fun block hblock => ?_⟩
  obtain ⟨⟨c, i⟩, hp, rfl⟩ := List.mem_map.1 hblock
  have := List.le_snd_of_mem_zipIdx (List.mem_filter.1 hp).1
  simpa using this

theorem owner? {type : String} {block owner : Nat} (hblock : block < u.contributors.length)
    (ho : u.owner? type block = some owner) : v.owner? type block = some owner := by
  obtain ⟨more, hmore, hlater⟩ := h.declaring type
  have hnew : block ∉ more := fun hmem => Nat.not_lt_of_le (hlater block hmem) hblock
  rw [Universe.owner?] at ho ⊢
  rw [hmore]
  by_cases hown : block ∈ u.declaring type
  · rw [if_pos (by simpa using hown)] at ho
    rw [if_pos (by simp [hown]), ho]
  · rw [if_neg (by simpa using hown)] at ho
    rw [if_neg (by simp [hown, hnew]), List.head?_append, ho, Option.some_or]

theorem declaration? {type : String} {block : Nat} {d : Nat × TypeDecl}
    (hblock : block < u.contributors.length) (hd : u.declaration? type block = some d) :
    v.declaration? type block = some d := by
  obtain ⟨owner, decl⟩ := d
  obtain ⟨howner, c, hc, hdecl⟩ := declaration?_eq_some_iff.1 hd
  exact declaration?_eq_some_iff.2
    ⟨h.owner? hblock howner, c, h.getElem?_contributors hc, hdecl⟩

theorem accepts {s : Strategy} {type : String} (ha : s.accepts u type = true) :
    s.accepts v type = true := by
  cases s with
  | cha => rfl
  | rtaLike =>
    obtain ⟨c, hc, hany⟩ := List.any_eq_true.1 ha
    exact List.any_eq_true.2 ⟨c, h.contributors_kept.subset hc, hany⟩

theorem concrete? {block : Nat} {s : Strategy} {signature type : String} {gid : Gid}
    (hblock : block < u.contributors.length)
    (hc : u.concrete? block s signature type = some gid) :
    v.concrete? block s signature type = some gid := by
  obtain ⟨⟨owner, decl⟩, hd, hm⟩ := Option.bind_eq_some_iff.1 hc
  obtain ⟨hif, hm⟩ := Option.ite_none_right_eq_some.1 hm
  obtain ⟨hdefines, haccepts⟩ := Bool.and_eq_true_iff.1 hif
  refine Option.bind_eq_some_iff.2 ⟨(owner, decl), h.declaration? hblock hd, ?_⟩
  exact Option.ite_none_right_eq_some.2
    ⟨Bool.and_eq_true_iff.2 ⟨hdefines, h.accepts haccepts⟩, h.method? hm⟩

/-! ### Receivers -/

theorem types_subset : u.types ⊆ v.types := by
  intro type htype
  obtain ⟨c, hc, hmem⟩ := List.mem_flatMap.1 htype
  exact List.mem_flatMap.2 ⟨c, h.contributors_kept.subset hc, hmem⟩

theorem subtypes_subset (type : String) : u.subtypes type ⊆ v.subtypes type := by
  intro subtype hsub
  rw [subtypes, mem_distinct] at hsub ⊢
  obtain ⟨c, hc, hmem⟩ := List.mem_flatMap.1 hsub
  exact List.mem_flatMap.2 ⟨c, h.contributors_kept.subset hc, hmem⟩

theorem receivers_subset (declared : String) : u.receivers declared ⊆ v.receivers declared :=
  fun _ hr => Search.mem_map_breadthFirst_mono
    (fun a _ hstep => ⟨h.subtypes_subset a hstep.1, h.types_subset hstep.2⟩) hr

/-! ### Ancestors -/

/-- The parents of a declared type are the same. -/
theorem parents_eq {block : Nat} {kind : CallKind} {type : String} {d : Nat × TypeDecl}
    (hblock : block < u.contributors.length) (hd : u.declaration? type block = some d) :
    v.parents block kind type = u.parents block kind type := by
  rw [parents, parents, hd, h.declaration? hblock hd]

theorem parents_subset {block : Nat} (hblock : block < u.contributors.length) (kind : CallKind)
    (type : String) : u.parents block kind type ⊆ v.parents block kind type := by
  cases hd : u.declaration? type block with
  | some d =>
    rw [h.parents_eq hblock hd]
    exact List.Subset.refl _
  | none =>
    rw [parents, hd]
    exact List.nil_subset _

theorem lineage_subset {block : Nat} (hblock : block < u.contributors.length) (kind : CallKind)
    (type : String) : u.lineage block kind type ⊆ v.lineage block kind type :=
  fun _ ha => Search.mem_map_breadthFirst_mono
    (fun a _ hstep => ⟨h.parents_subset hblock kind a hstep.1, h.types_subset hstep.2⟩) ha

end Extends

/-- Parents are among the types of the universe. -/
theorem parents_subset_types (u : Universe) (block : Nat) (kind : CallKind) (type : String) :
    u.parents block kind type ⊆ u.types := by
  intro parent hparent
  rw [parents] at hparent
  cases hd : u.declaration? type block with
  | none =>
    rw [hd] at hparent
    cases hparent
  | some d =>
    obtain ⟨owner, decl⟩ := d
    rw [hd] at hparent
    have hsuper : parent ∈ decl.supertypes := by
      dsimp only at hparent
      split at hparent
      · exact hparent
      · exact List.mem_append_left _ hparent
    obtain ⟨-, c, hc, hdecl⟩ := declaration?_eq_some_iff.1 hd
    exact List.mem_flatMap.2 ⟨c, List.mem_of_getElem? hc,
      List.mem_flatMap.2 ⟨_, typeDecl?_eq_some_iff.1 hdecl, List.mem_cons_of_mem _ hsuper⟩⟩

theorem stepsFrom_parents (u : Universe) (block : Nat) (kind : CallKind) (type : String) :
    Search.stepsFrom u.types (u.parents block kind) type = u.parents block kind type :=
  List.filter_eq_self.2 fun _ hp => decide_eq_true (u.parents_subset_types block kind type hp)

/-! ### Walks -/

/-- A type that an extension declares for the first time, or that has an accepted
method of the signature for the first time. -/
def IsChanged (u v : Universe) (block : Nat) (s : Strategy) (signature type : String) : Prop :=
  (u.declaration? type block = none ∧ v.declaration? type block ≠ none) ∨
    (u.concrete? block s signature type = none ∧ v.concrete? block s signature type ≠ none)

/-- The walk from a receiver ended at the type of a method.  Before that type it
comes by one that is changed, and it now ends at another method. -/
def IsIntercepted (u v : Universe) (block : Nat) (kind : CallKind) (s : Strategy)
    (signature receiver : String) (target : Gid) : Prop :=
  ∃ before type after, u.lineage block kind receiver = before ++ type :: after ∧
    u.concrete? block s signature type = some target ∧
    (∃ changed ∈ before, IsChanged u v block s signature changed) ∧
    ∃ other, v.nearest? block kind s signature receiver = some other ∧ other ≠ target

namespace Extends

variable (h : u.Extends v) {block : Nat} (hblock : block < u.contributors.length)
  {kind : CallKind} {s : Strategy} {target : Gid}
include h hblock

/-- As far as no type is changed, the walk goes by the same types. -/
theorem lineage_eq {signature receiver type : String} {before after : List String}
    (hlineage : u.lineage block kind receiver = before ++ type :: after)
    (hsame : ∀ t ∈ before, ¬IsChanged u v block s signature t) :
    ∃ after', v.lineage block kind receiver = before ++ type :: after' := by
  have hsteps : ∀ p ∈ (Search.breadthFirst u.types (u.parents block kind) [receiver]).take
      before.length, Search.stepsFrom u.types (u.parents block kind) p.1 =
        Search.stepsFrom v.types (v.parents block kind) p.1 := by
    intro p hp
    have hbefore : p.1 ∈ before := by
      have := List.mem_map_of_mem (f := Prod.fst) hp
      rwa [List.map_take, ← lineage, hlineage, List.take_left] at this
    rw [stepsFrom_parents, stepsFrom_parents]
    cases hd : u.declaration? p.1 block with
    | some d => rw [h.parents_eq hblock hd]
    | none =>
      have hnone : v.declaration? p.1 block = none := by
        by_contra hne
        exact hsame _ hbefore (.inl ⟨hd, hne⟩)
      rw [parents, parents, hd, hnone]
  -- Equal steps from all types before the last one give equal walks up to that one.
  have htake := congrArg (List.map Prod.fst) (Search.take_breadthFirst_congr hsteps)
  rw [List.map_take, List.map_take, ← lineage, ← lineage, hlineage,
    List.take_append, List.take_of_length_le (Nat.le_succ _), Nat.add_sub_cancel_left] at htake
  refine ⟨(v.lineage block kind receiver).drop (before.length + 1), ?_⟩
  calc v.lineage block kind receiver
      = (v.lineage block kind receiver).take (before.length + 1) ++
          (v.lineage block kind receiver).drop (before.length + 1) :=
        (List.take_append_drop _ _).symm
    _ = before ++ type :: (v.lineage block kind receiver).drop (before.length + 1) := by
        rw [← htake]
        simp

/-- **A walk that ended at a method** ends there still, or it is intercepted. -/
theorem nearest?_eq_or_isIntercepted {signature receiver : String}
    (hn : u.nearest? block kind s signature receiver = some target) :
    v.nearest? block kind s signature receiver = some target ∨
      IsIntercepted u v block kind s signature receiver target := by
  obtain ⟨before, type, after, hlineage, hconcrete, hnone⟩ := List.findSome?_eq_some_iff.1 hn
  -- The type of the method is on the walk of the extension, so that ends somewhere.
  have hmem : type ∈ v.lineage block kind receiver :=
    h.lineage_subset hblock kind receiver (by rw [hlineage]; simp)
  obtain ⟨other, hother⟩ : ∃ other, v.nearest? block kind s signature receiver = some other := by
    rw [← Option.isSome_iff_exists, Universe.nearest?, List.findSome?_isSome_iff]
    exact ⟨type, hmem, by rw [h.concrete? hblock hconcrete]; rfl⟩
  by_cases hchanged : ∃ changed ∈ before, IsChanged u v block s signature changed
  · by_cases heq : other = target
    · exact .inl (heq ▸ hother)
    · exact .inr ⟨before, type, after, hlineage, hconcrete, hchanged, other, hother, heq⟩
  · have hsame : ∀ t ∈ before, ¬IsChanged u v block s signature t :=
      fun t ht hc => hchanged ⟨t, ht, hc⟩
    obtain ⟨after', hlineage'⟩ := h.lineage_eq hblock hlineage hsame
    refine .inl (List.findSome?_eq_some_iff.2
      ⟨before, type, after', hlineage', h.concrete? hblock hconcrete, fun t ht => ?_⟩)
    by_contra hne
    exact hsame t ht (.inr ⟨hnone t ht, hne⟩)

/-- A method that some receiver ran is run still, or all its walks are intercepted. -/
theorem mem_dispatchedTargets_or_isIntercepted {callee : MethodUri}
    (ht : target ∈ u.dispatchedTargets block callee kind s) :
    v.dispatchedTargets block callee kind s ≠ [] ∧
      (target ∈ v.dispatchedTargets block callee kind s ∨
        ∀ receiver ∈ u.receivers callee.typeUri,
          u.nearest? block kind s callee.signature receiver = some target →
            IsIntercepted u v block kind s callee.signature receiver target) := by
  have hreceiver : ∀ receiver ∈ u.receivers callee.typeUri, ∀ other,
      v.nearest? block kind s callee.signature receiver = some other →
        other ∈ v.dispatchedTargets block callee kind s := fun receiver hr other hother =>
    mem_dispatchedTargets_iff.2 ⟨receiver, h.receivers_subset _ hr, hother⟩
  constructor
  · obtain ⟨receiver, hr, hn⟩ := mem_dispatchedTargets_iff.1 ht
    rcases h.nearest?_eq_or_isIntercepted hblock hn with heq | hintercepted
    · exact List.ne_nil_of_mem (hreceiver receiver hr target heq)
    · obtain ⟨_, _, _, _, _, _, other, hother, _⟩ := hintercepted
      exact List.ne_nil_of_mem (hreceiver receiver hr other hother)
  · by_cases hmem : target ∈ v.dispatchedTargets block callee kind s
    · exact .inl hmem
    · refine .inr fun receiver hr hn => ?_
      exact (h.nearest?_eq_or_isIntercepted hblock hn).resolve_left
        fun heq => hmem (hreceiver receiver hr target heq)

end Extends

end Stitch.Universe
