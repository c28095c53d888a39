/-
The methods that a virtual or interface call may run, without the searches that find them.

A call may meet every type that steps to direct subtypes lead to from its declared type.  From
such a receiver the ways up (`Climbs`) go by the declarations that count for the caller's block
(`Prefers`), and the receiver runs the method at the end of the first way that leads to a type
with a method (`IsNearest`): of the shortest such ways the one that goes by a supertype listed
earlier, where they first differ.

* **`dispatchedTargets_nodup_and_mem_iff`**: both searches end, no target is listed twice, and
  the targets are the methods that some receiver runs.
* Where two types with a method are as near, the shortest way alone does not decide
  (`isNearest_length_not_mem`).
-/
import Stitch.Proofs.Merge.Blocks
import Stitch.Proofs.Search.Order

namespace Stitch

/-- The supertypes of a declaration in which a call of a kind looks for a method. -/
def TypeDecl.ancestors (d : TypeDecl) : CallKind → List String
  | .interface => d.superClasses ++ d.superInterfaces
  | _ => d.superClasses

namespace Universe

/-- Some contributor declares the second type, with the first as a direct supertype. -/
def HasSubtype (u : Universe) (type subtype : String) : Prop :=
  ∃ c ∈ u.contributors, ∃ decl, c.typeDecl? subtype = some decl ∧ type ∈ decl.supertypes

/-- The declaration of a type that counts for the calls of a block: the block's own, or else
that of the first contributor that declares the type. -/
structure Prefers (u : Universe) (block : Nat) (type : String) (owner : Nat) (c : Contributor)
    (decl : TypeDecl) : Prop where
  contributor : u.contributors[owner]? = some c
  declares : c.typeDecl? type = some decl
  own_or_first : owner = block ∨ ∀ (i : Nat) (d : Contributor), u.contributors[i]? = some d →
    i = block ∨ i < owner → d.typeDecl? type = none

/-- The ways from a receiver to its ancestors, by the places that the supertypes have in the
declarations. -/
inductive Climbs (u : Universe) (block : Nat) (kind : CallKind) (receiver : String) :
    List Nat → String → Prop
  | start : Climbs u block kind receiver [] receiver
  | step {way : List Nat} {type : String} {owner : Nat} {c : Contributor} {decl : TypeDecl}
    {i : Nat} {parent : String} (hway : Climbs u block kind receiver way type)
    (hdecl : u.Prefers block type owner c decl)
    (hparent : (decl.ancestors kind)[i]? = some parent) :
    Climbs u block kind receiver (way ++ [i]) parent

/-- The number is that of a contributor's own method. -/
structure IsMethodOf (u : Universe) (c : Contributor) (localUri : String) (gid : Gid) : Prop where
  internal : localUri ∈ c.graph.internalNodes
  owns : c.Owns gid
  node : ∃ n, u.nodes[gid]? = some n ∧ n.uri = MethodUri.qualify c.coordinate localUri

/-- A type has a body for a signature and is accepted by the strategy, and the method is one of
the contributor whose declaration counts. -/
def HasMethod (u : Universe) (block : Nat) (s : Strategy) (signature type : String) (gid : Gid) :
    Prop :=
  ∃ owner c decl, u.Prefers block type owner c decl ∧ signature ∈ decl.methods ∧
    s.accepts u type = true ∧ u.IsMethodOf c s!"{type}.{signature}" gid

/-- The method is at the end of a way up from the receiver, and no way that comes before this
one ends at a type with a method. -/
def IsNearest (u : Universe) (before : List Nat → List Nat → Prop) (block : Nat) (kind : CallKind)
    (s : Strategy) (signature receiver : String) (gid : Gid) : Prop :=
  ∃ way type, u.Climbs block kind receiver way type ∧ u.HasMethod block s signature type gid ∧
    ∀ way' type' gid', u.Climbs block kind receiver way' type' →
      u.HasMethod block s signature type' gid' → ¬before way' way

/-- No declared method of the signature has the global URI of another contributor's method. -/
def HasUnsharedMethods (u : Universe) (signature : String) : Prop :=
  ∀ c ∈ u.contributors, ∀ type decl, c.typeDecl? type = some decl → signature ∈ decl.methods →
    u.IsUnshared c s!"{type}.{signature}"

variable {u : Universe} {block : Nat} {kind : CallKind} {s : Strategy}
  {signature type : String} {gid : Gid}

/-! ### Declarations that count -/

theorem mem_declaring_iff {i : Nat} : i ∈ u.declaring type ↔
    ∃ c, u.contributors[i]? = some c ∧ (c.typeDecl? type).isSome := by
  rw [declaring, List.mem_map]
  constructor
  · rintro ⟨⟨c, j⟩, hp, rfl⟩
    obtain ⟨hmem, hdecl⟩ := List.mem_filter.1 hp
    exact ⟨c, List.mem_zipIdx_iff_getElem?.1 hmem, hdecl⟩
  · rintro ⟨c, hc, hdecl⟩
    exact ⟨(c, i), List.mem_filter.2 ⟨List.mem_zipIdx_iff_getElem?.2 hc, hdecl⟩, rfl⟩

/-- Contributors that declare a type are listed in their order. -/
theorem pairwise_declaring (u : Universe) (type : String) :
    (u.declaring type).Pairwise (· < ·) :=
  List.pairwise_map.2 ((pairwise_zipIdx u.contributors).sublist List.filter_sublist)

theorem owner?_eq_some_iff {owner : Nat} : u.owner? type block = some owner ↔
    owner ∈ u.declaring type ∧
      (owner = block ∨ ∀ i ∈ u.declaring type, i ≠ block ∧ owner ≤ i) := by
  have hsorted := u.pairwise_declaring type
  rw [owner?]
  generalize u.declaring type = owners at hsorted
  by_cases hblock : block ∈ owners
  · rw [if_pos (by simpa using hblock), Option.some_inj]
    constructor
    · rintro rfl
      exact ⟨hblock, .inl rfl⟩
    · rintro ⟨-, rfl | hfirst⟩
      · rfl
      · exact absurd rfl (hfirst block hblock).1
  · rw [if_neg (by simpa using hblock)]
    have hne : ∀ i ∈ owners, i ≠ block := fun i hi heq => hblock (heq ▸ hi)
    cases owners with
    | nil => simp
    | cons first owners =>
      -- The list ascends, so its first item is the only one that is at most all others.
      have hle : ∀ i ∈ first :: owners, first ≤ i := by
        intro i hi
        rcases List.mem_cons.1 hi with rfl | hi
        · exact Nat.le_refl _
        · exact Nat.le_of_lt ((List.pairwise_cons.1 hsorted).1 i hi)
      rw [List.head?_cons, Option.some_inj]
      constructor
      · rintro rfl
        exact ⟨List.mem_cons_self, .inr fun i hi => ⟨hne i hi, hle i hi⟩⟩
      · rintro ⟨hmem, heq | hfirst⟩
        · exact absurd heq (hne owner hmem)
        · exact Nat.le_antisymm (hle owner hmem) (hfirst first List.mem_cons_self).2

theorem declaration?_eq_some_iff_prefers {owner : Nat} {decl : TypeDecl} :
    u.declaration? type block = some (owner, decl) ↔ ∃ c, u.Prefers block type owner c decl := by
  rw [declaration?_eq_some_iff, owner?_eq_some_iff]
  constructor
  · rintro ⟨⟨-, hfirst⟩, c, hc, hdecl⟩
    refine ⟨c, hc, hdecl, hfirst.imp_right fun hfirst i d hd hi => ?_⟩
    by_contra hnone
    obtain ⟨hne, hle⟩ :=
      hfirst i (mem_declaring_iff.2 ⟨d, hd, Option.isSome_iff_ne_none.2 hnone⟩)
    omega
  · rintro ⟨c, hc, hdecl, hfirst⟩
    refine ⟨⟨mem_declaring_iff.2 ⟨c, hc, by simp [hdecl]⟩, hfirst.imp_right ?_⟩, c, hc, hdecl⟩
    intro hfirst i hi
    obtain ⟨d, hd, hsome⟩ := mem_declaring_iff.1 hi
    have hnot : ¬(i = block ∨ i < owner) := fun hi => by simp [hfirst i d hd hi] at hsome
    omega

/-! ### Receivers -/

theorem mem_subtypes_iff {subtype : String} :
    subtype ∈ u.subtypes type ↔ u.HasSubtype type subtype := by
  rw [subtypes, mem_distinct, List.mem_flatMap]
  refine exists_congr fun c => and_congr_right fun _ => ?_
  rw [List.mem_filterMap]
  constructor
  · rintro ⟨⟨name, decl⟩, hentry, hname⟩
    obtain ⟨hsuper, rfl⟩ : type ∈ decl.supertypes ∧ name = subtype := by simpa using hname
    exact ⟨decl, typeDecl?_eq_some_iff.2 hentry, hsuper⟩
  · rintro ⟨decl, hdecl, hsuper⟩
    exact ⟨(subtype, decl), typeDecl?_eq_some_iff.1 hdecl, by simpa using hsuper⟩

theorem subtypes_subset_types (u : Universe) (type : String) : u.subtypes type ⊆ u.types := by
  intro subtype hsub
  obtain ⟨c, hc, decl, hdecl, -⟩ := mem_subtypes_iff.1 hsub
  exact List.mem_flatMap.2
    ⟨c, hc, List.mem_flatMap.2 ⟨_, typeDecl?_eq_some_iff.1 hdecl, List.mem_cons_self⟩⟩

/-- The receivers of a call are its declared type and all of its subtypes. -/
theorem mem_receivers_iff {declared receiver : String} :
    receiver ∈ u.receivers declared ↔ Relation.ReflTransGen u.HasSubtype declared receiver := by
  rw [receivers, Search.mem_map_breadthFirst_iff]
  have hstep : Search.Step u.types u.subtypes = u.HasSubtype := by
    ext type subtype
    rw [Search.Step, ← mem_subtypes_iff]
    exact and_iff_left_of_imp fun hsub => u.subtypes_subset_types type hsub
  simp [hstep]

/-- The search for receivers ends within as many rounds as there are types, and one more. -/
theorem explore_subtypes (u : Universe) (declared : String) :
    Search.explore u.subtypes (u.types.length + 1) [declared] [declared] =
      some (u.receivers declared) :=
  Search.explore_eq_breadthFirst u.subtypes_subset_types declared

/-! ### Ways up -/

/-- The search for ancestors ends within as many rounds as there are types, and one more. -/
theorem explore_parents (u : Universe) (block : Nat) (kind : CallKind) (receiver : String) :
    Search.explore (u.parents block kind) (u.types.length + 1) [receiver] [receiver] =
      some (u.lineage block kind receiver) :=
  Search.explore_eq_breadthFirst (u.parents_subset_types block kind) receiver

theorem getElem?_parents_iff {i : Nat} {parent : String} :
    (u.parents block kind type)[i]? = some parent ↔
      ∃ owner c decl, u.Prefers block type owner c decl ∧
        (decl.ancestors kind)[i]? = some parent := by
  have hancestors : ∀ decl : TypeDecl,
      (if kind = .interface then decl.supertypes else decl.superClasses) = decl.ancestors kind := by
    intro decl
    cases kind <;> rfl
  rw [parents]
  constructor
  · intro h
    split at h
    · cases h
    · next owner decl hd =>
      obtain ⟨c, hprefers⟩ := declaration?_eq_some_iff_prefers.1 hd
      exact ⟨owner, c, decl, hprefers, hancestors decl ▸ h⟩
  · rintro ⟨owner, c, decl, hprefers, hparent⟩
    rw [declaration?_eq_some_iff_prefers.2 ⟨c, hprefers⟩]
    dsimp only
    rw [hancestors]
    exact hparent

theorem climbs_iff_follow {receiver : String} {way : List Nat} :
    u.Climbs block kind receiver way type ↔
      Search.follow (u.parents block kind) receiver way = some type := by
  constructor
  · intro h
    induction h with
    | start => rfl
    | step _ hdecl hparent ih =>
      exact Search.follow_concat_eq_some_iff.2
        ⟨_, ih, getElem?_parents_iff.2 ⟨_, _, _, hdecl, hparent⟩⟩
  · intro h
    induction way using List.reverseRecOn generalizing type with
    | nil =>
      obtain rfl : receiver = type := Option.some.inj h
      exact .start
    | append_singleton way i ih =>
      obtain ⟨child, hchild, hi⟩ := Search.follow_concat_eq_some_iff.1 h
      obtain ⟨owner, c, decl, hdecl, hparent⟩ := getElem?_parents_iff.1 hi
      exact .step (ih hchild) hdecl hparent

/-! ### Methods -/

section Methods

variable (h : u.IsBlocked)
include h

/-- Under an unshared name exactly a contributor's own method is found. -/
theorem method?_eq_some_iff_isMethodOf {c : Contributor} {localUri : String}
    (hc : u.contributors[block]? = some c) (hname : u.IsUnshared c localUri) :
    u.method? block localUri = some gid ↔ u.IsMethodOf c localUri gid := by
  constructor
  · intro hm
    obtain ⟨hinternal, howns⟩ := own_of_method?_eq_some h hc hname hm
    rw [method?_eq_lookup hc] at hm
    exact ⟨hinternal, howns, getElem?_nodes_of_lookup h.isDense hm⟩
  · rintro ⟨-, -, n, hn, huri⟩
    rw [nodes, List.getElem?_map, Option.map_eq_some_iff] at hn
    obtain ⟨method, hmethod, rfl⟩ := hn
    rw [method?_eq_lookup hc, h.isDense.lookup_eq_some_iff]
    exact ⟨method, hmethod, huri⟩

variable (hnames : u.HasUnsharedMethods signature)
include hnames

theorem concrete?_eq_some_iff_hasMethod :
    u.concrete? block s signature type = some gid ↔ u.HasMethod block s signature type gid := by
  have howner {owner : Nat} {c : Contributor} {decl : TypeDecl}
      (hprefers : u.Prefers block type owner c decl) (hdefines : signature ∈ decl.methods) :
      u.method? owner s!"{type}.{signature}" = some gid ↔
        u.IsMethodOf c s!"{type}.{signature}" gid :=
    method?_eq_some_iff_isMethodOf h hprefers.contributor <|
      hnames c (List.mem_of_getElem? hprefers.contributor) type decl hprefers.declares hdefines
  rw [concrete?, Option.bind_eq_bind, Option.bind_eq_some_iff]
  constructor
  · rintro ⟨⟨owner, decl⟩, hd, hm⟩
    obtain ⟨c, hprefers⟩ := declaration?_eq_some_iff_prefers.1 hd
    rw [Option.ite_none_right_eq_some, Bool.and_eq_true] at hm
    obtain ⟨⟨hdefines, haccepts⟩, hm⟩ := hm
    have hdefines : signature ∈ decl.methods := by simpa [TypeDecl.defines] using hdefines
    exact ⟨owner, c, decl, hprefers, hdefines, haccepts, (howner hprefers hdefines).1 hm⟩
  · rintro ⟨owner, c, decl, hprefers, hdefines, haccepts, hmethod⟩
    refine ⟨(owner, decl), declaration?_eq_some_iff_prefers.2 ⟨c, hprefers⟩, ?_⟩
    rw [Option.ite_none_right_eq_some, Bool.and_eq_true]
    exact ⟨⟨by simpa [TypeDecl.defines] using hdefines, haccepts⟩,
      (howner hprefers hdefines).2 hmethod⟩

/-- A receiver runs the method at the end of the first way up to a type with a method. -/
theorem nearest?_eq_some_iff_isNearest {receiver : String} :
    u.nearest? block kind s signature receiver = some gid ↔
      u.IsNearest Search.Earlier block kind s signature receiver gid := by
  rw [nearest?, lineage, Search.findSome?_breadthFirst_iff (u.parents_subset_types block kind)]
  simp only [IsNearest, climbs_iff_follow, ← concrete?_eq_some_iff_hasMethod h hnames]
  refine exists_congr fun way => exists_congr fun type => and_congr_right fun _ =>
    and_congr_right fun _ => ?_
  constructor
  · intro hfirst way' type' gid' hway' hmethod'
    exact hfirst way' type' hway' (by simp [hmethod'])
  · intro hfirst way' type' hway' hmethod'
    obtain ⟨gid', hgid'⟩ := Option.isSome_iff_exists.1 hmethod'
    exact hfirst way' type' gid' hway' hgid'

end Methods

/-! ### Targets -/

/-- **The targets of a call are the methods that its receivers run.** -/
theorem dispatchedTargets_nodup_and_mem_iff (base : PartialGraph) (dependencies : List PartialGraph)
    (block : Nat) (callee : MethodUri) (kind : CallKind) (s : Strategy) :
    let u := build base dependencies
    Search.explore u.subtypes (u.types.length + 1) [callee.typeUri] [callee.typeUri] =
        some (u.receivers callee.typeUri) ∧
      (∀ receiver, Search.explore (u.parents block kind) (u.types.length + 1) [receiver]
        [receiver] = some (u.lineage block kind receiver)) ∧
      (u.dispatchedTargets block callee kind s).Nodup ∧
      (u.HasUnsharedMethods callee.signature → ∀ gid,
        gid ∈ u.dispatchedTargets block callee kind s ↔
          ∃ receiver, Relation.ReflTransGen u.HasSubtype callee.typeUri receiver ∧
            u.IsNearest Search.Earlier block kind s callee.signature receiver gid) := by
  intro u
  refine ⟨u.explore_subtypes _, u.explore_parents block kind, nodup_distinct _, ?_⟩
  intro hnames gid
  have h : u.IsBlocked := isBlocked_build base dependencies
  rw [mem_dispatchedTargets_iff]
  refine exists_congr fun receiver => ?_
  rw [mem_receivers_iff, nearest?_eq_some_iff_isNearest h hnames]

/-- An interface that inherits a body from two others. -/
def inheritingTwice : PartialGraph where
  revision := ⟨⟨"mvn", ⟨"org", "app"⟩, "1"⟩, 1⟩
  hierarchy := some (.ofList [("/p/Main", { methods := ["run()V"] }),
    ("/p/I", { methods := ["m()V"] }), ("/p/J", { methods := ["m()V"] }),
    ("/p/R", { superInterfaces := ["/p/I", "/p/J"] })])
  internalNodes := ["/p/Main.run()V", "/p/I.m()V", "/p/J.m()V"]
  calls := [⟨"/p/Main.run()V", "/p/R.m()V", .interface⟩]

/-- A dependency that implements the interface. -/
def implementing : PartialGraph where
  revision := ⟨⟨"mvn", ⟨"org", "lib"⟩, "1"⟩, 1⟩
  hierarchy := some (.ofList [("/q/S", { methods := ["m()V"], superInterfaces := ["/p/R"] })])
  internalNodes := ["/q/S.m()V"]

theorem hasUnsharedMethods_of_entries (h : ∀ c ∈ u.contributors,
    ∀ e ∈ c.graph.hierarchy.elim [] (·.entries), signature ∈ e.2.methods →
      u.IsUnshared c s!"{e.1}.{signature}") : u.HasUnsharedMethods signature := by
  intro c hc type decl hdecl hdefines
  exact h c hc (type, decl) (typeDecl?_eq_some_iff.1 hdecl) hdefines

theorem hasUnsharedMethods_implementing :
    (build inheritingTwice [implementing]).HasUnsharedMethods "m()V" := by
  rw [build_singleton]
  refine hasUnsharedMethods_of_entries ?_
  simp only [IsUnshared]
  decide +kernel

theorem dispatchedTargets_implementing :
    (build inheritingTwice [implementing]).dispatchedTargets 0 ⟨none, "p", "R", "m()V"⟩ .interface
      .cha = [1, 3] := by
  rw [build_singleton]
  set u := (add {} inheritingTwice).add implementing
  -- The searches are evaluated round by round, in the form that is bounded by their number.
  have hreceivers : u.receivers "/p/R" = ["/p/R", "/q/S"] :=
    Option.some.inj ((u.explore_subtypes _).symm.trans (by decide +kernel))
  have hinterface : u.lineage 0 .interface "/p/R" = ["/p/R", "/p/I", "/p/J"] :=
    Option.some.inj ((u.explore_parents _ _ _).symm.trans (by decide +kernel))
  have hclass : u.lineage 0 .interface "/q/S" = ["/q/S", "/p/R", "/p/I", "/p/J"] :=
    Option.some.inj ((u.explore_parents _ _ _).symm.trans (by decide +kernel))
  have hinherited : u.nearest? 0 .interface .cha "m()V" "/p/R" = some 1 := by
    rw [nearest?, hinterface]
    decide +kernel
  have hown : u.nearest? 0 .interface .cha "m()V" "/q/S" = some 3 := by
    rw [nearest?, hclass]
    decide +kernel
  have htype : (⟨none, "p", "R", "m()V"⟩ : MethodUri).typeUri = "/p/R" := by decide +kernel
  rw [dispatchedTargets, htype, hreceivers]
  simp [hinherited, hown, distinct, distinctBy]

/-- The class runs its own method, and the interface that of the supertype listed first. -/
theorem dispatchedTargets_nodup_and_mem_iff_implementing :
    let u := build inheritingTwice [implementing]
    let callee : MethodUri := ⟨none, "p", "R", "m()V"⟩
    u.HasUnsharedMethods callee.signature ∧
      (∃ receiver, Relation.ReflTransGen u.HasSubtype callee.typeUri receiver ∧
        u.IsNearest Search.Earlier 0 .interface .cha callee.signature receiver 3) ∧
      ¬∃ receiver, Relation.ReflTransGen u.HasSubtype callee.typeUri receiver ∧
        u.IsNearest Search.Earlier 0 .interface .cha callee.signature receiver 2 := by
  intro u callee
  have hiff := (dispatchedTargets_nodup_and_mem_iff inheritingTwice [implementing] 0 callee
    .interface .cha).2.2.2 hasUnsharedMethods_implementing
  rw [dispatchedTargets_implementing] at hiff
  refine ⟨hasUnsharedMethods_implementing, (hiff 3).1 (by decide), fun hother => ?_⟩
  exact absurd ((hiff 2).2 hother) (by decide)

/-- No type with the method is nearer to the interface than the supertype listed second, but
its method is no target. -/
theorem isNearest_length_not_mem :
    let u := build inheritingTwice [implementing]
    let callee : MethodUri := ⟨none, "p", "R", "m()V"⟩
    u.HasUnsharedMethods callee.signature ∧
      (∃ receiver, Relation.ReflTransGen u.HasSubtype callee.typeUri receiver ∧
        u.IsNearest (fun v w => v.length < w.length) 0 .interface .cha callee.signature
          receiver 2) ∧
      2 ∉ u.dispatchedTargets 0 callee .interface .cha := by
  intro u callee
  have h : u.IsBlocked := isBlocked_build _ _
  have hnames : u.HasUnsharedMethods callee.signature := hasUnsharedMethods_implementing
  refine ⟨hnames, ⟨callee.typeUri, .refl, [1], "/p/J", ?_, ?_, ?_⟩, ?_⟩
  · rw [climbs_iff_follow]
    simp only [u, build_singleton]
    decide +kernel
  · rw [← concrete?_eq_some_iff_hasMethod h hnames]
    simp only [u, build_singleton]
    decide +kernel
  · intro way type gid hway hmethod hlt
    -- The only shorter way is the empty one, and the interface has no body itself.
    obtain rfl : way = [] := List.length_eq_zero_iff.1 (by simpa using hlt)
    obtain rfl : callee.typeUri = type := Option.some.inj (climbs_iff_follow.1 hway)
    have hnone : u.concrete? 0 .cha callee.signature callee.typeUri = none := by
      simp only [u, build_singleton]
      decide +kernel
    rw [← concrete?_eq_some_iff_hasMethod h hnames, hnone] at hmethod
    cases hmethod
  · rw [dispatchedTargets_implementing]
    decide

end Universe

end Stitch
