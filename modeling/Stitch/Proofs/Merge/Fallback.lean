/-
Filtering contributor by contributor.

Whether the calls of a contributor are filtered by instantiated types depends on that
contributor alone, while the types come from all of them.

* If it lists any, its virtual and interface calls of local references reach no other
  methods than those of instantiated types (`mem_leadsTo_isInstantiatedMethod`).
* If it does not, its calls have the same outcomes as without the filter, and so reach
  the same nodes (`reaches_iff_names`), though placeholders may have other numbers.

Main statement: **`merge_isFiltered`**.
-/
import Stitch.Proofs.Merge.Filtering

namespace Stitch

/-- Whether a node that a call leads to in a graph has a URI. -/
def CallOutcome.Reaches (g : MergedGraph) (o : CallOutcome) (uri : String) : Prop :=
  ∃ e n, o.Contributes g e ∧ g.nodes[e.target]? = some n ∧ n.uri = uri

/-- Whether the outcome of a call names a URI, by its targets or by its reference. -/
def CallOutcome.Names (u : Universe) (o : CallOutcome) (uri : String) : Prop :=
  match o.resolution with
  | .dropped => False
  | .resolved _ targets => ∃ t ∈ targets, ∃ n, u.nodes[t]? = some n ∧ n.uri = uri
  | .unresolved _ => o.call.callee = uri

namespace Universe

variable {u : Universe} {block : Nat} {kind : CallKind} {call : CallSite} {callee : MethodUri}
  {useHierarchy : Bool} {s : Strategy} {target : Gid}

/-- Whether a URI is that of a method with a signature which a type declares with a body,
of a type that some contributor creates instances of. -/
def IsInstantiatedMethod (u : Universe) (signature uri : String) : Prop :=
  ∃ owner ∈ u.contributors, ∃ type decl, owner.typeDecl? type = some decl ∧
    decl.defines signature = true ∧
    (∃ c ∈ u.contributors, ∃ types, c.graph.instantiatedTypes = some types ∧ type ∈ types) ∧
    uri = MethodUri.qualify owner.coordinate s!"{type}.{signature}"

theorem isInstantiated_iff {type : String} : u.isInstantiated type = true ↔
    ∃ c ∈ u.contributors, ∃ types, c.graph.instantiatedTypes = some types ∧ type ∈ types := by
  simp [isInstantiated, Option.any_eq_true]

theorem isInstantiatedMethod_of_concrete? (h : u.symbols.IsDense) {signature type : String}
    (hconcrete : u.concrete? block .rtaLike signature type = some target) :
    ∃ n, u.nodes[target]? = some n ∧ u.IsInstantiatedMethod signature n.uri := by
  obtain ⟨hinstantiated, hconcrete⟩ := concrete?_rtaLike_eq_some_iff.1 hconcrete
  obtain ⟨⟨i, decl⟩, hdeclaration, hmethod⟩ := Option.bind_eq_some_iff.1 hconcrete
  obtain ⟨hdefines, hmethod⟩ := Option.ite_none_right_eq_some.1 hmethod
  obtain ⟨owner, howner, hlook⟩ := Option.bind_eq_some_iff.1 hmethod
  obtain ⟨n, hn, huri⟩ := getElem?_nodes_of_lookup h hlook
  obtain ⟨-, owner', howner', hdecl⟩ := declaration?_eq_some_iff.1 hdeclaration
  cases howner.symm.trans howner'
  exact ⟨n, hn, owner, List.mem_of_getElem? howner, type, decl, hdecl,
    (Bool.and_eq_true_iff.1 hdefines).1, isInstantiated_iff.1 hinstantiated, huri⟩

/-- A virtual or interface call of a local reference leads to what some receiver runs. -/
theorem mem_dispatchedTargets_of_mem_leadsTo (h : u.IsBlocked) (hkind : call.kind.isDispatched)
    (hcallee : MethodUri.ofText call.callee = .ok callee) (hlocal : callee.isGlobal = false)
    (ht : target ∈ u.leadsTo block call useHierarchy s) :
    target ∈ u.dispatchedTargets block callee call.kind s := by
  by_cases hwalks : Walks u block call useHierarchy s callee
  · rw [← targets_of_walks hcallee hwalks, ← leadsTo_of_targets_ne_nil]
    · exact ht
    · rw [targets_of_walks hcallee hwalks]
      exact hwalks.2.2
  · -- Nothing is looked up, and no method has the reference as its URI.
    have hdynamic := CallKind.ne_dynamic_of_isDispatched hkind
    have htargets : u.targets block call useHierarchy s = [] := by
      rw [targets_of_not_walks hdynamic hcallee hwalks, named?]
      simp [hkind, hlocal]
    rw [leadsTo_of_targets_eq_nil htargets, Option.mem_toList] at ht
    rw [isGlobal_of_lookup h ht hcallee] at hlocal
    cases hlocal

/-- **A filtered call of a local reference leads to methods of instantiated types only.** -/
theorem mem_leadsTo_isInstantiatedMethod (h : u.IsBlocked) (hkind : call.kind.isDispatched)
    (hcallee : MethodUri.ofText call.callee = .ok callee) (hlocal : callee.isGlobal = false)
    (ht : target ∈ u.leadsTo block call useHierarchy .rtaLike) :
    ∃ n, u.nodes[target]? = some n ∧ u.IsInstantiatedMethod callee.signature n.uri := by
  obtain ⟨receiver, -, hnearest⟩ := mem_dispatchedTargets_iff.1
    (mem_dispatchedTargets_of_mem_leadsTo h hkind hcallee hlocal ht)
  obtain ⟨type, -, hconcrete⟩ := List.exists_of_findSome?_eq_some hnearest
  exact isInstantiatedMethod_of_concrete? h.isDense hconcrete

end Universe

namespace Merge

open Universe

variable {o : MergeOptions} {deep : Bool} {base : PartialGraph} {dependencies : List PartialGraph}
  {m m' : Merged} {u : Universe} {c : CallOutcome} {e : Edge}

/-- What a call adds between nodes of the universe, its outcome links. -/
theorem links_of_contributes (hu : u.symbols.IsDense) {g : MergedGraph} (h : IsLaidOut u g)
    (hc : c.Contributes g e) (htarget : e.target < u.nodes.length) : c.Links u e := by
  rw [CallOutcome.Contributes] at hc
  rw [CallOutcome.Links]
  cases hres : c.resolution with
  | dropped =>
    rw [hres] at hc
    exact hc
  | resolved caller targets =>
    rw [hres] at hc
    exact hc
  | unresolved caller =>
    rw [hres] at hc
    obtain ⟨hsource, n, hn, huri⟩ := hc
    rw [h.getElem?_eq htarget, nodes, List.getElem?_map] at hn
    obtain ⟨method, hmethod, rfl⟩ := Option.map_eq_some_iff.1 hn
    exact ⟨hsource, hu.lookup_eq_some_iff.2 ⟨method, hmethod, huri⟩⟩

/-- The nodes that a call leads to are those that its outcome names, in whatever merge. -/
theorem reaches_iff_names (hm : merge o base dependencies = .ok m)
    (hc : c ∈ calls o (build base dependencies)) {uri : String} :
    c.Reaches m.graph uri ↔ c.Names (build base dependencies) uri := by
  have hlaid := (isAssembled_of_merge hm).toIsLaidOut
  have hwithin := isWithin_of_mem_calls (isDense_build base dependencies) hc
  rw [CallOutcome.Names]
  cases hres : c.resolution with
  | dropped =>
    refine iff_of_false ?_ id
    rintro ⟨e, n, hadds, -⟩
    rw [CallOutcome.Contributes, hres] at hadds
    exact hadds
  | resolved caller targets =>
    rw [hres] at hwithin
    constructor
    · rintro ⟨e, n, hadds, hn, huri⟩
      rw [CallOutcome.Contributes, hres] at hadds
      exact ⟨e.target, hadds.2, n, hlaid.getElem?_eq (hwithin.2 _ hadds.2) ▸ hn, huri⟩
    · rintro ⟨t, ht, n, hn, huri⟩
      refine ⟨⟨caller, t⟩, n, ?_, (hlaid.getElem?_eq (hwithin.2 _ ht)).trans hn, huri⟩
      rw [CallOutcome.Contributes, hres]
      exact ⟨rfl, ht⟩
  | unresolved caller =>
    have hnode : ∀ e, c.Contributes m.graph e →
        ∃ n, m.graph.nodes[e.target]? = some n ∧ n.uri = c.call.callee := by
      intro e hadds
      rw [CallOutcome.Contributes, hres] at hadds
      exact hadds.2
    constructor
    · rintro ⟨e, n, hadds, hn, huri⟩
      obtain ⟨n', hn', huri'⟩ := hnode e hadds
      cases hn.symm.trans hn'
      exact huri'.symm.trans huri
    · intro huri
      -- Some node stands for the reference.
      obtain ⟨e, hadds, -⟩ := exists_contributes hm hc (by simp [hres])
      obtain ⟨n, hn, huri'⟩ := hnode e hadds
      exact ⟨e, n, hadds, hn, huri'.trans huri⟩

/-- Without data about instantiated types a contributor's calls have the outcomes that they
have if nothing is filtered. -/
theorem outcome_rtaLike_eq {site : (Contributor × Nat) × CallSite}
    (h : site.1.1.graph.instantiatedTypes = none) :
    outcome .rtaLike u site = outcome .cha u site := by
  rw [outcome, forContributor_rtaLike, h]
  rfl

/-- How the merge that filters by instantiated types compares with the one that does not. -/
structure IsFiltered (deep : Bool) (base : PartialGraph) (dependencies : List PartialGraph)
    (m unfiltered : Merged) : Prop where
  /-- What a contributor with the data calls, virtually and by a local reference, are methods
  of instantiated types, or else a placeholder. -/
  filtered : ∀ o ∈ calls ⟨.rtaLike, deep⟩ (build base dependencies), ∀ c,
    (build base dependencies).contributors[o.block]? = some c →
    c.graph.instantiatedTypes.isSome = true → o.call.kind.isDispatched = true →
    ∀ callee, MethodUri.ofText o.call.callee = .ok callee → callee.isGlobal = false →
    ∀ e n, o.Contributes m.graph e → (e.target, n) ∈ m.graph.numbered → n.isInternal = true →
      (build base dependencies).IsInstantiatedMethod callee.signature n.uri
  /-- The calls of a contributor without the data have the outcomes that they have without the
  filter, and lead to the same nodes; the contributor is reported. -/
  fallsBack : ∀ (i : Nat) o c, (calls ⟨.rtaLike, deep⟩ (build base dependencies))[i]? = some o →
    (build base dependencies).contributors[o.block]? = some c →
    c.graph.instantiatedTypes = none →
      (calls ⟨.cha, deep⟩ (build base dependencies))[i]? = some o ∧
      (∀ uri, o.Reaches m.graph uri ↔ o.Reaches unfiltered.graph uri) ∧
      c.coordinate.text ∈ m.report.rtaFallbacks
  /-- Contributors are reported for this reason only. -/
  rtaFallbacks : m.report.rtaFallbacks =
    (((resolvedBlocks ⟨.rtaLike, deep⟩ (build base dependencies)).map (·.1)).filter
      (·.graph.instantiatedTypes.isNone)).map (·.coordinate.text)
  /-- Without any data nothing is filtered. -/
  eq_of_none : (∀ p ∈ resolvedBlocks ⟨.rtaLike, deep⟩ (build base dependencies),
    p.1.graph.instantiatedTypes = none) → m.graph = unfiltered.graph

section Run

variable (hm : merge ⟨.rtaLike, deep⟩ base dependencies = .ok m)
include hm

theorem isInstantiatedMethod_of_contributes
    (hc : c ∈ calls ⟨.rtaLike, deep⟩ (build base dependencies)) {contributor : Contributor}
    (hcontributor : (build base dependencies).contributors[c.block]? = some contributor)
    (hdata : contributor.graph.instantiatedTypes.isSome = true)
    (hkind : c.call.kind.isDispatched = true) {callee : MethodUri}
    (hcallee : MethodUri.ofText c.call.callee = .ok callee) (hlocal : callee.isGlobal = false)
    (hadds : c.Contributes m.graph e) {n : Node}
    (hn : (build base dependencies).nodes[e.target]? = some n) :
    (build base dependencies).IsInstantiatedMethod callee.signature n.uri := by
  have hlinks := links_of_contributes (isDense_build base dependencies)
    (isAssembled_of_merge hm).toIsLaidOut hadds (List.getElem?_eq_some_iff.1 hn).1
  rw [calls_eq_map] at hc
  obtain ⟨site, hsite, rfl⟩ := List.mem_map.1 hc
  cases hcontributor.symm.trans (getElem?_of_mem_sites hsite)
  obtain ⟨-, hleads⟩ := links_outcome_iff.1 hlinks
  rw [forContributor_rtaLike, if_pos hdata] at hleads
  obtain ⟨n', hn', hmethod⟩ := mem_leadsTo_isInstantiatedMethod
    (isBlocked_build base dependencies) hkind hcallee hlocal hleads
  cases hn.symm.trans hn'
  exact hmethod

theorem rtaFallbacks_eq : m.report.rtaFallbacks =
    (((resolvedBlocks ⟨.rtaLike, deep⟩ (build base dependencies)).map (·.1)).filter
      (·.graph.instantiatedTypes.isNone)).map (·.coordinate.text) := by
  rw [(merge_eq_ok_iff.1 hm).2, report]
  refine congrArg (List.map _) (List.filter_congr fun contributor _ => ?_)
  rw [forContributor_rtaLike]
  cases contributor.graph.instantiatedTypes <;> simp

variable (hm' : merge ⟨.cha, deep⟩ base dependencies = .ok m')
include hm'

theorem fallsBack_of_none {i : Nat}
    (hi : (calls ⟨.rtaLike, deep⟩ (build base dependencies))[i]? = some c)
    {contributor : Contributor}
    (hcontributor : (build base dependencies).contributors[c.block]? = some contributor)
    (hnone : contributor.graph.instantiatedTypes = none) :
    (calls ⟨.cha, deep⟩ (build base dependencies))[i]? = some c ∧
      (∀ uri, c.Reaches m.graph uri ↔ c.Reaches m'.graph uri) ∧
      contributor.coordinate.text ∈ m.report.rtaFallbacks := by
  have hc := List.mem_of_getElem? hi
  rw [calls_eq_map, List.getElem?_map, Option.map_eq_some_iff] at hi
  obtain ⟨site, hsite, rfl⟩ := hi
  have hmem := List.mem_of_getElem? hsite
  cases hcontributor.symm.trans (getElem?_of_mem_sites hmem)
  have hi' : (calls ⟨.cha, deep⟩ (build base dependencies))[i]? =
      some (outcome .rtaLike (build base dependencies) site) := by
    rw [calls_eq_map, List.getElem?_map, outcome_rtaLike_eq hnone]
    exact Option.map_eq_some_iff.2 ⟨site, hsite, rfl⟩
  refine ⟨hi', fun uri => ?_, ?_⟩
  · rw [reaches_iff_names hm hc, reaches_iff_names hm' (List.mem_of_getElem? hi')]
  · rw [rtaFallbacks_eq hm]
    have hblock := mem_resolvedBlocks_of_mem_sites hmem
    exact List.mem_map_of_mem
      (List.mem_filter.2 ⟨List.mem_map_of_mem hblock, Option.isNone_iff_eq_none.2 hnone⟩)

theorem graph_eq_of_none
    (hnone : ∀ p ∈ resolvedBlocks ⟨.rtaLike, deep⟩ (build base dependencies),
      p.1.graph.instantiatedTypes = none) : m.graph = m'.graph := by
  have hcalls : calls ⟨.rtaLike, deep⟩ (build base dependencies) =
      calls ⟨.cha, deep⟩ (build base dependencies) := by
    rw [calls_eq_map, calls_eq_map]
    exact List.map_congr_left fun site hsite =>
      outcome_rtaLike_eq (hnone _ (mem_resolvedBlocks_of_mem_sites hsite))
  have hfold := (merge_eq_ok_iff.1 hm).1
  rw [hcalls, (merge_eq_ok_iff.1 hm').1] at hfold
  exact (Except.ok.inj hfold).symm

end Run

/-- **Filtering is per contributor.**  With and without the filter a merge succeeds.  A
contributor that lists instantiated types calls methods of instantiated types only, any other
contributor calls what it calls without the filter and is reported. -/
theorem merge_isFiltered (deep : Bool) (base : PartialGraph) (dependencies : List PartialGraph) :
    ∃ m m', merge ⟨.rtaLike, deep⟩ base dependencies = .ok m ∧
      merge ⟨.cha, deep⟩ base dependencies = .ok m' ∧
      IsFiltered deep base dependencies m m' := by
  obtain ⟨m, hm, hassembled⟩ := exists_merge_ok ⟨.rtaLike, deep⟩ base dependencies
  obtain ⟨m', hm', -⟩ := exists_merge_ok ⟨.cha, deep⟩ base dependencies
  refine ⟨m, m', hm, hm', ?_, ?_, rtaFallbacks_eq hm, graph_eq_of_none hm hm'⟩
  · intro c hc contributor hcontributor hdata hkind callee hcallee hlocal e n hadds hn hinternal
    have hnode := (hassembled.isStitched.internal_iff _ _).1 ⟨hn, hinternal⟩
    exact isInstantiatedMethod_of_contributes hm hc hcontributor hdata hkind hcallee hlocal hadds
      hnode
  · intro i c contributor hi hcontributor hnone
    exact fallsBack_of_none hm hm' hi hcontributor hnone

/-- A dependency that knows no instantiated types and makes the call of `overriding`, too. -/
def unaware : PartialGraph where
  revision := ⟨⟨"mvn", ⟨"org", "lib"⟩, "1"⟩, 1⟩
  hierarchy := some (.ofList [("/q/Main", { methods := ["go()V"] })])
  internalNodes := ["/q/Main.go()V"]
  calls := [⟨"/q/Main.go()V", "/p/B.m()V", .virtual⟩]

theorem resolve_unaware {block : Nat} {caller : String} {s : Strategy} (gid target : Gid)
    (hcaller : ((add {} overriding).add unaware).method? block caller = some gid)
    (hlineage : Search.runWithin ((add {} overriding).add unaware).types
      (((add {} overriding).add unaware).parents block .virtual) 2 [("/p/B", 0)] [("/p/B", 0)] =
        some [("/p/B", 0), ("/p/A", 1)])
    (htarget : ["/p/B", "/p/A"].findSome?
      (((add {} overriding).add unaware).concrete? block s "m()V") = some target) :
    ((add {} overriding).add unaware).resolve block ⟨caller, "/p/B.m()V", .virtual⟩ true s =
      .resolved gid [target] := by
  have hcallee : MethodUri.ofText "/p/B.m()V" = .ok ⟨none, "p", "B", "m()V"⟩ := by decide +kernel
  exact resolve_eq_of_walk _ [("/p/B", 0), ("/p/A", 1)] hcaller hcallee rfl (by decide +kernel)
    hlineage htarget

/-- Only the call of the contributor that lists instantiated types is filtered. -/
theorem calls_unaware :
    calls ⟨.rtaLike, true⟩ (build overriding [unaware]) =
        [⟨0, ⟨"/p/Main.run()V", "/p/B.m()V", .virtual⟩, .resolved 0 [1]⟩,
          ⟨1, ⟨"/q/Main.go()V", "/p/B.m()V", .virtual⟩, .resolved 3 [2]⟩] ∧
      calls ⟨.cha, true⟩ (build overriding [unaware]) =
        [⟨0, ⟨"/p/Main.run()V", "/p/B.m()V", .virtual⟩, .resolved 0 [2]⟩,
          ⟨1, ⟨"/q/Main.go()V", "/p/B.m()V", .virtual⟩, .resolved 3 [2]⟩] := by
  rw [build_singleton]
  have hcalls : ∀ s, calls ⟨s, true⟩ ((add {} overriding).add unaware) =
      [⟨0, ⟨"/p/Main.run()V", "/p/B.m()V", .virtual⟩,
          ((add {} overriding).add unaware).resolve 0 ⟨"/p/Main.run()V", "/p/B.m()V", .virtual⟩
            true (s.forGraph overriding)⟩,
        ⟨1, ⟨"/q/Main.go()V", "/p/B.m()V", .virtual⟩,
          ((add {} overriding).add unaware).resolve 1 ⟨"/q/Main.go()V", "/p/B.m()V", .virtual⟩
            true (s.forGraph unaware)⟩] := fun _ => rfl
  constructor
  · rw [hcalls, resolve_unaware 0 1 (by decide +kernel) (by decide +kernel)
      (by decide +kernel), resolve_unaware 3 2 (by decide +kernel)
      (by decide +kernel) (by decide +kernel)]
  · rw [hcalls, resolve_unaware 0 2 (by decide +kernel) (by decide +kernel)
      (by decide +kernel), resolve_unaware 3 2 (by decide +kernel)
      (by decide +kernel) (by decide +kernel)]

theorem merge_isFiltered_unaware :
    ∃ m m', merge ⟨.rtaLike, true⟩ overriding [unaware] = .ok m ∧
      merge ⟨.cha, true⟩ overriding [unaware] = .ok m' ∧
      m.graph.edges = [⟨0, 1⟩, ⟨3, 2⟩] ∧ m'.graph.edges = [⟨0, 2⟩, ⟨3, 2⟩] ∧
      m.report.rtaFallbacks = ["org:lib:1"] ∧
      (build overriding [unaware]).IsInstantiatedMethod "m()V"
        "fasten://mvn!org:app$1/p/A.m()V" := by
  obtain ⟨m, m', hm, hm', h⟩ := merge_isFiltered true overriding [unaware]
  have hgraph := graph_eq_assembled hm
  rw [calls_unaware.1, build_singleton] at hgraph
  refine ⟨m, m', hm, hm', ?_, ?_, ?_, ?_⟩
  · rw [hgraph]
    decide +kernel
  · rw [graph_eq_assembled hm', calls_unaware.2, build_singleton]
    decide +kernel
  · rw [h.rtaFallbacks, build_singleton]
    decide +kernel
  · -- This is what the call of the contributor with the data reaches.
    have hcallee : MethodUri.ofText "/p/B.m()V" = .ok ⟨none, "p", "B", "m()V"⟩ := by
      decide +kernel
    have hnode : (1, ⟨"fasten://mvn!org:app$1/p/A.m()V", "/p/A", true⟩) ∈ m.graph.numbered := by
      rw [hgraph]
      decide +kernel
    refine h.filtered ⟨0, ⟨"/p/Main.run()V", "/p/B.m()V", .virtual⟩, .resolved 0 [1]⟩ ?_
      ⟨overriding, 0, 3⟩ ?_ rfl rfl _ hcallee rfl ⟨0, 1⟩ _ ⟨rfl, List.mem_singleton_self _⟩
      hnode rfl
    · rw [calls_unaware.1]
      exact List.mem_cons_self
    · rw [build_singleton]
      rfl

end Merge

end Stitch
