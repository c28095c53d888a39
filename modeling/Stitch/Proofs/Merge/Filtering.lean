/-
What filtering by instantiated types adds.

Class hierarchy analysis takes from each receiver the nearest method.  Filtering passes
over the methods of types that nobody creates instances of, so that a walk which ends at
all may end further away (`nearest?_cha_or_isPassedOver`), or end nowhere.  A call is
therefore rerouted (`IsRerouted`) to a method that it does not reach without the filter

* if every walk to that method passes over a nearer one;
* if all its walks pass over methods and end nowhere, so that its global reference is
  looked up; or so that it goes to the node that is called as its reference is spelled.

Every other call keeps its targets among those without the filter
(`mem_leadsTo_cha_or_isRerouted`).  Main statement: **`mem_edges_cha_or_isAdded`**, that
every edge between methods which the filtered graph has and the other one lacks comes
from rerouted calls only; `missingCalls_overriding` is a merge that has such an edge.
-/
import Stitch.Proofs.Merge.Blocks
import Stitch.Proofs.Merge.Survival

namespace Stitch

namespace Universe

variable {u : Universe} {block : Nat} {kind : CallKind} {s : Strategy}
  {signature type receiver : String} {target : Gid}

/-! ### Walks -/

/-- Filtering looks at no other methods than those of instantiated types. -/
theorem concrete?_rtaLike : u.concrete? block .rtaLike signature type =
    if u.isInstantiated type then u.concrete? block .cha signature type else none := by
  rw [concrete?, concrete?]
  cases u.declaration? type block with
  | none => simp
  | some d =>
    obtain ⟨owner, decl⟩ := d
    cases hinstantiated : u.isInstantiated type <;> simp [Strategy.accepts, hinstantiated]

theorem concrete?_rtaLike_eq_some_iff : u.concrete? block .rtaLike signature type = some target ↔
    u.isInstantiated type = true ∧ u.concrete? block .cha signature type = some target := by
  rw [concrete?_rtaLike, Option.ite_none_right_eq_some]

/-- The walk from a receiver ends at the method of an instantiated type.  Before that type
it passes over the method of a type without instances, the nearest one of all. -/
def IsPassedOver (u : Universe) (block : Nat) (kind : CallKind) (signature receiver : String)
    (target : Gid) : Prop :=
  ∃ before type after, u.lineage block kind receiver = before ++ type :: after ∧
    u.isInstantiated type = true ∧ u.concrete? block .cha signature type = some target ∧
    ∃ nearer ∈ before, u.isInstantiated nearer = false ∧
      ∃ other, u.concrete? block .cha signature nearer = some other ∧
        u.nearest? block kind .cha signature receiver = some other ∧ other ≠ target

/-- **A walk that ends in spite of the filter** ends there without it, or has passed over a
nearer method. -/
theorem nearest?_cha_or_isPassedOver
    (h : u.nearest? block kind .rtaLike signature receiver = some target) :
    u.nearest? block kind .cha signature receiver = some target ∨
      u.IsPassedOver block kind signature receiver target := by
  obtain ⟨before, type, after, hlineage, hconcrete, hnone⟩ := List.findSome?_eq_some_iff.1 h
  obtain ⟨hinstantiated, hconcrete⟩ := concrete?_rtaLike_eq_some_iff.1 hconcrete
  have hnearest : u.nearest? block kind .cha signature receiver =
      (before.findSome? (u.concrete? block .cha signature)).or (some target) := by
    rw [nearest?, hlineage, List.findSome?_append, List.findSome?_cons, hconcrete]
  cases hbefore : before.findSome? (u.concrete? block .cha signature) with
  | none => exact .inl (by rw [hnearest, hbefore, Option.none_or])
  | some other =>
    rw [hbefore, Option.some_or] at hnearest
    by_cases heq : other = target
    · exact .inl (heq ▸ hnearest)
    · obtain ⟨nearer, hnearer, hother⟩ := List.exists_of_findSome?_eq_some hbefore
      -- The filter has refused the nearer type, or the walk would have ended there.
      have hrefused : u.isInstantiated nearer = false := by
        by_contra haccepted
        rw [Bool.not_eq_false] at haccepted
        have := hnone nearer hnearer
        rw [concrete?_rtaLike_eq_some_iff.2 ⟨haccepted, hother⟩] at this
        cases this
      exact .inr ⟨before, type, after, hlineage, hinstantiated, hconcrete, nearer, hnearer,
        hrefused, other, hother, hnearest, heq⟩

/-- A method that some receiver runs in spite of the filter is run without it, or all walks
to it have passed over a nearer one. -/
theorem mem_dispatchedTargets_cha_or_isPassedOver {callee : MethodUri}
    (h : target ∈ u.dispatchedTargets block callee kind .rtaLike) :
    u.dispatchedTargets block callee kind .cha ≠ [] ∧
      (target ∈ u.dispatchedTargets block callee kind .cha ∨
        ∀ receiver ∈ u.receivers callee.typeUri,
          u.nearest? block kind .rtaLike callee.signature receiver = some target →
            u.IsPassedOver block kind callee.signature receiver target) := by
  constructor
  · obtain ⟨receiver, hreceiver, hnearest⟩ := mem_dispatchedTargets_iff.1 h
    rcases nearest?_cha_or_isPassedOver hnearest with hsame | hpassed
    · exact List.ne_nil_of_mem (mem_dispatchedTargets_iff.2 ⟨receiver, hreceiver, hsame⟩)
    · obtain ⟨_, _, _, _, _, _, _, _, _, other, _, hother, _⟩ := hpassed
      exact List.ne_nil_of_mem (mem_dispatchedTargets_iff.2 ⟨receiver, hreceiver, hother⟩)
  · by_cases hmem : target ∈ u.dispatchedTargets block callee kind .cha
    · exact .inl hmem
    · refine .inr fun receiver hreceiver hnearest => ?_
      exact (nearest?_cha_or_isPassedOver hnearest).resolve_left
        fun hsame => hmem (mem_dispatchedTargets_iff.2 ⟨receiver, hreceiver, hsame⟩)

/-! ### Calls -/

/-- A reference that is the URI of some method is global, if it can be read. -/
theorem isGlobal_of_lookup (h : u.IsBlocked) {reference : String} {callee : MethodUri}
    (hlook : u.symbols.lookup reference = some target)
    (hcallee : MethodUri.ofText reference = .ok callee) : callee.isGlobal = true := by
  obtain ⟨method, hmethod, rfl⟩ := h.isDense.lookup_eq_some_iff.1 hlook
  obtain ⟨c, -, -, -, huri⟩ := h.exists_owner _ _ hmethod
  rw [huri] at hcallee
  exact MethodUri.isGlobal_of_ofText_qualify hcallee

/-- How filtering leads a call to a method that it may not lead to otherwise.  In each case
some walk of the call ends if nothing is filtered. -/
inductive IsRerouted (u : Universe) (block : Nat) (call : CallSite) (useHierarchy : Bool)
    (target : Gid) : Prop where
  /-- All walks that end at the method pass over a nearer one. -/
  | passedOver {callee : MethodUri} (hcallee : MethodUri.ofText call.callee = .ok callee)
      (hwalks : Walks u block call useHierarchy .rtaLike callee)
      (hmem : target ∈ u.dispatchedTargets block callee call.kind .rtaLike)
      (hall : ∀ receiver ∈ u.receivers callee.typeUri,
        u.nearest? block call.kind .rtaLike callee.signature receiver = some target →
          u.IsPassedOver block call.kind callee.signature receiver target)
  /-- No walk ends, so that the global reference is looked up. -/
  | lookedUp {callee : MethodUri} (hcallee : MethodUri.ofText call.callee = .ok callee)
      (hglobal : callee.isGlobal = true)
      (hnone : ¬Walks u block call useHierarchy .rtaLike callee)
      (hlook : u.symbols.lookup callee.text = some target)
      (hwalks : Walks u block call useHierarchy .cha callee)
  /-- No walk ends and the look-up finds nothing, but the reference as it stands, with the
  blanks around it, is the URI of the method. -/
  | respelled {callee : MethodUri} (hcallee : MethodUri.ofText call.callee = .ok callee)
      (hglobal : callee.isGlobal = true) (hspelling : callee.text ≠ call.callee)
      (hnone : u.targets block call useHierarchy .rtaLike = [])
      (hlook : u.symbols.lookup call.callee = some target)
      (hwalks : Walks u block call useHierarchy .cha callee)

variable {call : CallSite} {callee : MethodUri} {useHierarchy : Bool}

theorem Walks.cha (h : Walks u block call useHierarchy .rtaLike callee) :
    Walks u block call useHierarchy .cha callee := by
  obtain ⟨hkind, hhierarchy, hne⟩ := h
  obtain ⟨target, htarget⟩ := List.exists_mem_of_ne_nil _ hne
  exact ⟨hkind, hhierarchy, (mem_dispatchedTargets_cha_or_isPassedOver htarget).1⟩

theorem IsRerouted.leadsTo_ne_nil (h : u.IsRerouted block call useHierarchy target) :
    u.leadsTo block call useHierarchy .cha ≠ [] := by
  obtain ⟨callee, hcallee, hwalks⟩ : ∃ callee, MethodUri.ofText call.callee = .ok callee ∧
      Walks u block call useHierarchy .cha callee := by
    cases h with
    | passedOver hcallee hwalks => exact ⟨_, hcallee, hwalks.cha⟩
    | lookedUp hcallee _ _ _ hwalks => exact ⟨_, hcallee, hwalks⟩
    | respelled hcallee _ _ _ _ hwalks => exact ⟨_, hcallee, hwalks⟩
  have htargets := targets_of_walks hcallee hwalks
  have hne : u.targets block call useHierarchy .cha ≠ [] := by
    rw [htargets]
    exact hwalks.2.2
  rw [leadsTo_of_targets_ne_nil hne]
  exact hne

/-- Where filtering stops all walks of a call, what is left is its reference. -/
theorem isRerouted_of_not_walks (h : u.IsBlocked) (hdynamic : call.kind ≠ .dynamic)
    (hcallee : MethodUri.ofText call.callee = .ok callee)
    (hnone : ¬Walks u block call useHierarchy .rtaLike callee)
    (hwalks : Walks u block call useHierarchy .cha callee)
    (ht : target ∈ u.leadsTo block call useHierarchy .rtaLike) :
    u.IsRerouted block call useHierarchy target := by
  have htargets := targets_of_not_walks hdynamic hcallee hnone
  have hnamed : u.named? block call.kind callee =
      if callee.isGlobal then u.symbols.lookup callee.text else none := by
    rw [named?, hwalks.1, exactTarget?]
    cases callee.isGlobal <;> simp
  cases hname : u.named? block call.kind callee with
  | none =>
    rw [hname, Option.toList_none] at htargets
    rw [leadsTo_of_targets_eq_nil htargets, Option.mem_toList] at ht
    have hglobal := isGlobal_of_lookup h ht hcallee
    refine .respelled hcallee hglobal (fun hspelling => ?_) htargets ht hwalks
    rw [hnamed, if_pos hglobal, hspelling, ht] at hname
    cases hname
  | some gid =>
    rw [hname, Option.toList_some] at htargets
    rw [leadsTo_of_targets_ne_nil (by simp [htargets]), htargets, List.mem_singleton] at ht
    rw [hnamed, Option.ite_none_right_eq_some, ← ht] at hname
    exact .lookedUp hcallee hname.1 hnone hname.2 hwalks

/-- A call leads to what it leads to without the filter, or it is rerouted. -/
theorem mem_leadsTo_cha_or_isRerouted (h : u.IsBlocked)
    (ht : target ∈ u.leadsTo block call useHierarchy .rtaLike) :
    target ∈ u.leadsTo block call useHierarchy .cha ∨
      u.IsRerouted block call useHierarchy target := by
  -- Calls that do not walk have the same targets with and without the filter.
  have hsame : u.targets block call useHierarchy .rtaLike =
      u.targets block call useHierarchy .cha →
        target ∈ u.leadsTo block call useHierarchy .cha := by
    intro heq
    rwa [leadsTo, heq, ← leadsTo] at ht
  by_cases hdynamic : call.kind = .dynamic
  · exact .inl (hsame (by rw [targets, targets, if_pos hdynamic, if_pos hdynamic]))
  cases hcallee : MethodUri.ofText call.callee with
  | error e => exact .inl (hsame (by rw [targets, targets, hcallee]))
  | ok callee =>
    by_cases hwalks : Walks u block call useHierarchy .rtaLike callee
    · have htargets := targets_of_walks hcallee hwalks
      rw [leadsTo_of_targets_ne_nil (by rw [htargets]; exact hwalks.2.2), htargets] at ht
      obtain ⟨hne, hmem | hall⟩ := mem_dispatchedTargets_cha_or_isPassedOver ht
      · have htargets' := targets_of_walks hcallee hwalks.cha
        rw [leadsTo_of_targets_ne_nil (by rw [htargets']; exact hne), htargets']
        exact .inl hmem
      · exact .inr (.passedOver hcallee hwalks ht hall)
    · by_cases hwalks' : Walks u block call useHierarchy .cha callee
      · exact .inr (isRerouted_of_not_walks h hdynamic hcallee hwalks hwalks' ht)
      · exact .inl (hsame (by rw [targets_of_not_walks hdynamic hcallee hwalks,
          targets_of_not_walks hdynamic hcallee hwalks']))

end Universe

/-! ### Graphs -/

namespace Merge

open Universe

/-- All calls from one method to another are rerouted there by the filter, and lead to other
methods in the graph that is made without it. -/
structure IsAdded (deep : Bool) (u : Universe) (unfiltered : MergedGraph) (e : Edge) : Prop where
  called : ∃ site ∈ sites ⟨.rtaLike, deep⟩ u, SiteLeads .rtaLike u site e
  rerouted : ∀ site ∈ sites ⟨.rtaLike, deep⟩ u, SiteLeads .rtaLike u site e →
    site.1.1.graph.instantiatedTypes.isSome = true ∧
      u.IsRerouted site.1.2 site.2 site.1.1.graph.hierarchy.isSome e.target
  led_elsewhere : ∀ site ∈ sites ⟨.rtaLike, deep⟩ u, SiteLeads .rtaLike u site e →
    ∃ other, other ≠ e.target ∧ SiteLeads .cha u site ⟨e.source, other⟩ ∧
      ⟨e.source, other⟩ ∈ unfiltered.edges

theorem forContributor_rtaLike (c : Contributor) : Strategy.rtaLike.forContributor c =
    if c.graph.instantiatedTypes.isSome then .rtaLike else .cha := by
  rw [Strategy.forContributor]
  cases hdata : c.graph.instantiatedTypes <;> simp [Strategy.needsInstantiationData]

/-- A call leads to what it leads to without the filter, or its contributor has the data for
filtering and it is rerouted. -/
theorem siteLeads_cha_or_isRerouted {u : Universe} (h : u.IsBlocked)
    {site : (Contributor × Nat) × CallSite} {e : Edge} (hleads : SiteLeads .rtaLike u site e) :
    SiteLeads .cha u site e ∨ site.1.1.graph.instantiatedTypes.isSome = true ∧
      u.IsRerouted site.1.2 site.2 site.1.1.graph.hierarchy.isSome e.target := by
  obtain ⟨hcaller, ht⟩ := hleads
  rw [forContributor_rtaLike] at ht
  split at ht
  next hdata =>
    exact (mem_leadsTo_cha_or_isRerouted h ht).imp (fun hmem => ⟨hcaller, hmem⟩)
      fun hrerouted => ⟨hdata, hrerouted⟩
  next => exact .inl ⟨hcaller, ht⟩

variable {deep : Bool} {base : PartialGraph} {dependencies : List PartialGraph} {m m' : Merged}
  {e : Edge}

theorem isAdded_of_not_mem_edges (hm : merge ⟨.rtaLike, deep⟩ base dependencies = .ok m)
    (hm' : merge ⟨.cha, deep⟩ base dependencies = .ok m') (he : e ∈ m.graph.edges)
    (htarget : e.target < (build base dependencies).nodes.length) (hnot : e ∉ m'.graph.edges) :
    IsAdded deep (build base dependencies) m'.graph e := by
  have hblocked := isBlocked_build base dependencies
  -- The calls are the same in both merges.
  have hlost : ∀ site ∈ sites ⟨.rtaLike, deep⟩ (build base dependencies),
      ¬SiteLeads .cha (build base dependencies) site e := fun site hsite hleads =>
    hnot (mem_edges_of_siteLeads hm' hsite hleads)
  have hrerouted : ∀ site ∈ sites ⟨.rtaLike, deep⟩ (build base dependencies),
      SiteLeads .rtaLike (build base dependencies) site e →
        site.1.1.graph.instantiatedTypes.isSome = true ∧ (build base dependencies).IsRerouted
          site.1.2 site.2 site.1.1.graph.hierarchy.isSome e.target := fun site hsite hleads =>
    (siteLeads_cha_or_isRerouted hblocked hleads).resolve_left (hlost site hsite)
  refine ⟨(mem_edges_iff_siteLeads hm htarget).1 he, hrerouted, fun site hsite hleads => ?_⟩
  obtain ⟨other, hother⟩ := List.exists_mem_of_ne_nil _
    (hrerouted site hsite hleads).2.leadsTo_ne_nil
  have hleads' : SiteLeads .cha (build base dependencies) site ⟨e.source, other⟩ :=
    ⟨hleads.1, hother⟩
  refine ⟨other, ?_, hleads', mem_edges_of_siteLeads hm' hsite hleads'⟩
  rintro rfl
  exact hlost site hsite hleads'

/-- **Filtering adds an edge only where it reroutes all calls behind it.**  With and without
the filter a merge succeeds and has the same internal nodes, at the same numbers; and every
edge between them that the filtered graph has, the other one has as well, or it is added. -/
theorem mem_edges_cha_or_isAdded (deep : Bool) (base : PartialGraph)
    (dependencies : List PartialGraph) :
    ∃ m m', merge ⟨.rtaLike, deep⟩ base dependencies = .ok m ∧
      merge ⟨.cha, deep⟩ base dependencies = .ok m' ∧
      (∀ gid n, (gid, n) ∈ m.graph.numbered ∧ n.isInternal ↔
        (gid, n) ∈ m'.graph.numbered ∧ n.isInternal) ∧
      ∀ e ∈ m.graph.edges, ∀ t, (e.target, t) ∈ m.graph.numbered → t.isInternal →
        (∃ s, (e.source, s) ∈ m.graph.numbered ∧ s.isInternal) ∧
          (e ∈ m'.graph.edges ∨ IsAdded deep (build base dependencies) m'.graph e) := by
  obtain ⟨m, hm, hassembled⟩ := exists_merge_ok ⟨.rtaLike, deep⟩ base dependencies
  obtain ⟨m', hm', hassembled'⟩ := exists_merge_ok ⟨.cha, deep⟩ base dependencies
  refine ⟨m, m', hm, hm', fun gid n => ?_, fun e he t ht hinternal => ⟨?_, ?_⟩⟩
  · rw [hassembled.isStitched.internal_iff, hassembled'.isStitched.internal_iff]
  · have hsource := hassembled.source_lt e he
    exact ⟨_, (hassembled.isStitched.internal_iff _ _).2 (List.getElem?_eq_getElem hsource)⟩
  · have htarget := (hassembled.isStitched.internal_iff _ _).1 ⟨ht, hinternal⟩
    by_cases hmem : e ∈ m'.graph.edges
    · exact .inl hmem
    · exact .inr (isAdded_of_not_mem_edges hm hm' he (List.getElem?_eq_some_iff.1 htarget).1 hmem)

/-- The call of a type's method, while only its supertype has instances, goes to the
supertype's method if it is filtered, and to the type's own if it is not. -/
theorem calls_overriding :
    calls ⟨.rtaLike, false⟩ (build overriding []) =
        [⟨0, ⟨"/p/Main.run()V", "/p/B.m()V", .virtual⟩, .resolved 0 [1]⟩] ∧
      calls ⟨.cha, false⟩ (build overriding []) =
        [⟨0, ⟨"/p/Main.run()V", "/p/B.m()V", .virtual⟩, .resolved 0 [2]⟩] := by
  rw [build_nil]
  exact ⟨calls_eq_of_walk ⟨none, "p", "B", "m()V"⟩ [("/p/B", 0), ("/p/A", 1)] rfl
      (by decide +kernel) (by decide +kernel) rfl (by decide +kernel) (by decide +kernel)
      (by decide +kernel),
    calls_eq_of_walk ⟨none, "p", "B", "m()V"⟩ [("/p/B", 0), ("/p/A", 1)] rfl
      (by decide +kernel) (by decide +kernel) rfl (by decide +kernel) (by decide +kernel)
      (by decide +kernel)⟩

theorem missingCalls_overriding :
    ∃ m m', merge ⟨.rtaLike, false⟩ overriding [] = .ok m ∧
      merge ⟨.cha, false⟩ overriding [] = .ok m' ∧
      missingCalls m.graph m'.graph =
        [("fasten://mvn!org:app$1/p/Main.run()V", "fasten://mvn!org:app$1/p/A.m()V")] := by
  obtain ⟨m, hm, -⟩ := exists_merge_ok ⟨.rtaLike, false⟩ overriding []
  obtain ⟨m', hm', -⟩ := exists_merge_ok ⟨.cha, false⟩ overriding []
  refine ⟨m, m', hm, hm', ?_⟩
  rw [graph_eq_assembled hm, graph_eq_assembled hm', calls_overriding.1, calls_overriding.2,
    build_nil]
  decide +kernel

theorem mem_edges_cha_or_isAdded_overriding :
    ∃ m m', merge ⟨.rtaLike, false⟩ overriding [] = .ok m ∧
      merge ⟨.cha, false⟩ overriding [] = .ok m' ∧ m.graph.edges = [⟨0, 1⟩] ∧
      m'.graph.edges = [⟨0, 2⟩] ∧ IsAdded false (build overriding []) m'.graph ⟨0, 1⟩ := by
  obtain ⟨m, m', hm, hm', -, hadded⟩ := mem_edges_cha_or_isAdded false overriding []
  have hgraph := graph_eq_assembled hm
  have hgraph' := graph_eq_assembled hm'
  rw [calls_overriding.1, build_nil] at hgraph
  rw [calls_overriding.2, build_nil] at hgraph'
  have hedges : m.graph.edges = [⟨0, 1⟩] := by
    rw [hgraph]
    decide +kernel
  have hedges' : m'.graph.edges = [⟨0, 2⟩] := by
    rw [hgraph']
    decide +kernel
  have htarget : (1, ⟨"fasten://mvn!org:app$1/p/A.m()V", "/p/A", true⟩) ∈ m.graph.numbered := by
    rw [hgraph]
    decide +kernel
  obtain ⟨-, hmem | hadded⟩ := hadded ⟨0, 1⟩ (by rw [hedges]; exact List.mem_singleton_self _) _
    htarget rfl
  · rw [hedges'] at hmem
    cases List.mem_singleton.1 hmem
  · exact ⟨m, m', hm, hm', hedges, hedges', hadded⟩

end Merge

end Stitch
