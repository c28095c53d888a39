/-
Which calls of a base survive a merge with dependencies.

Alone, a base leads its calls to its own methods.  Dependencies never take away
a static, special or dynamic call whose reference is written as URIs are.  What
they can do is to redirect a call (`IsRedirected`):

* a virtual or interface call, if from every receiver that ran the method the
  walk now ends nearer, at a type that the dependencies declare or instantiate;
* such a call by a global reference, if alone its walks ended nowhere;
* a call by a reference with blanks around it, if alone it resolved to nothing.

Wherever none of this happens a call leads to the method still
(`mem_leadsTo_or_isRedirected`), so that the calls which the check of merged
graphs finds missing are redirected ones:

* **`isTakenAway_of_mem_missingCalls`**.

For the check every missing call is an inconsistency, and a dependency that does no
more than instantiate a type is enough to make one (`missingCalls_instantiating`).
-/
import Stitch.Merge.Consistency
import Stitch.Proofs.Merge.Extension
import Stitch.Proofs.Merge.Links
import Stitch.Proofs.MethodUri

namespace Stitch

namespace Universe

variable {u v : Universe} {base : PartialGraph}

/-! ### A base alone -/

theorem length_alone_pos (base : PartialGraph) : 0 < (build base []).contributors.length := by
  obtain ⟨size, hcontributors⟩ := contributors_alone base
  rw [hcontributors]
  exact Nat.one_pos

/-- The URI of every method is that of a method of the base. -/
theorem uri_eq_qualify {s : Symbol} (h : s ∈ (build base []).symbols.symbols) :
    s.uri = MethodUri.qualify base.coordinate s.localUri := by
  obtain ⟨more, hmore, hregisters⟩ := exists_addMethods base.coordinate base.internalNodes {}
  have halone : (build base []).symbols =
      base.internalNodes.foldl (addMethod base.coordinate) {} := by
    rw [build_nil]
    rfl
  rw [halone, hmore] at h
  exact (hregisters s h).2

theorem method?_alone (localUri : String) : (build base []).method? 0 localUri =
    (build base []).symbols.lookup (MethodUri.qualify base.coordinate localUri) := by
  obtain ⟨size, hcontributors⟩ := contributors_alone base
  rw [method?, hcontributors]
  rfl

/-- Alone, a reference is looked up in the base and nowhere else. -/
theorem exactTarget?_alone (callee : MethodUri) : (build base []).exactTarget? 0 callee =
    if callee.isGlobal then (build base []).symbols.lookup callee.text
    else (build base []).method? 0 callee.localText := by
  rw [exactTarget?]
  refine ite_congr rfl (fun _ => rfl) fun _ => ?_
  cases hown : (build base []).method? 0 callee.localText with
  | some gid => rfl
  | none =>
    rw [Option.none_or, Option.or_eq_none_iff]
    constructor
    · -- Only the base can declare the type.
      obtain ⟨size, hcontributors⟩ := contributors_alone base
      refine List.findSome?_eq_none_iff.2 fun owner howner => ?_
      obtain ⟨⟨c, i⟩, hp, rfl⟩ := List.mem_map.1 howner
      have hi := List.mem_zipIdx_iff_getElem?.1 (List.mem_filter.1 hp).1
      rw [hcontributors] at hi
      obtain ⟨hlt, -⟩ := List.getElem?_eq_some_iff.1 hi
      have hzero : i = 0 := Nat.lt_one_iff.1 hlt
      rw [hzero, hown]
    · -- A method of that local URI would be the base's own.
      rw [SymbolIndex.lookupLocal, Option.map_eq_none_iff, List.find?_eq_none]
      intro s hs hlocal
      rw [method?_alone, SymbolIndex.lookup_eq_none_iff] at hown
      refine hown (List.mem_map.2 ⟨s, hs, ?_⟩)
      rw [uri_eq_qualify hs, eq_of_beq hlocal]

theorem exactTarget?_extends (h : (build base []).Extends v) {callee : MethodUri} {gid : Gid}
    (ht : (build base []).exactTarget? 0 callee = some gid) :
    v.exactTarget? 0 callee = some gid := by
  rw [exactTarget?_alone] at ht
  rw [exactTarget?]
  split at ht
  · next hglobal => rw [if_pos hglobal, h.lookup ht]
  · next hlocal => rw [if_neg hlocal, h.method? ht, Option.some_or]

/-! ### Targets of a call -/

section Targets

variable {block : Nat} {call : CallSite} {callee : MethodUri} {useHierarchy : Bool} {s : Strategy}

/-- Whether the walks of a call end at some method. -/
def Walks (u : Universe) (block : Nat) (call : CallSite) (useHierarchy : Bool) (s : Strategy)
    (callee : MethodUri) : Prop :=
  call.kind.isDispatched = true ∧ useHierarchy = true ∧
    u.dispatchedTargets block callee call.kind s ≠ []

/-- The method that the reference of a call names, as far as calls of its kind look it up. -/
def named? (u : Universe) (block : Nat) (kind : CallKind) (callee : MethodUri) : Option Gid :=
  if kind.isDispatched && !callee.isGlobal then none else u.exactTarget? block callee

theorem targets_of_walks (hcallee : MethodUri.ofText call.callee = .ok callee)
    (h : Walks u block call useHierarchy s callee) :
    u.targets block call useHierarchy s = u.dispatchedTargets block callee call.kind s := by
  obtain ⟨hkind, rfl, hne⟩ := h
  rw [targets, if_neg (CallKind.ne_dynamic_of_isDispatched hkind), hcallee]
  simp [uriTargets, hkind, hne]

theorem targets_of_not_walks (hdynamic : call.kind ≠ .dynamic)
    (hcallee : MethodUri.ofText call.callee = .ok callee)
    (h : ¬Walks u block call useHierarchy s callee) :
    u.targets block call useHierarchy s = (u.named? block call.kind callee).toList := by
  rw [targets, if_neg hdynamic, hcallee]
  dsimp only
  rw [uriTargets, named?]
  cases hkind : call.kind.isDispatched with
  | false => simp
  | true =>
    have hnone :
        (if useHierarchy then u.dispatchedTargets block callee call.kind s else []) = [] := by
      by_contra hne
      cases useHierarchy with
      | false => exact hne rfl
      | true => exact h ⟨hkind, rfl, hne⟩
    cases hglobal : callee.isGlobal <;> simp [hnone]

end Targets

/-- How a larger universe leads a call elsewhere than to a method that it led to. -/
inductive IsRedirected (u v : Universe) (block : Nat) (call : CallSite) (useHierarchy : Bool)
    (s : Strategy) (target : Gid) : Prop where
  /-- All walks that ended at the method are intercepted. -/
  | intercepted {callee : MethodUri} (hcallee : MethodUri.ofText call.callee = .ok callee)
      (hwalks : Walks u block call useHierarchy s callee)
      (hmem : target ∈ u.dispatchedTargets block callee call.kind s)
      (hall : ∀ receiver ∈ u.receivers callee.typeUri,
        u.nearest? block call.kind s callee.signature receiver = some target →
          IsIntercepted u v block call.kind s callee.signature receiver target)
  /-- No walk ended anywhere, so that the method was looked up, and now some walk does. -/
  | dispatched {callee : MethodUri} (hcallee : MethodUri.ofText call.callee = .ok callee)
      (hglobal : callee.isGlobal = true) (hnone : ¬Walks u block call useHierarchy s callee)
      (hlook : u.symbols.lookup callee.text = some target)
      (hwalks : Walks v block call useHierarchy s callee)
  /-- The reference is the URI of the method but is read as another one, without the blanks
  at its ends; that resolved to nothing, and now it resolves. -/
  | respelled {callee : MethodUri} (hcallee : MethodUri.ofText call.callee = .ok callee)
      (hspelling : callee.text ≠ call.callee)
      (hnone : u.targets block call useHierarchy s = [])
      (hlook : u.symbols.lookup call.callee = some target)
      (hsome : v.targets block call useHierarchy s ≠ [])

section Redirection

variable {call : CallSite} {callee : MethodUri} {useHierarchy : Bool} {s : Strategy} {target : Gid}

/-- A reference that is the URI of a method and is read as such resolves to the method. -/
theorem text_ne_of_targets_eq_nil (hdynamic : call.kind ≠ .dynamic)
    (hcallee : MethodUri.ofText call.callee = .ok callee)
    (hnone : (build base []).targets 0 call useHierarchy s = [])
    (hlook : (build base []).symbols.lookup call.callee = some target) :
    callee.text ≠ call.callee := by
  intro htext
  -- Only global references begin as the URIs of methods do.
  have hglobal : callee.isGlobal = true := by
    obtain ⟨method, hmethod, huri⟩ := (isDense_build base []).lookup_eq_some_iff.1 hlook
    rw [← huri, uri_eq_qualify (List.mem_of_getElem? hmethod)] at hcallee
    exact MethodUri.isGlobal_of_ofText_qualify hcallee
  by_cases hwalks : Walks (build base []) 0 call useHierarchy s callee
  · rw [targets_of_walks hcallee hwalks] at hnone
    exact hwalks.2.2 hnone
  · have hexact : (build base []).exactTarget? 0 callee = some target := by
      rw [exactTarget?_alone, if_pos hglobal, htext, hlook]
    rw [targets_of_not_walks hdynamic hcallee hwalks, named?, hexact, hglobal] at hnone
    simp at hnone

variable (h : (build base []).Extends v)
include h

/-- A method that the call names alone it names still. -/
theorem named?_extends (hnamed : (build base []).named? 0 call.kind callee = some target) :
    v.named? 0 call.kind callee = some target := by
  rw [named?, Option.ite_none_left_eq_some] at hnamed ⊢
  exact ⟨hnamed.1, exactTarget?_extends h hnamed.2⟩

theorem mem_leadsTo_or_isRedirected_of_walks (hcallee : MethodUri.ofText call.callee = .ok callee)
    (hwalks : Walks (build base []) 0 call useHierarchy s callee)
    (ht : target ∈ (build base []).leadsTo 0 call useHierarchy s) :
    target ∈ v.leadsTo 0 call useHierarchy s ∨
      IsRedirected (build base []) v 0 call useHierarchy s target := by
  have htargets := targets_of_walks hcallee hwalks
  rw [leadsTo_of_targets_ne_nil (by rw [htargets]; exact hwalks.2.2), htargets] at ht
  obtain ⟨hne, hmem | hall⟩ := h.mem_dispatchedTargets_or_isIntercepted (length_alone_pos base) ht
  · have hwalks' : Walks v 0 call useHierarchy s callee := ⟨hwalks.1, hwalks.2.1, hne⟩
    have htargets' := targets_of_walks hcallee hwalks'
    rw [leadsTo_of_targets_ne_nil (by rw [htargets']; exact hne), htargets']
    exact .inl hmem
  · exact .inr (.intercepted hcallee hwalks ht hall)

theorem mem_leadsTo_or_isRedirected_of_not_walks (hdynamic : call.kind ≠ .dynamic)
    (hcallee : MethodUri.ofText call.callee = .ok callee)
    (hwalks : ¬Walks (build base []) 0 call useHierarchy s callee)
    (ht : target ∈ (build base []).leadsTo 0 call useHierarchy s) :
    target ∈ v.leadsTo 0 call useHierarchy s ∨
      IsRedirected (build base []) v 0 call useHierarchy s target := by
  have htargets := targets_of_not_walks hdynamic hcallee hwalks
  cases hnamed : (build base []).named? 0 call.kind callee with
  | none =>
    -- Only its reference stands for the method: it does so still, unless it resolves now.
    rw [hnamed, Option.toList_none] at htargets
    rw [leadsTo_of_targets_eq_nil htargets, Option.mem_toList] at ht
    by_cases hnone : v.targets 0 call useHierarchy s = []
    · rw [leadsTo_of_targets_eq_nil hnone, Option.mem_toList]
      exact .inl (h.lookup ht)
    · exact .inr (.respelled hcallee (text_ne_of_targets_eq_nil hdynamic hcallee htargets ht)
        htargets ht hnone)
  | some gid =>
    rw [hnamed, Option.toList_some] at htargets
    rw [leadsTo_of_targets_ne_nil (by simp [htargets]), htargets, List.mem_singleton] at ht
    subst ht
    by_cases hwalks' : Walks v 0 call useHierarchy s callee
    · -- A call of a dispatched kind names a method only by a global reference.
      rw [named?, Option.ite_none_left_eq_some, hwalks'.1] at hnamed
      have hglobal : callee.isGlobal = true := by simpa using hnamed.1
      rw [exactTarget?_alone, if_pos hglobal] at hnamed
      exact .inr (.dispatched hcallee hglobal hwalks hnamed.2 hwalks')
    · have htargets' := targets_of_not_walks hdynamic hcallee hwalks'
      rw [named?_extends h hnamed, Option.toList_some] at htargets'
      rw [leadsTo_of_targets_ne_nil (by simp [htargets']), htargets']
      exact .inl (List.mem_singleton_self _)

/-- A call leads to what it led to alone, or it is redirected. -/
theorem mem_leadsTo_or_isRedirected (ht : target ∈ (build base []).leadsTo 0 call useHierarchy s) :
    target ∈ v.leadsTo 0 call useHierarchy s ∨
      IsRedirected (build base []) v 0 call useHierarchy s target := by
  -- Without a URI for a callee a call leads to what its reference is the URI of.
  have hunresolved : (∀ w : Universe, w.targets 0 call useHierarchy s = []) →
      target ∈ v.leadsTo 0 call useHierarchy s := by
    intro hnone
    rw [leadsTo_of_targets_eq_nil (hnone _), Option.mem_toList] at ht ⊢
    exact h.lookup ht
  by_cases hdynamic : call.kind = .dynamic
  · exact .inl (hunresolved fun _ => if_pos hdynamic)
  cases hcallee : MethodUri.ofText call.callee with
  | error e => exact .inl (hunresolved fun w => by rw [targets, if_neg hdynamic, hcallee])
  | ok callee =>
    by_cases hwalks : Walks (build base []) 0 call useHierarchy s callee
    · exact mem_leadsTo_or_isRedirected_of_walks h hcallee hwalks ht
    · exact mem_leadsTo_or_isRedirected_of_not_walks h hdynamic hcallee hwalks ht

/-- A redirected call leads somewhere. -/
theorem IsRedirected.leadsTo_ne_nil
    (hr : IsRedirected (build base []) v 0 call useHierarchy s target) :
    v.leadsTo 0 call useHierarchy s ≠ [] := by
  have hsome : v.targets 0 call useHierarchy s ≠ [] := by
    cases hr with
    | intercepted hcallee hwalks hmem hall =>
      have hne := (h.mem_dispatchedTargets_or_isIntercepted (length_alone_pos base) hmem).1
      rw [targets_of_walks hcallee ⟨hwalks.1, hwalks.2.1, hne⟩]
      exact hne
    | dispatched hcallee hglobal hnone hlook hwalks =>
      rw [targets_of_walks hcallee hwalks]
      exact hwalks.2.2
    | respelled hcallee hspelling hnone hlook hsome => exact hsome
  rw [leadsTo_of_targets_ne_nil hsome]
  exact hsome

end Redirection

end Universe

/-! ### Missing calls -/

section Pairs

variable {g g' : MergedGraph} {e : Edge} {s t : Node} {pair : String × String}

theorem ends?_eq_some_iff :
    g.ends? e = some (s, t) ↔ g.node? e.source = some s ∧ g.node? e.target = some t := by
  simp [MergedGraph.ends?, Option.bind_eq_some_iff]

theorem mem_uriPairs (he : e ∈ g.edges) (hends : g.ends? e = some (s, t)) :
    (s.uri, t.uri) ∈ g.uriPairs :=
  List.mem_map.2 ⟨(s, t), List.mem_filterMap.2 ⟨e, he, hends⟩, rfl⟩

theorem exists_of_mem_missingCalls (h : pair ∈ missingCalls g g') : pair ∉ g'.uriPairs ∧
    ∃ e ∈ g.edges, ∃ s t, g.ends? e = some (s, t) ∧ t.isInternal = true ∧
      pair = (s.uri, t.uri) := by
  obtain ⟨hpresent, hmissing⟩ := List.mem_filter.1 h
  obtain ⟨⟨s, t⟩, hmem, rfl⟩ := List.mem_map.1 hpresent
  obtain ⟨hmem, hinternal⟩ := List.mem_filter.1 hmem
  obtain ⟨e, he, hends⟩ := List.mem_filterMap.1 hmem
  exact ⟨by simpa using hmissing, e, he, s, t, hends, (Bool.and_eq_true_iff.1 hinternal).2, rfl⟩

end Pairs

/-- The strategy for the calls of a graph, wherever its block is. -/
def Strategy.forGraph (s : Strategy) (g : PartialGraph) : Strategy := s.forContributor ⟨g, 0, 0⟩

namespace Merge

open Universe

/-- Whether a call of the base leads from one method to another. -/
def Leads (o : MergeOptions) (base : PartialGraph) (u : Universe) (call : CallSite)
    (source target : Gid) : Prop :=
  u.method? 0 call.caller = some source ∧
    target ∈ u.leadsTo 0 call base.hierarchy.isSome (o.strategy.forGraph base)

/-- All calls from one method of the base to another are redirected by the
dependencies, and lead to other methods in the merged graph. -/
structure IsTakenAway (o : MergeOptions) (base : PartialGraph) (dependencies : List PartialGraph)
    (merged : MergedGraph) (source target : Gid) : Prop where
  called : ∃ call ∈ base.calls, Leads o base (build base []) call source target
  redirected : ∀ call ∈ base.calls, Leads o base (build base []) call source target →
    IsRedirected (build base []) (build base dependencies) 0 call base.hierarchy.isSome
      (o.strategy.forGraph base) target
  led_elsewhere : ∀ call ∈ base.calls, Leads o base (build base []) call source target →
    ∃ other, other ≠ target ∧ Leads o base (build base dependencies) call source other ∧
      ⟨source, other⟩ ∈ merged.edges

variable {o : MergeOptions} {base : PartialGraph} {dependencies : List PartialGraph} {m : Merged}

/-- The base comes first, so that its calls are resolved in any merge. -/
theorem mem_calls_of_mem_base {call : CallSite} (hcall : call ∈ base.calls) :
    ⟨0, call, (build base dependencies).resolve 0 call base.hierarchy.isSome
      (o.strategy.forGraph base)⟩ ∈ calls o (build base dependencies) := by
  obtain ⟨size, halone⟩ := contributors_alone base
  obtain ⟨more, hmore⟩ := (extends_build base dependencies).contributors_kept
  rw [halone] at hmore
  have hblock : ((⟨base, 0, size⟩ : Contributor), 0) ∈
      resolvedBlocks o (build base dependencies) := by
    rw [resolvedBlocks, ← hmore]
    split <;> exact List.mem_cons_self
  exact List.mem_flatMap.2 ⟨_, hblock, List.mem_map.2 ⟨call, hcall, rfl⟩⟩

theorem mem_edges_of_leads (hm : merge o base dependencies = .ok m) {call : CallSite}
    (hcall : call ∈ base.calls) {source target : Gid}
    (h : Leads o base (build base dependencies) call source target) :
    ⟨source, target⟩ ∈ m.graph.edges :=
  mem_edges_of_links hm (mem_calls_of_mem_base hcall) (links_iff_mem_leadsTo.2 h)

/-- Alone, all calls are calls of the base. -/
theorem exists_leads_of_mem_edges (hm : merge o base [] = .ok m) {e : Edge} (he : e ∈ m.graph.edges)
    (htarget : e.target < (build base []).nodes.length) :
    ∃ call ∈ base.calls, Leads o base (build base []) call e.source e.target := by
  obtain ⟨c, hc, hlinks⟩ := (mem_edges_iff_links hm htarget).1 he
  obtain ⟨size, halone⟩ := contributors_alone base
  have hblocks : resolvedBlocks o (build base []) = [(⟨base, 0, size⟩, 0)] := by
    rw [resolvedBlocks, halone]
    split <;> rfl
  rw [calls, hblocks, List.flatMap_singleton] at hc
  obtain ⟨call, hcall, rfl⟩ := List.mem_map.1 hc
  exact ⟨call, hcall, links_iff_mem_leadsTo.1 hlinks⟩

/-- A call of the base that the merged graph lacks is redirected wherever it is made. -/
theorem isTakenAway_of_not_mem_edges (hm : merge o base [] = .ok m) {m' : Merged}
    (hm' : merge o base dependencies = .ok m') {e : Edge} (he : e ∈ m.graph.edges)
    (htarget : e.target < (build base []).nodes.length) (hmissing : e ∉ m'.graph.edges) :
    IsTakenAway o base dependencies m'.graph e.source e.target := by
  have hextends := extends_build base dependencies
  have hlost : ∀ call ∈ base.calls, Leads o base (build base []) call e.source e.target →
      e.target ∉ (build base dependencies).leadsTo 0 call base.hierarchy.isSome
        (o.strategy.forGraph base) := fun call hcall hleads hmem =>
    hmissing (mem_edges_of_leads hm' hcall ⟨hextends.method? hleads.1, hmem⟩)
  have hredirected : ∀ call ∈ base.calls, Leads o base (build base []) call e.source e.target →
      IsRedirected (build base []) (build base dependencies) 0 call base.hierarchy.isSome
        (o.strategy.forGraph base) e.target := fun call hcall hleads =>
    (mem_leadsTo_or_isRedirected hextends hleads.2).resolve_left (hlost call hcall hleads)
  refine ⟨exists_leads_of_mem_edges hm he htarget, hredirected, fun call hcall hleads => ?_⟩
  obtain ⟨other, hother⟩ := List.exists_mem_of_ne_nil _
    ((hredirected call hcall hleads).leadsTo_ne_nil hextends)
  have hleads' : Leads o base (build base dependencies) call e.source other :=
    ⟨hextends.method? hleads.1, hother⟩
  refine ⟨other, ?_, hleads', mem_edges_of_leads hm' hcall hleads'⟩
  rintro rfl
  exact hlost call hcall hleads hother

/-- Nodes of the universe are found at their numbers, where these are places. -/
theorem IsLaidOut.node?_eq {u : Universe} {g : MergedGraph} (h : IsLaidOut u g) {gid : Gid}
    {n : Node} (hn : u.nodes[gid]? = some n) (hplace : MergedGraph.place gid = gid) :
    g.node? gid = some n := by
  rw [MergedGraph.node?, hplace, h.getElem?_eq (List.getElem?_eq_some_iff.1 hn).1, hn]

/-- **Calls that a merge takes away are redirected.**  Both merges succeed, and
each call between methods of the base that only the graph of the base alone has
is redirected by the dependencies, wherever it is made. -/
theorem isTakenAway_of_mem_missingCalls (o : MergeOptions) (base : PartialGraph)
    (dependencies : List PartialGraph) :
    ∃ m m', merge o base [] = .ok m ∧ merge o base dependencies = .ok m' ∧
      (m.graph.nodeCount < 4294967295 → ∀ pair ∈ missingCalls m.graph m'.graph,
        ∃ source target : Gid, ∃ s t : Node, (build base []).nodes[source]? = some s ∧
          (build base []).nodes[target]? = some t ∧ pair = (s.uri, t.uri) ∧
          IsTakenAway o base dependencies m'.graph source target) := by
  obtain ⟨m, hm, hassembled⟩ := exists_merge_ok o base []
  obtain ⟨m', hm', hassembled'⟩ := exists_merge_ok o base dependencies
  refine ⟨m, m', hm, hm', fun hsize pair hpair => ?_⟩
  obtain ⟨hmissing, e, he, s, t, hends, hinternal, rfl⟩ := exists_of_mem_missingCalls hpair
  obtain ⟨hs, ht⟩ := ends?_eq_some_iff.1 hends
  have hsource := hassembled.source_lt e he
  have htarget := hassembled.target_lt e he
  have hplace := MergedGraph.place_eq_self hsize (Nat.lt_of_lt_of_le hsource hassembled.length_le)
  have hplace' := MergedGraph.place_eq_self hsize htarget
  rw [MergedGraph.node?, hplace, hassembled.getElem?_eq hsource] at hs
  -- The target is internal, so it is a node of the base.
  rw [MergedGraph.node?, hplace'] at ht
  replace ht := (hassembled.isStitched.internal_iff _ _).1
    ⟨MergedGraph.mem_numbered_iff.2 ht, hinternal⟩
  refine ⟨e.source, e.target, s, t, hs, ht, rfl, isTakenAway_of_not_mem_edges hm hm' he
    (List.getElem?_eq_some_iff.1 ht).1 fun he' => hmissing (mem_uriPairs he' ?_)⟩
  have hextends := extends_build base dependencies
  exact ends?_eq_some_iff.2 ⟨hassembled'.node?_eq (hextends.getElem?_nodes hs) hplace,
    hassembled'.node?_eq (hextends.getElem?_nodes ht) hplace'⟩

/-! ### Two merges that take a call away -/

/-- A call whose only receiver is the declared type goes where its walk ends.  The
searches are short, so that they can be computed. -/
theorem resolve_eq_of_walk {u : Universe} {block : Nat} {call : CallSite} {s : Strategy}
    {caller target : Gid} (callee : MethodUri) (types : List (String × Nat))
    (hcaller : u.method? block call.caller = some caller)
    (hcallee : MethodUri.ofText call.callee = .ok callee) (hkind : call.kind.isDispatched = true)
    (hreceivers : Search.runWithin u.types u.subtypes 1 [(callee.typeUri, 0)]
      [(callee.typeUri, 0)] = some [(callee.typeUri, 0)])
    (hlineage : Search.runWithin u.types (u.parents block call.kind) types.length
      [(callee.typeUri, 0)] [(callee.typeUri, 0)] = some types)
    (htarget : (types.map (·.1)).findSome? (u.concrete? block s callee.signature) = some target) :
    u.resolve block call true s = .resolved caller [target] := by
  have hnearest : u.nearest? block call.kind s callee.signature callee.typeUri = some target := by
    rw [nearest?, lineage, Search.breadthFirst_eq_of_runWithin hlineage, htarget]
  have hdispatched : u.dispatchedTargets block callee call.kind s = [target] := by
    rw [dispatchedTargets, receivers, Search.breadthFirst_eq_of_runWithin hreceivers]
    simp [hnearest, distinct, distinctBy]
  have hwalks : Walks u block call true s callee := ⟨hkind, rfl, by simp [hdispatched]⟩
  rw [resolve, hcaller, targets_of_walks hcallee hwalks, hdispatched]

theorem calls_eq_of_walk {u : Universe} {call : CallSite} {s : Strategy} {caller target : Gid}
    (callee : MethodUri) (types : List (String × Nat))
    (hcalls : calls o u = [⟨0, call, u.resolve 0 call true s⟩])
    (hcaller : u.method? 0 call.caller = some caller)
    (hcallee : MethodUri.ofText call.callee = .ok callee) (hkind : call.kind.isDispatched = true)
    (hreceivers : Search.runWithin u.types u.subtypes 1 [(callee.typeUri, 0)]
      [(callee.typeUri, 0)] = some [(callee.typeUri, 0)])
    (hlineage : Search.runWithin u.types (u.parents 0 call.kind) types.length
      [(callee.typeUri, 0)] [(callee.typeUri, 0)] = some types)
    (htarget : (types.map (·.1)).findSome? (u.concrete? 0 s callee.signature) = some target) :
    calls o u = [⟨0, call, .resolved caller [target]⟩] := by
  rw [hcalls, resolve_eq_of_walk callee types hcaller hcallee hkind hreceivers hlineage htarget]

/-- The graph of a merge in which the outcomes of all calls are known. -/
def assembled (u : Universe) (outcomes : List CallOutcome) : MergedGraph :=
  (outcomes.foldlM (connect u) { nodes := u.nodes }).toOption.getD {}

theorem graph_eq_assembled (hm : merge o base dependencies = .ok m) :
    m.graph = assembled (build base dependencies) (calls o (build base dependencies)) := by
  rw [assembled, (merge_eq_ok_iff.1 hm).1]
  rfl

/-- A call of a type's method, while only its supertype has instances. -/
def overriding : PartialGraph where
  revision := ⟨⟨"mvn", ⟨"org", "app"⟩, "1"⟩, 1⟩
  hierarchy := some (.ofList [("/p/Main", { methods := ["run()V"] }),
    ("/p/A", { methods := ["m()V"] }), ("/p/B", { methods := ["m()V"], superClasses := ["/p/A"] })])
  internalNodes := ["/p/Main.run()V", "/p/A.m()V", "/p/B.m()V"]
  instantiatedTypes := some ["/p/A"]
  calls := [⟨"/p/Main.run()V", "/p/B.m()V", .virtual⟩]

/-- A dependency that creates instances of the type itself. -/
def instantiating : PartialGraph where
  revision := ⟨⟨"mvn", ⟨"org", "lib"⟩, "1"⟩, 1⟩
  instantiatedTypes := some ["/p/B"]

/-- Once a dependency instantiates the type, the call goes to the type's own
method and no longer to its supertype's. -/
theorem missingCalls_instantiating :
    ∃ m m', merge { strategy := .rtaLike } overriding [] = .ok m ∧
      merge { strategy := .rtaLike } overriding [instantiating] = .ok m' ∧
      missingCalls m.graph m'.graph =
        [("fasten://mvn!org:app$1/p/Main.run()V", "fasten://mvn!org:app$1/p/A.m()V")] := by
  obtain ⟨m, hm, -⟩ := exists_merge_ok { strategy := .rtaLike } overriding []
  obtain ⟨m', hm', -⟩ := exists_merge_ok { strategy := .rtaLike } overriding [instantiating]
  have hcalls : calls { strategy := .rtaLike } (add {} overriding) =
      [⟨0, ⟨"/p/Main.run()V", "/p/B.m()V", .virtual⟩, .resolved 0 [1]⟩] :=
    calls_eq_of_walk ⟨none, "p", "B", "m()V"⟩ [("/p/B", 0), ("/p/A", 1)] rfl (by decide +kernel)
      (by decide +kernel) rfl (by decide +kernel) (by decide +kernel) (by decide +kernel)
  have hcalls' : calls { strategy := .rtaLike } ((add {} overriding).add instantiating) =
      [⟨0, ⟨"/p/Main.run()V", "/p/B.m()V", .virtual⟩, .resolved 0 [2]⟩] :=
    calls_eq_of_walk ⟨none, "p", "B", "m()V"⟩ [("/p/B", 0), ("/p/A", 1)] rfl (by decide +kernel)
      (by decide +kernel) rfl (by decide +kernel) (by decide +kernel) (by decide +kernel)
  refine ⟨m, m', hm, hm', ?_⟩
  rw [graph_eq_assembled hm, graph_eq_assembled hm', build_nil, build_singleton, hcalls, hcalls']
  decide +kernel

/-- A call of a method that a type inherits, past a supertype of which nothing is known. -/
def inheriting : PartialGraph where
  revision := ⟨⟨"mvn", ⟨"org", "app"⟩, "1"⟩, 1⟩
  hierarchy := some (.ofList [("/p/Main", { methods := ["run()V"] }),
    ("/p/A", { methods := ["m()V"] }), ("/p/C", { superClasses := ["/q/B", "/p/A"] })])
  internalNodes := ["/p/Main.run()V", "/p/A.m()V"]
  calls := [⟨"/p/Main.run()V", "/p/C.m()V", .virtual⟩]

/-- A dependency that declares the supertype, with a method of its own. -/
def interposing : PartialGraph where
  revision := ⟨⟨"mvn", ⟨"org", "lib"⟩, "1"⟩, 1⟩
  hierarchy := some (.ofList [("/q/B", { methods := ["m()V"], superClasses := ["/p/A"] })])
  internalNodes := ["/q/B.m()V"]

theorem isTakenAway_of_mem_missingCalls_interposing :
    ∃ m m', merge {} inheriting [] = .ok m ∧ merge {} inheriting [interposing] = .ok m' ∧
      missingCalls m.graph m'.graph =
        [("fasten://mvn!org:app$1/p/Main.run()V", "fasten://mvn!org:app$1/p/A.m()V")] ∧
      ∃ source target, IsTakenAway {} inheriting [interposing] m'.graph source target := by
  obtain ⟨m, m', hm, hm', htaken⟩ :=
    isTakenAway_of_mem_missingCalls {} inheriting [interposing]
  have hcalls : calls {} (add {} inheriting) =
      [⟨0, ⟨"/p/Main.run()V", "/p/C.m()V", .virtual⟩, .resolved 0 [1]⟩] :=
    calls_eq_of_walk ⟨none, "p", "C", "m()V"⟩ [("/p/C", 0), ("/q/B", 1), ("/p/A", 1)] rfl
      (by decide +kernel) (by decide +kernel) rfl (by decide +kernel) (by decide +kernel)
      (by decide +kernel)
  have hcalls' : calls {} ((add {} inheriting).add interposing) =
      [⟨0, ⟨"/p/Main.run()V", "/p/C.m()V", .virtual⟩, .resolved 0 [2]⟩] :=
    calls_eq_of_walk ⟨none, "p", "C", "m()V"⟩ [("/p/C", 0), ("/q/B", 1), ("/p/A", 1)] rfl
      (by decide +kernel) (by decide +kernel) rfl (by decide +kernel) (by decide +kernel)
      (by decide +kernel)
  have hgraph := graph_eq_assembled hm
  have hgraph' := graph_eq_assembled hm'
  rw [build_nil, hcalls] at hgraph
  rw [build_singleton, hcalls'] at hgraph'
  have hmissing : missingCalls m.graph m'.graph =
      [("fasten://mvn!org:app$1/p/Main.run()V", "fasten://mvn!org:app$1/p/A.m()V")] := by
    rw [hgraph, hgraph']
    decide +kernel
  have hsize : m.graph.nodeCount < 4294967295 := by
    rw [hgraph]
    decide +kernel
  obtain ⟨source, target, -, -, -, -, -, h⟩ :=
    htaken hsize _ (by rw [hmissing]; exact List.mem_singleton_self _)
  exact ⟨m, m', hm, hm', hmissing, source, target, h⟩

end Merge

end Stitch
