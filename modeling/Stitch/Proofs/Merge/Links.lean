/-
Calls between the methods of a merge.

A call leads to its targets, or if it has none to the method whose URI its
reference is (`leadsTo`).  The graph of a merge has exactly the pairs between
nodes of the universe that the outcome of a call links in this way:

* **`mem_edges_iff_links`**, and `links_iff_mem_leadsTo` for one call; together
  `mem_edges_iff_siteLeads`, for the calls that a merge has to resolve (`sites`).

Every step adds the pairs of one outcome (`mem_edges_connect`), apart from those
to placeholders, which are numbered behind the nodes of the universe.
-/
import Stitch.Proofs.Merge.Assembly

namespace Stitch

/-- Whether the outcome of a call is a call between two methods. -/
def CallOutcome.Links (u : Universe) (o : CallOutcome) (e : Edge) : Prop :=
  match o.resolution with
  | .dropped => False
  | .resolved caller targets => e.source = caller ∧ e.target ∈ targets
  | .unresolved caller => e.source = caller ∧ u.symbols.lookup o.call.callee = some e.target

namespace Universe

/-- The methods that a call leads to: its targets, or else the method whose URI
its reference is. -/
def leadsTo (u : Universe) (block : Nat) (call : CallSite) (useHierarchy : Bool) (s : Strategy) :
    List Gid :=
  match u.targets block call useHierarchy s with
  | [] => (u.symbols.lookup call.callee).toList
  | targets => targets

variable {u : Universe} {block : Nat} {call : CallSite} {useHierarchy : Bool} {s : Strategy}

theorem leadsTo_of_targets_eq_nil (h : u.targets block call useHierarchy s = []) :
    u.leadsTo block call useHierarchy s = (u.symbols.lookup call.callee).toList := by
  rw [leadsTo, h]

theorem leadsTo_of_targets_ne_nil (h : u.targets block call useHierarchy s ≠ []) :
    u.leadsTo block call useHierarchy s = u.targets block call useHierarchy s := by
  rw [leadsTo]
  split
  · contradiction
  · rfl

theorem links_iff_mem_leadsTo {e : Edge} :
    CallOutcome.Links u ⟨block, call, u.resolve block call useHierarchy s⟩ e ↔
      u.method? block call.caller = some e.source ∧
        e.target ∈ u.leadsTo block call useHierarchy s := by
  rw [CallOutcome.Links, resolve, leadsTo]
  cases hcaller : u.method? block call.caller with
  | none => simp
  | some caller =>
    cases htargets : u.targets block call useHierarchy s with
    | nil => simp [eq_comm]
    | cons target targets => simp [eq_comm]

end Universe

namespace Merge

variable {u : Universe} {g g' : MergedGraph} {e : Edge}

theorem mem_edges_addCall {e' : Edge} {kind : CallKind} (h : g.addCall e' kind = .ok g') :
    e ∈ g'.edges ↔ e ∈ g.edges ∨ e = e' := by
  rw [MergedGraph.eq_withCall_of_addCall h, or_comm]
  exact MergedGraph.mem_edges_withCalls

theorem mem_edges_addCalls {caller : Gid} {targets : List Gid} {kind : CallKind}
    (h : targets.foldlM (fun g target => g.addCall ⟨caller, target⟩ kind) g = .ok g') :
    e ∈ g'.edges ↔ e ∈ g.edges ∨ e.source = caller ∧ e.target ∈ targets := by
  rw [foldlM_adds (P := fun _ => True) (fun g => e ∈ g.edges) (fun target => e = ⟨caller, target⟩)
    (fun _ _ _ _ _ hadd => ⟨trivial, mem_edges_addCall hadd⟩) trivial h]
  refine or_congr_right ⟨?_, ?_⟩
  · rintro ⟨target, htarget, rfl⟩
    exact ⟨rfl, htarget⟩
  · rintro ⟨rfl, htarget⟩
    exact ⟨e.target, htarget, rfl⟩

theorem IsLaidOut.le_of_placeholder? (h : IsLaidOut u g) {reference : String} {gid : Gid}
    (hp : placeholder? g reference = some gid) : u.nodes.length ≤ gid := by
  obtain ⟨⟨i, n⟩, hfind, rfl⟩ := Option.map_eq_some_iff.1 hp
  have hn := MergedGraph.mem_numbered_iff.1 (List.mem_of_find?_eq_some hfind)
  have hfits := List.find?_some hfind
  have hexternal : n.isInternal = false := by simpa using (Bool.and_eq_true_iff.1 hfits).1
  exact (h.mem_externalNodes_iff.1 (MergedGraph.mem_externalNodes_iff.2 ⟨n, hn, hexternal⟩)).1

/-- A node of the universe stands only for its own URI: placeholders, old or new,
are behind the nodes of the universe. -/
theorem standIn_eq_iff (h : IsLaidOut u g) {reference : String} {gid : Gid}
    (hgid : gid < u.nodes.length) :
    (standIn u g reference).2 = gid ↔ u.symbols.lookup reference = some gid := by
  rw [standIn]
  cases hlook : u.symbols.lookup reference with
  | some known => rw [Option.some_or, Option.some.injEq]
  | none =>
    rw [Option.none_or]
    refine ⟨fun heq => absurd hgid (Nat.not_lt_of_le ?_), by simp⟩
    cases hplaceholder : placeholder? g reference with
    | some old =>
      rw [hplaceholder] at heq
      exact heq ▸ h.le_of_placeholder? hplaceholder
    | none =>
      rw [hplaceholder] at heq
      exact heq ▸ h.length_le

/-- One outcome adds the pairs that it links. -/
theorem mem_edges_connect (hu : u.symbols.IsDense) (h : IsLaidOut u g) {o : CallOutcome}
    (hconnect : connect u g o = .ok g') (htarget : e.target < u.nodes.length) :
    e ∈ g'.edges ↔ e ∈ g.edges ∨ o.Links u e := by
  rw [connect] at hconnect
  rw [CallOutcome.Links]
  cases hres : o.resolution with
  | dropped =>
    rw [hres] at hconnect
    cases hconnect
    simp
  | resolved caller targets =>
    rw [hres] at hconnect
    exact mem_edges_addCalls hconnect
  | unresolved caller =>
    rw [hres] at hconnect
    have hadd : (standIn u g o.call.callee).1.addCall
        ⟨caller, (standIn u g o.call.callee).2⟩ o.call.kind = .ok g' := hconnect
    rw [mem_edges_addCall hadd, (standIn_spec hu h _).2.2.1]
    refine or_congr_right ?_
    rw [← standIn_eq_iff h htarget]
    constructor
    · rintro rfl
      exact ⟨rfl, rfl⟩
    · rintro ⟨rfl, hstand⟩
      rw [hstand]

/-- **The calls between nodes of the universe are those that an outcome links.** -/
theorem mem_edges_iff_links {o : MergeOptions} {base : PartialGraph}
    {dependencies : List PartialGraph} {m : Merged} (hm : merge o base dependencies = .ok m)
    (htarget : e.target < (Universe.build base dependencies).nodes.length) :
    e ∈ m.graph.edges ↔ ∃ c ∈ calls o (Universe.build base dependencies),
      c.Links (Universe.build base dependencies) e := by
  have hdense := Universe.isDense_build base dependencies
  obtain ⟨hfold, -⟩ := merge_eq_ok_iff.1 hm
  rw [foldlM_adds (fun g => e ∈ g.edges)
    (fun c => c.Links (Universe.build base dependencies) e) ?_ (isAssembled_nodes hdense) hfold]
  · exact or_iff_right List.not_mem_nil
  · intro g c g' hc hg hconnect
    exact ⟨isAssembled_of_connect hdense hc hg hconnect,
      mem_edges_connect hdense hg.toIsLaidOut hconnect htarget⟩

/-- The outcome of a call links its caller to nodes of the universe only. -/
theorem target_lt_of_links (hu : u.symbols.IsDense) {o : MergeOptions} {c : CallOutcome}
    (hc : c ∈ calls o u) (hlinks : c.Links u e) : e.target < u.nodes.length := by
  have hwithin := isWithin_of_mem_calls hu hc
  rw [CallOutcome.Links] at hlinks
  cases hres : c.resolution with
  | dropped =>
    rw [hres] at hlinks
    exact hlinks.elim
  | resolved caller targets =>
    rw [hres] at hlinks hwithin
    exact hwithin.2 _ hlinks.2
  | unresolved caller =>
    rw [hres] at hlinks
    rw [Universe.length_nodes]
    exact hu.lookup_lt hlinks.2

theorem mem_edges_of_links {o : MergeOptions} {base : PartialGraph}
    {dependencies : List PartialGraph} {m : Merged} (hm : merge o base dependencies = .ok m)
    {c : CallOutcome} (hc : c ∈ calls o (Universe.build base dependencies))
    (hlinks : c.Links (Universe.build base dependencies) e) : e ∈ m.graph.edges :=
  (mem_edges_iff_links hm (target_lt_of_links (Universe.isDense_build _ _) hc hlinks)).2
    ⟨c, hc, hlinks⟩

/-! ### The calls of a merge -/

/-- The calls that are resolved, each with the contributor that makes it. -/
def sites (o : MergeOptions) (u : Universe) : List ((Contributor × Nat) × CallSite) :=
  (resolvedBlocks o u).flatMap fun p => p.1.graph.calls.map fun call => (p, call)

/-- The outcome of a call, resolved by a strategy as far as its contributor has the data. -/
def outcome (s : Strategy) (u : Universe) (site : (Contributor × Nat) × CallSite) : CallOutcome :=
  ⟨site.1.2, site.2, u.resolve site.1.2 site.2 site.1.1.graph.hierarchy.isSome
    (s.forContributor site.1.1)⟩

theorem calls_eq_map (o : MergeOptions) (u : Universe) :
    calls o u = (sites o u).map (outcome o.strategy u) := by
  simp only [calls, sites, List.map_flatMap, List.map_map]
  rfl

theorem mem_resolvedBlocks_of_mem_sites {o : MergeOptions} {site : (Contributor × Nat) × CallSite}
    (h : site ∈ sites o u) : site.1 ∈ resolvedBlocks o u := by
  obtain ⟨p, hp, hcall⟩ := List.mem_flatMap.1 h
  obtain ⟨call, -, rfl⟩ := List.mem_map.1 hcall
  exact hp

theorem getElem?_of_mem_resolvedBlocks {o : MergeOptions} {p : Contributor × Nat}
    (h : p ∈ resolvedBlocks o u) : u.contributors[p.2]? = some p.1 := by
  have hzip : p ∈ u.contributors.zipIdx := by
    rw [resolvedBlocks] at h
    split at h
    · exact h
    · exact List.mem_of_mem_take h
  exact List.mem_zipIdx_iff_getElem?.1 hzip

theorem getElem?_of_mem_sites {o : MergeOptions} {site : (Contributor × Nat) × CallSite}
    (h : site ∈ sites o u) : u.contributors[site.1.2]? = some site.1.1 :=
  getElem?_of_mem_resolvedBlocks (mem_resolvedBlocks_of_mem_sites h)

/-- Whether a call leads from one method to another. -/
def SiteLeads (s : Strategy) (u : Universe) (site : (Contributor × Nat) × CallSite)
    (e : Edge) : Prop :=
  u.method? site.1.2 site.2.caller = some e.source ∧
    e.target ∈ u.leadsTo site.1.2 site.2 site.1.1.graph.hierarchy.isSome (s.forContributor site.1.1)

theorem links_outcome_iff {s : Strategy} {site : (Contributor × Nat) × CallSite} :
    (outcome s u site).Links u e ↔ SiteLeads s u site e :=
  Universe.links_iff_mem_leadsTo

theorem mem_edges_iff_siteLeads {o : MergeOptions} {base : PartialGraph}
    {dependencies : List PartialGraph} {m : Merged} (hm : merge o base dependencies = .ok m)
    (htarget : e.target < (Universe.build base dependencies).nodes.length) :
    e ∈ m.graph.edges ↔ ∃ site ∈ sites o (Universe.build base dependencies),
      SiteLeads o.strategy (Universe.build base dependencies) site e := by
  rw [mem_edges_iff_links hm htarget, calls_eq_map]
  simp only [List.mem_map, exists_exists_and_eq_and, links_outcome_iff]

theorem mem_edges_of_siteLeads {o : MergeOptions} {base : PartialGraph}
    {dependencies : List PartialGraph} {m : Merged} (hm : merge o base dependencies = .ok m)
    {site : (Contributor × Nat) × CallSite}
    (hsite : site ∈ sites o (Universe.build base dependencies))
    (hleads : SiteLeads o.strategy (Universe.build base dependencies) site e) :
    e ∈ m.graph.edges := by
  refine mem_edges_of_links hm ?_ (links_outcome_iff.2 hleads)
  rw [calls_eq_map]
  exact List.mem_map_of_mem hsite

end Merge

end Stitch
