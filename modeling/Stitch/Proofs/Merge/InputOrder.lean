/-
A merge does not depend on how its dependencies are handed over.

Two universes are alike if they have the same contributors and the same methods
(`IsAlike`); which graphs were left out does not matter for what is merged.

* Graphs whose coordinate already takes part may be handed over or not
  (`isAlike_foldl_distinct`), and the dependencies are sorted, so that the
  universe is made from one list of graphs, the `participants`.
* Which dependencies take part is determined by the first graph of each
  coordinate (`mem_others_iff`), and their order is antisymmetric; so lists that
  have the same first graphs (`HaveSameFirst`) give alike universes
  (`isAlike_build`).  Permutations do, and additions of further copies.
* Each graph that is handed over becomes a contributor or is left out
  (`length_skipped_foldl_add`).

The main statement is **`merge_eq_of_haveSameFirst`**.
-/
import Stitch.Proofs.Coordinate
import Stitch.Proofs.Distinct
import Stitch.Proofs.Merge.Assembly
import Stitch.Proofs.Sorting

namespace Stitch

namespace Universe

/-! ### Alike universes -/

/-- The universes differ at most in the graphs that were left out. -/
structure IsAlike (u v : Universe) : Prop where
  contributors_eq : u.contributors = v.contributors
  symbols_eq : u.symbols = v.symbols

/-- The coordinates that take part. -/
def coordinates (u : Universe) : List Coordinate := u.contributors.map (·.coordinate)

variable {u v w : Universe} {g : PartialGraph} {gs : List PartialGraph} {c : Coordinate}

theorem IsAlike.refl (u : Universe) : IsAlike u u := ⟨rfl, rfl⟩

theorem IsAlike.symm (h : IsAlike u v) : IsAlike v u :=
  ⟨h.contributors_eq.symm, h.symbols_eq.symm⟩

theorem IsAlike.trans (h : IsAlike u v) (h' : IsAlike v w) : IsAlike u w :=
  ⟨h.contributors_eq.trans h'.contributors_eq, h.symbols_eq.trans h'.symbols_eq⟩

theorem IsAlike.eq_with (h : IsAlike u v) : v = { u with skipped := v.skipped } := by
  obtain ⟨contributors, symbols, skipped⟩ := v
  rw [h.contributors_eq, h.symbols_eq]

/-- A graph of a coordinate that takes part is left out. -/
theorem add_of_mem (h : g.coordinate ∈ u.coordinates) :
    u.add g = { u with skipped := u.skipped ++ [duplicate g.coordinate] } := by
  obtain ⟨c, hc, hcoordinate⟩ := List.mem_map.1 h
  rw [add, if_pos (List.any_eq_true.2 ⟨c, hc, by simpa using hcoordinate⟩)]

/-- Every other graph becomes a contributor. -/
theorem add_of_not_mem (h : g.coordinate ∉ u.coordinates) :
    ∃ block symbols, block.graph = g ∧
      u.add g = { u with contributors := u.contributors ++ [block], symbols } := by
  have hnone : ¬(u.contributors.any fun c => c.coordinate == g.coordinate) = true := by
    rw [List.any_eq_true]
    rintro ⟨c, hc, hcoordinate⟩
    exact h (List.mem_map.2 ⟨c, hc, by simpa using hcoordinate⟩)
  rw [add, if_neg hnone]
  exact ⟨_, _, rfl, rfl⟩

theorem mem_coordinates_add : c ∈ (u.add g).coordinates ↔ c ∈ u.coordinates ∨ c = g.coordinate := by
  by_cases h : g.coordinate ∈ u.coordinates
  · rw [add_of_mem h]
    exact ⟨.inl, fun hc => hc.elim id fun heq => heq ▸ h⟩
  · obtain ⟨block, symbols, rfl, hadd⟩ := add_of_not_mem h
    rw [hadd, coordinates, List.map_append, List.mem_append, List.map_singleton,
      List.mem_singleton]
    rfl

theorem IsAlike.add (h : IsAlike u v) (g : PartialGraph) : IsAlike (u.add g) (v.add g) := by
  rw [Universe.add, Universe.add, ← h.contributors_eq, ← h.symbols_eq]
  split <;> exact ⟨rfl, rfl⟩

theorem IsAlike.foldl_add (h : IsAlike u v) (gs : List PartialGraph) :
    IsAlike (gs.foldl Universe.add u) (gs.foldl Universe.add v) := by
  induction gs generalizing u v with
  | nil => exact h
  | cons g gs ih => exact ih (h.add g)

/-- Graphs of a coordinate that takes part need not be handed over. -/
theorem isAlike_foldl_filter (hc : c ∈ u.coordinates) (gs : List PartialGraph) :
    IsAlike (gs.foldl add u) ((gs.filter fun g => !c == g.coordinate).foldl add u) := by
  induction gs generalizing u with
  | nil => exact .refl u
  | cons g gs ih =>
    by_cases heq : c = g.coordinate
    · rw [List.filter_cons_of_neg (by simpa using heq), List.foldl_cons]
      have hskip : IsAlike (u.add g) u := by
        rw [add_of_mem (heq ▸ hc)]
        exact ⟨rfl, rfl⟩
      exact (hskip.foldl_add gs).trans (ih hc)
    · rw [List.filter_cons_of_pos (by simpa using heq)]
      exact ih (mem_coordinates_add.2 (.inl hc))

/-- The graphs that take part: of each coordinate the first. -/
def participants (gs : List PartialGraph) : List PartialGraph :=
  distinctBy (fun a b => a.coordinate == b.coordinate) gs

theorem isAlike_foldl_participants (u : Universe) (gs : List PartialGraph) :
    IsAlike (gs.foldl add u) ((participants gs).foldl add u) := by
  induction gs generalizing u with
  | nil => exact .refl u
  | cons g gs ih =>
    rw [participants, distinctBy, List.foldl_cons, List.foldl_cons]
    have htaken : g.coordinate ∈ (u.add g).coordinates := mem_coordinates_add.2 (.inr rfl)
    exact (ih (u.add g)).trans (isAlike_foldl_filter htaken (participants gs))

/-! ### The participants of a merge -/

/-- The coordinates of the graphs are transitively ordered. -/
def IsOrderedInput (gs : List PartialGraph) : Prop :=
  ∀ a ∈ gs, ∀ b ∈ gs, ∀ c ∈ gs, a.coordinate.atMost b.coordinate →
    b.coordinate.atMost c.coordinate → a.coordinate.atMost c.coordinate

theorem IsOrderedInput.subset (h : IsOrderedInput gs) {hs : List PartialGraph} (hsub : hs ⊆ gs) :
    IsOrderedInput hs :=
  fun a ha b hb c hc => h a (hsub ha) b (hsub hb) c (hsub hc)

/-- The dependencies that take part, in order. -/
def others (base : PartialGraph) (dependencies : List PartialGraph) : List PartialGraph :=
  (participants (ordered dependencies)).filter fun g => !base.coordinate == g.coordinate

theorem participants_eq (base : PartialGraph) (dependencies : List PartialGraph) :
    participants (base :: ordered dependencies) = base :: others base dependencies := rfl

/-- The first graph of each coordinate is the same, but for that of the base. -/
def HaveSameFirst (base : PartialGraph) (dependencies dependencies' : List PartialGraph) : Prop :=
  ∀ c, c ≠ base.coordinate → dependencies.find? (fun g => g.coordinate == c) =
    dependencies'.find? fun g => g.coordinate == c

variable {base : PartialGraph} {dependencies dependencies' : List PartialGraph}

theorem haveSameFirst_of_perm (hnodup : (dependencies.map (·.coordinate)).Nodup)
    (h : dependencies.Perm dependencies') : HaveSameFirst base dependencies dependencies' := by
  intro c _
  have hnodup' : (dependencies'.map (·.coordinate)).Nodup := (h.map _).nodup_iff.1 hnodup
  refine Option.ext fun g => ?_
  rw [find?_eq_some_iff_of_nodup hnodup, find?_eq_some_iff_of_nodup hnodup', h.mem_iff]

/-- Later graphs of the base's coordinate, or of one that was there, change nothing. -/
theorem haveSameFirst_append {more : List PartialGraph}
    (h : ∀ g ∈ more, g.coordinate = base.coordinate ∨
      g.coordinate ∈ dependencies.map (·.coordinate)) :
    HaveSameFirst base dependencies (dependencies ++ more) := by
  intro c hc
  rw [List.find?_append]
  cases hfind : dependencies.find? fun g => g.coordinate == c with
  | some g => rfl
  | none =>
    rw [Option.none_or, eq_comm, List.find?_eq_none]
    intro g hg heq
    rcases h g hg with hbase | hknown
    · exact hc (eq_of_beq heq ▸ hbase)
    · obtain ⟨d, hd, hcoordinate⟩ := List.mem_map.1 hknown
      exact List.find?_eq_none.1 hfind d hd (hcoordinate ▸ heq)

/-- Sorting keeps the first graph of each coordinate. -/
theorem find?_ordered (h : IsOrderedInput dependencies) (c : Coordinate) :
    (ordered dependencies).find? (fun g => g.coordinate == c) =
      dependencies.find? fun g => g.coordinate == c := by
  rw [← List.head?_filter, ← List.head?_filter, ordered]
  refine congrArg List.head? (filter_mergeSort_of_mem h
    (fun a b => Coordinate.atMost_total a.coordinate b.coordinate) fun a b ha hb => ?_)
  rw [eq_of_beq ha, eq_of_beq hb]
  exact Coordinate.atMost_refl c

theorem mem_others_iff (h : IsOrderedInput dependencies) {g : PartialGraph} :
    g ∈ others base dependencies ↔ g.coordinate ≠ base.coordinate ∧
      dependencies.find? (fun d => d.coordinate == g.coordinate) = some g := by
  rw [others, List.mem_filter, participants, mem_distinctBy_iff PartialGraph.coordinate,
    find?_ordered h, and_comm, Bool.not_eq_true', beq_eq_false_iff_ne, ne_comm]

theorem nodup_others (base : PartialGraph) (dependencies : List PartialGraph) :
    (others base dependencies).Nodup := by
  have hdistinct := pairwise_distinctBy
    (fun a b : PartialGraph => a.coordinate == b.coordinate) (ordered dependencies)
  refine (hdistinct.sublist List.filter_sublist).imp fun hne heq => ?_
  simp [heq] at hne

theorem pairwise_others (h : IsOrderedInput dependencies) :
    (others base dependencies).Pairwise fun a b => a.coordinate.atMost b.coordinate := by
  have hsorted := pairwise_mergeSort_of_mem h
    fun a b => Coordinate.atMost_total a.coordinate b.coordinate
  exact hsorted.sublist (List.filter_sublist.trans (sublist_distinctBy _ _))

theorem others_eq (h : IsOrderedInput dependencies) (h' : IsOrderedInput dependencies')
    (hfirst : HaveSameFirst base dependencies dependencies') :
    others base dependencies = others base dependencies' := by
  refine List.Perm.eq_of_pairwise ?_ (pairwise_others h) (pairwise_others h') ?_
  · intro a b ha hb hab hba
    obtain ⟨hne, ha⟩ := (mem_others_iff h).1 ha
    obtain ⟨-, hb⟩ := (mem_others_iff h').1 hb
    have hcoordinate := Coordinate.atMost_antisymm hab hba
    rw [hfirst _ hne, hcoordinate, hb] at ha
    exact (Option.some.inj ha).symm
  · refine (List.perm_ext_iff_of_nodup (nodup_others _ _) (nodup_others _ _)).2 fun g => ?_
    rw [mem_others_iff h, mem_others_iff h']
    exact and_congr_right fun hne => by rw [hfirst _ hne]

theorem isAlike_build (h : IsOrderedInput dependencies) (h' : IsOrderedInput dependencies')
    (hfirst : HaveSameFirst base dependencies dependencies') :
    IsAlike (build base dependencies) (build base dependencies') := by
  have hparticipants := isAlike_foldl_participants {} (base :: ordered dependencies)
  have hparticipants' := isAlike_foldl_participants {} (base :: ordered dependencies')
  rw [participants_eq, others_eq h h' hfirst, ← participants_eq] at hparticipants
  exact hparticipants.trans hparticipants'.symm

/-! ### Merging in alike universes -/

theorem IsAlike.nodes_eq (h : IsAlike u v) : v.nodes = u.nodes := by
  rw [nodes, nodes, h.symbols_eq]

theorem IsAlike.calls_eq (h : IsAlike u v) (o : MergeOptions) :
    Merge.calls o v = Merge.calls o u := by
  rw [h.eq_with]
  rfl

theorem IsAlike.connect_eq (h : IsAlike u v) : Merge.connect v = Merge.connect u := by
  rw [h.eq_with]
  rfl

theorem IsAlike.report_eq (h : IsAlike u v) (o : MergeOptions) (base : PartialGraph)
    (outcomes : List CallOutcome) (graph : MergedGraph) :
    Merge.report o base v outcomes graph = { Merge.report o base u outcomes graph with
      degraded := (Merge.report o base v outcomes graph).degraded } := by
  rw [h.eq_with]
  rfl

/-! ### What is left out -/

/-- Each graph that is handed over takes part or is left out as a duplicate. -/
theorem length_skipped_foldl_add (u : Universe) (gs : List PartialGraph) :
    (gs.foldl add u).skipped.length + (gs.foldl add u).contributors.length =
      u.skipped.length + u.contributors.length + gs.length := by
  induction gs generalizing u with
  | nil => rfl
  | cons g gs ih =>
    rw [List.foldl_cons, ih, List.length_cons]
    by_cases h : g.coordinate ∈ u.coordinates
    · simp only [add_of_mem h, List.length_append, List.length_singleton]
      omega
    · obtain ⟨block, symbols, -, hadd⟩ := add_of_not_mem h
      simp only [hadd, List.length_append, List.length_singleton]
      omega

theorem exists_of_mem_skipped {d : Degradation} (h : d ∈ (gs.foldl add u).skipped) :
    d ∈ u.skipped ∨ ∃ c, d = duplicate c := by
  induction gs generalizing u with
  | nil => exact .inl h
  | cons g gs ih =>
    rcases ih h with hold | hnew
    · by_cases hmem : g.coordinate ∈ u.coordinates
      · rw [add_of_mem hmem] at hold
        rcases List.mem_append.1 hold with hold | hnew
        · exact .inl hold
        · exact .inr ⟨_, List.mem_singleton.1 hnew⟩
      · obtain ⟨block, symbols, -, hadd⟩ := add_of_not_mem hmem
        rw [hadd] at hold
        exact .inl hold
    · exact .inr hnew

end Universe

namespace Merge

/-- Whether a problem is that a graph was left out as a duplicate. -/
def isDuplicate (d : Degradation) : Bool :=
  d.kind = .mergeInputMalformed &&
    d.detail = "duplicate coordinate in merge input, contribution skipped"

theorem isDuplicate_hierarchyProblem {c : Contributor} {d : Degradation}
    (h : hierarchyProblem? c = some d) : isDuplicate d = false := by
  rw [hierarchyProblem?, Option.ite_none_right_eq_some] at h
  obtain ⟨-, h⟩ := h
  cases h
  simp [isDuplicate]

theorem isDuplicate_droppedProblem {u : Universe} {o : CallOutcome} {d : Degradation}
    (h : droppedProblem? u o = some d) : isDuplicate d = false := by
  rw [droppedProblem?, Option.ite_none_right_eq_some] at h
  obtain ⟨-, h⟩ := h
  cases h
  have hdetail : "caller " ++ o.call.caller ++ " is not an internal node" ≠
      "duplicate coordinate in merge input, contribution skipped" := by
    intro heq
    -- The texts differ in their first letter.
    have := congrArg (fun s => s.toList.head?) heq
    simp at this
  exact Bool.and_eq_false_imp.2 fun _ => decide_eq_false hdetail

/-- A report tells of as many duplicates as there are graphs that take no part. -/
theorem countP_isDuplicate_report (o : MergeOptions) (base : PartialGraph)
    (dependencies : List PartialGraph) (outcomes : List CallOutcome) (g : MergedGraph) :
    let r := report o base (Universe.build base dependencies) outcomes g
    r.degraded.countP isDuplicate + r.contributors.length = dependencies.length + 1 := by
  intro r
  have hskipped : (Universe.build base dependencies).skipped.countP isDuplicate =
      (Universe.build base dependencies).skipped.length := by
    refine List.countP_eq_length.2 fun d hd => ?_
    obtain ⟨c, rfl⟩ := (Universe.exists_of_mem_skipped hd).resolve_left List.not_mem_nil
    rfl
  have hrest : ∀ {α : Type} (f : α → Option Degradation) (as : List α),
      (∀ a d, f a = some d → isDuplicate d = false) → (as.filterMap f).countP isDuplicate = 0 := by
    intro α f as hf
    refine List.countP_eq_zero.2 fun d hd => ?_
    obtain ⟨a, -, ha⟩ := List.mem_filterMap.1 hd
    simp [hf a d ha]
  have hlength := Universe.length_skipped_foldl_add {} (base :: Universe.ordered dependencies)
  rw [List.length_cons, Universe.ordered, List.length_mergeSort] at hlength
  simp only [r, report, List.countP_append, hskipped, List.length_map,
    hrest _ _ fun _ _ => isDuplicate_hierarchyProblem,
    hrest _ _ fun _ _ => isDuplicate_droppedProblem]
  simpa [Universe.build, Universe.ordered] using hlength

end Merge

/-- **Merging depends on which graph of each coordinate comes first, and on
nothing else.**  Lists of dependencies that agree about that, for all coordinates
but that of the base, give the same graph and reports that differ at most in the
problems; each report tells of as many duplicates as there are graphs that take
no part. -/
theorem merge_eq_of_haveSameFirst {base : PartialGraph}
    {dependencies dependencies' : List PartialGraph}
    (h : Universe.IsOrderedInput dependencies) (h' : Universe.IsOrderedInput dependencies')
    (hfirst : Universe.HaveSameFirst base dependencies dependencies') (o : MergeOptions) :
    ∃ m m', merge o base dependencies = .ok m ∧ merge o base dependencies' = .ok m' ∧
      m'.graph = m.graph ∧ m'.report = { m.report with degraded := m'.report.degraded } ∧
      m.report.degraded.countP Merge.isDuplicate + m.report.contributors.length =
        dependencies.length + 1 ∧
      m'.report.degraded.countP Merge.isDuplicate + m'.report.contributors.length =
        dependencies'.length + 1 := by
  have halike := Universe.isAlike_build h h' hfirst
  obtain ⟨m, hm, -⟩ := Merge.exists_merge_ok o base dependencies
  obtain ⟨hfold, hreport⟩ := Merge.merge_eq_ok_iff.1 hm
  have hfold' := hfold
  rw [← halike.calls_eq, ← halike.connect_eq, ← halike.nodes_eq] at hfold'
  let u' := Universe.build base dependencies'
  have hm' : merge o base dependencies' =
      .ok ⟨m.graph, Merge.report o base u' (Merge.calls o u') m.graph⟩ :=
    Merge.merge_eq_ok_iff.2 ⟨hfold', rfl⟩
  refine ⟨m, _, hm, hm', rfl, ?_, ?_, ?_⟩
  · rw [halike.report_eq, halike.calls_eq, hreport]
  · rw [hreport]
    exact Merge.countP_isDuplicate_report o base dependencies _ _
  · exact Merge.countP_isDuplicate_report o base dependencies' _ _

/-- The dependencies of `strayCaller`, one of them twice and with a copy of `strayCaller`. -/
def repeatedDependencies : List PartialGraph :=
  let artifact (name : String) : PartialGraph :=
    { revision := ⟨⟨"mvn", ⟨"org", name⟩, "1"⟩, 1⟩
      internalNodes := ["/org/" ++ name ++ ".write()V"] }
  [artifact "Log", artifact "Core", { artifact "Log" with internalNodes := [] },
    Merge.strayCaller]

theorem merge_eq_of_haveSameFirst_repeatedDependencies :
    ∃ m m', merge {} Merge.strayCaller (repeatedDependencies.take 2).reverse = .ok m ∧
      merge {} Merge.strayCaller repeatedDependencies = .ok m' ∧ m'.graph = m.graph ∧
      m'.report = { m.report with degraded := m'.report.degraded } ∧
      m.report.degraded.countP Merge.isDuplicate + m.report.contributors.length = 3 ∧
      m'.report.degraded.countP Merge.isDuplicate + m'.report.contributors.length = 5 := by
  have hperm : Universe.HaveSameFirst Merge.strayCaller (repeatedDependencies.take 2).reverse
      (repeatedDependencies.take 2) :=
    Universe.haveSameFirst_of_perm (by decide +kernel) (List.reverse_perm _)
  have hmore : Universe.HaveSameFirst Merge.strayCaller (repeatedDependencies.take 2)
      (repeatedDependencies.take 2 ++ repeatedDependencies.drop 2) :=
    Universe.haveSameFirst_append (by decide +kernel)
  have hordered : Universe.IsOrderedInput repeatedDependencies := by
    have hversion : ∀ a ∈ repeatedDependencies, ∀ b ∈ repeatedDependencies,
        a.coordinate.artifact = b.coordinate.artifact → a.coordinate = b.coordinate := by
      decide +kernel
    intro a ha b hb c hc hab hbc
    refine Coordinate.atMost_trans_of hab hbc fun hartifact _ => ?_
    rw [hversion a ha b hb hartifact]
    exact hbc
  have hsubset : (repeatedDependencies.take 2).reverse ⊆ repeatedDependencies :=
    fun g hg => List.mem_of_mem_take (List.mem_reverse.1 hg)
  exact merge_eq_of_haveSameFirst (hordered.subset hsubset) hordered
    (fun c hc => (hperm c hc).trans (hmore c hc)) {}

end Stitch
