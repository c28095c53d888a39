/-
Nothing gets lost between a document of metadata and its graph.

Metadata collects the records of a document: the revisions, each coordinate once, and all
constraints that can be read.  The graph is not made of these lists as they came, but of the
revisions artifact by artifact and of the constraints revision by revision.

* Grouping a list by keys is a permutation of it (`flatMap_filter_perm`) that keeps the order
  of the items of each key (`filter_flatMap_filter`).
* So the graph is like the one that is made of the lists as they came (`graph_isLike`), which
  is all that queries see, and it has as many constraints.
* Every declared dependency is a constraint or counted as skipped (`length_add_skipped`).

The main statement is **`graph_matches_document`**.
-/
import Mathlib.Data.List.Forall2
import Stitch.Dependency.Metadata
import Stitch.Proofs.Dependency.Agreement
import Stitch.Proofs.Steps

namespace Stitch

/-! ### Grouping by keys -/

section Grouping

variable {α κ : Type} [DecidableEq κ] (key : α → κ) {keys : List κ}

theorem flatMap_filter_perm (hkeys : keys.Nodup) (as : List α) :
    (keys.flatMap fun k => as.filter fun a => key a == k).Perm
      (as.filter fun a => decide (key a ∈ keys)) := by
  induction keys with
  | nil => simp
  | cons k keys ih =>
    obtain ⟨hk, hkeys⟩ := List.nodup_cons.1 hkeys
    rw [List.flatMap_cons]
    refine ((ih hkeys).append_left _).trans ?_
    -- The items of the key and those of the other keys.
    have hfirst : as.filter (fun a => key a == k) =
        (as.filter fun a => decide (key a ∈ k :: keys)).filter fun a => key a == k := by
      rw [List.filter_filter]
      refine List.filter_congr fun a _ => ?_
      by_cases ha : key a = k <;> simp [ha]
    have hothers : as.filter (fun a => decide (key a ∈ keys)) =
        (as.filter fun a => decide (key a ∈ k :: keys)).filter fun a => !(key a == k) := by
      rw [List.filter_filter]
      refine List.filter_congr fun a _ => ?_
      by_cases ha : key a = k <;> simp [ha, hk]
    rw [hfirst, hothers]
    exact List.filter_append_perm _ _

/-- A list whose keys are all among the groups is only rearranged. -/
theorem flatMap_filter_perm_self (hkeys : keys.Nodup) {as : List α} (h : ∀ a ∈ as, key a ∈ keys) :
    (keys.flatMap fun k => as.filter fun a => key a == k).Perm as := by
  have hperm := flatMap_filter_perm key hkeys as
  rwa [List.filter_eq_self.2 fun a ha => decide_eq_true (h a ha)] at hperm

theorem filter_flatMap_filter (hkeys : keys.Nodup) (as : List α) {c : κ} (hc : c ∈ keys) :
    (keys.flatMap fun k => as.filter fun a => key a == k).filter (fun a => key a == c) =
      as.filter fun a => key a == c := by
  induction keys with
  | nil => cases hc
  | cons k keys ih =>
    obtain ⟨hk, hkeys⟩ := List.nodup_cons.1 hkeys
    rw [List.flatMap_cons, List.filter_append, List.filter_filter]
    rcases List.mem_cons.1 hc with rfl | hc
    · have hothers : (keys.flatMap fun k => as.filter fun a => key a == k).filter
          (fun a => key a == c) = [] := by
        refine List.filter_eq_nil_iff.2 fun a ha heq => ?_
        obtain ⟨k, hmem, ha⟩ := List.mem_flatMap.1 ha
        obtain rfl := eq_of_beq (List.mem_filter.1 ha).2
        exact hk (eq_of_beq heq ▸ hmem)
      rw [hothers, List.append_nil]
      simp only [Bool.and_self]
    · have hfirst : as.filter (fun a => key a == c && key a == k) = [] := by
        refine List.filter_eq_nil_iff.2 fun a _ heq => ?_
        obtain ⟨heq, heq'⟩ := Bool.and_eq_true_iff.1 heq
        exact hk (eq_of_beq heq' ▸ eq_of_beq heq ▸ hc)
      rw [hfirst, List.nil_append, ih hkeys hc]

end Grouping

namespace Metadata

open DependencyGraph (AreOrdered IsLike)

/-! ### The graph of metadata -/

/-- Every coordinate is listed once, and what declares a constraint is listed. -/
structure IsWhole (m : Metadata) : Prop where
  nodup : (m.revisions.map (·.coordinate)).Nodup
  known : ∀ d ∈ m.constraints, d.source ∈ m.revisions.map (·.coordinate)

variable {m : Metadata}

/-- The revisions artifact by artifact. -/
def grouped (m : Metadata) : List Revision := m.artifacts.flatMap m.revisionsOf

theorem grouped_perm (m : Metadata) : m.grouped.Perm m.revisions := by
  have hartifacts : m.artifacts.Nodup :=
    (List.mergeSort_perm _ _).nodup_iff.2 (nodup_distinct _)
  refine flatMap_filter_perm_self Revision.artifact hartifacts fun r hr => ?_
  exact (List.mergeSort_perm _ _).mem_iff.2 (mem_distinct.2 (List.mem_map_of_mem hr))

theorem nodup_grouped (h : m.IsWhole) : (m.grouped.map (·.coordinate)).Nodup :=
  (m.grouped_perm.map _).nodup_iff.2 h.nodup

theorem distinctBy_revisions {revisions : List Revision}
    (h : (revisions.map (·.coordinate)).Nodup) : distinctBy Revision.same revisions = revisions :=
  distinctBy_eq_self ((List.pairwise_map.1 h).imp fun hne => by simpa [Revision.same] using hne)

/-- No constraint is dropped where every source is known. -/
theorem constraints_ofParts {revisions : List Revision} {constraints : List Constraint}
    (hnodup : (revisions.map (·.coordinate)).Nodup)
    (h : ∀ d ∈ constraints, d.source ∈ revisions.map (·.coordinate)) :
    (DependencyGraph.ofParts revisions constraints).constraints = constraints := by
  refine List.filter_eq_self.2 fun d hd => ?_
  obtain ⟨r, hr, hsource⟩ := List.mem_map.1 (h d hd)
  rw [distinctBy_revisions hnodup]
  exact List.any_eq_true.2 ⟨r, hr, beq_iff_eq.2 hsource⟩

theorem constraints_graph (h : m.IsWhole) : m.graph.constraints =
    (m.grouped.map (·.coordinate)).flatMap m.constraintsOf := by
  rw [List.flatMap_map]
  refine constraints_ofParts (nodup_grouped h) fun d hd => ?_
  obtain ⟨r, hr, hd⟩ := List.mem_flatMap.1 hd
  exact List.mem_map.2 ⟨r, hr, (eq_of_beq (List.mem_filter.1 hd).2).symm⟩

theorem length_constraints_graph (h : m.IsWhole) :
    m.graph.constraints.length = m.constraints.length := by
  rw [constraints_graph h]
  refine (flatMap_filter_perm_self Constraint.source (nodup_grouped h)
    fun d hd => ?_).length_eq
  exact (m.grouped_perm.map _).mem_iff.2 (h.known d hd)

theorem graph_isLike (h : m.IsWhole) (hordered : AreOrdered m.revisions) :
    m.graph.IsLike (.ofParts m.revisions m.constraints) where
  revisions := by
    have hsub : m.grouped ⊆ (DependencyGraph.ofParts m.revisions m.constraints).revisions := by
      intro r hr
      rw [DependencyGraph.mem_revisions_ofParts, distinctBy_revisions h.nodup]
      exact m.grouped_perm.subset hr
    have hsorted := DependencyGraph.sorted_eq_of_perm (hordered.isOrdered_ofParts m.constraints)
      m.grouped_perm hsub
    show Revision.sorted (distinctBy Revision.same m.grouped) =
      Revision.sorted (distinctBy Revision.same m.revisions)
    rwa [distinctBy_revisions (nodup_grouped h), distinctBy_revisions h.nodup]
  constraintsOf c := by
    rw [DependencyGraph.constraintsOf, DependencyGraph.constraintsOf,
      constraints_ofParts h.nodup h.known, constraints_graph h]
    by_cases hc : c ∈ m.grouped.map (·.coordinate)
    · exact filter_flatMap_filter Constraint.source (nodup_grouped h) m.constraints hc
    · -- Nothing is declared by a revision that is not known.
      have hnone : m.constraints.filter (fun d => d.source == c) = [] :=
        List.filter_eq_nil_iff.2 fun d hd heq =>
          hc ((m.grouped_perm.map _).mem_iff.2 (eq_of_beq heq ▸ h.known d hd))
      have hperm := (flatMap_filter_perm_self Constraint.source (nodup_grouped h)
        fun d hd => (m.grouped_perm.map _).mem_iff.2 (h.known d hd)).filter fun d => d.source == c
      rw [hnone] at hperm ⊢
      exact hperm.eq_nil

/-! ### The metadata of a document -/

variable {records : List RevisionRecord}

theorem foldl_addConstraint (m : Metadata) (constraints : List Constraint) :
    constraints.foldl addConstraint m = { m with constraints := m.constraints ++ constraints } := by
  induction constraints generalizing m with
  | nil => simp
  | cons d constraints ih => simp [ih, addConstraint]

theorem addRevision_eq (m : Metadata) (r : Revision) :
    m.addRevision r = { m with revisions := addNew (·.coordinate) m.revisions r } := by
  rw [addRevision, addNew]
  show (if m.revisions.any fun s => r.coordinate == s.coordinate then m else _) = _
  split <;> rfl

theorem addRecord_eq (m : Metadata) (r : RevisionRecord) : m.addRecord r =
    { revisions := addNew (·.coordinate) m.revisions r.revision
      constraints := m.constraints ++ r.constraints
      skipped := m.skipped + (r.dependencies.length - r.constraints.length) } := by
  rw [addRecord, foldl_addConstraint, addRevision_eq]

theorem revisions_ofRecords (records : List RevisionRecord) : (ofRecords records).revisions =
    distinctBy Revision.same (records.map (·.revision)) := by
  have hfold : ∀ m : Metadata, (records.foldl addRecord m).revisions =
      (records.map (·.revision)).foldl (addNew Revision.coordinate) m.revisions := by
    induction records with
    | nil => exact fun m => rfl
    | cons r records ih => exact fun m => (ih (m.addRecord r)).trans (by rw [addRecord_eq]; rfl)
  exact (hfold {}).trans (foldl_addNew_eq_distinctBy Revision.coordinate _)

theorem constraints_ofRecords (records : List RevisionRecord) : (ofRecords records).constraints =
    records.flatMap (·.constraints) := by
  have hfold : ∀ m : Metadata, (records.foldl addRecord m).constraints =
      m.constraints ++ records.flatMap (·.constraints) := by
    induction records with
    | nil => simp
    | cons r records ih => simp [ih, addRecord_eq]
  exact hfold {}

/-- The dependencies of every record become constraints or are skipped. -/
theorem length_add_skipped (records : List RevisionRecord) :
    (ofRecords records).constraints.length + (ofRecords records).skipped =
      (records.flatMap (·.dependencies)).length := by
  have hfold : ∀ m : Metadata, (records.foldl addRecord m).constraints.length +
      (records.foldl addRecord m).skipped =
        m.constraints.length + m.skipped + (records.flatMap (·.dependencies)).length := by
    induction records with
    | nil => exact fun m => rfl
    | cons r records ih =>
      intro m
      have hle : r.constraints.length ≤ r.dependencies.length := List.length_filterMap_le _ _
      rw [List.foldl_cons, ih, addRecord_eq, List.length_append, List.flatMap_cons,
        List.length_append]
      dsimp only
      omega
  exact (hfold {}).trans (Nat.zero_add _)

theorem source_of_constraint {d : DependencyRecord} {source : Coordinate} {c : Constraint}
    (h : d.constraint source = .ok c) : c.source = source := by
  obtain ⟨target, -, h⟩ := exists_of_bind_eq_ok h
  obtain ⟨ranges, -, h⟩ := exists_of_bind_eq_ok h
  obtain ⟨scope, -, h⟩ := exists_of_bind_eq_ok h
  obtain ⟨exclusions, -, h⟩ := exists_of_bind_eq_ok h
  cases h
  rfl

theorem source_of_mem_constraints {r : RevisionRecord} {c : Constraint} (h : c ∈ r.constraints) :
    c.source = r.revision.coordinate := by
  obtain ⟨d, -, hd⟩ := List.mem_filterMap.1 h
  cases hread : d.constraint r.revision.coordinate with
  | error e =>
    rw [hread] at hd
    cases hd
  | ok c' =>
    rw [hread] at hd
    cases hd
    exact source_of_constraint hread

theorem isWhole_ofRecords (records : List RevisionRecord) : (ofRecords records).IsWhole := by
  refine ⟨revisions_ofRecords records ▸ nodup_map_distinctBy Revision.coordinate _, fun d hd => ?_⟩
  rw [constraints_ofRecords] at hd
  obtain ⟨r, hr, hd⟩ := List.mem_flatMap.1 hd
  rw [source_of_mem_constraints hd, revisions_ofRecords]
  exact (mem_map_distinctBy Revision.coordinate).2
    (List.mem_map_of_mem (List.mem_map_of_mem hr))

/-- Leaving out repeated coordinates twice is the same as once. -/
theorem ofParts_ofRecords (records : List RevisionRecord) :
    DependencyGraph.ofParts (ofRecords records).revisions (ofRecords records).constraints =
      .ofParts (records.map (·.revision)) (records.flatMap (·.constraints)) := by
  rw [DependencyGraph.ofParts, distinctBy_revisions (isWhole_ofRecords records).nodup,
    revisions_ofRecords, constraints_ofRecords]
  rfl

/-! ### What a document declares -/

/-- The dependencies that a record of a document declares. -/
def declaredIn (item : Json) : List Json :=
  match item.fields? ["forge", "groupId", "artifactId", "version", "releaseTimestamp",
    "dependencies"] with
  | some [_, _, _, _, _, some (.array dependencies)] => dependencies
  | _ => []

/-- The dependencies that a document of metadata declares. -/
def declared : Json → List Json
  | .array items => items.flatMap declaredIn
  | _ => []

theorem forall₂_of_mapM {α β : Type} {read : α → Option β} {as : List α} {bs : List β}
    (h : as.mapM read = some bs) : List.Forall₂ (fun a b => read a = some b) as bs := by
  induction as generalizing bs with
  | nil =>
    cases h
    exact .nil
  | cons a as ih =>
    rw [List.mapM_cons] at h
    obtain ⟨b, hb, h⟩ := Option.bind_eq_some_iff.1 h
    obtain ⟨bs, hbs, h⟩ := Option.bind_eq_some_iff.1 h
    cases h
    exact .cons hb (ih hbs)

theorem length_declaredIn {item : Json} {r : RevisionRecord}
    (h : RevisionRecord.ofJson? item = some r) :
    (declaredIn item).length = r.dependencies.length := by
  obtain ⟨fields, hfields, h⟩ := Option.bind_eq_some_iff.1 h
  rw [declaredIn, hfields]
  split at h
  next forge group name version released dependencies =>
    obtain ⟨_, -, h⟩ := Option.bind_eq_some_iff.1 h
    obtain ⟨_, -, h⟩ := Option.bind_eq_some_iff.1 h
    obtain ⟨_, -, h⟩ := Option.bind_eq_some_iff.1 h
    obtain ⟨_, -, h⟩ := Option.bind_eq_some_iff.1 h
    obtain ⟨_, -, h⟩ := Option.bind_eq_some_iff.1 h
    obtain ⟨read, hread, h⟩ := Option.bind_eq_some_iff.1 h
    cases h
    match dependencies with
    | none =>
      cases hread
      rfl
    | some (.array items) => exact (forall₂_of_mapM hread).length_eq
  next => cases h

theorem length_declared {v : Json} {records : List RevisionRecord}
    (h : v.list? RevisionRecord.ofJson? = some records) :
    (declared v).length = (records.flatMap (·.dependencies)).length := by
  cases v with
  | array items =>
    refine List.Forall₂.rec (motive := fun items (records : List RevisionRecord) _ =>
      (items.flatMap declaredIn).length = (records.flatMap (·.dependencies)).length) rfl
      (fun hread _ ih => ?_) (forall₂_of_mapM h)
    rw [List.flatMap_cons, List.flatMap_cons, List.length_append, List.length_append,
      length_declaredIn hread, ih]
  | _ => cases h

/-- **Ingestion loses nothing.**  Where a document is read as metadata whose revisions are
transitively ordered, its records are read one by one, every dependency that they declare is a
constraint of the graph or counted as skipped, and the graph has the same revisions and answers
as the graph of the revisions and the readable constraints in the order of the document. -/
theorem graph_matches_document {v : Json} {m : Metadata} (h : ofJson? v = some m)
    (hordered : AreOrdered m.revisions) :
    ∃ records, v.list? RevisionRecord.ofJson? = some records ∧
      m.graph.constraints.length + m.skipped = (declared v).length ∧
      ∀ g, g = DependencyGraph.ofParts (records.map (·.revision))
          (records.flatMap (·.constraints)) →
        m.graph.revisions = g.revisions ∧
        (∀ a, m.graph.revisionsOf a = g.revisionsOf a) ∧
        (∀ c, m.graph.constraintsOf c = g.constraintsOf c) ∧
        (∀ o c asOf transitive, m.graph.resolveDependencies o c asOf transitive =
          g.resolveDependencies o c asOf transitive) ∧
        ∀ o c asOf transitive, m.graph.resolveDependents o c asOf transitive =
          g.resolveDependents o c asOf transitive := by
  obtain ⟨records, hrecords, rfl⟩ := Option.map_eq_some_iff.1 h
  have hwhole := isWhole_ofRecords records
  refine ⟨records, hrecords, ?_, fun g hg => ?_⟩
  · rw [length_constraints_graph hwhole, length_add_skipped, length_declared hrecords]
  · have hlike := graph_isLike hwhole hordered
    have hgraph := (hordered.subset (ofRecords records).grouped_perm.subset).isOrdered_ofParts
      ((ofRecords records).grouped.flatMap fun r => (ofRecords records).constraintsOf r.coordinate)
    rw [ofParts_ofRecords, ← hg] at hlike
    exact ⟨hlike.revisions, hlike.revisionsOf_eq, hlike.constraintsOf,
      hlike.resolveDependencies_eq, hlike.resolveDependents_eq rfl hgraph⟩

/-- A document with two records of one revision and a dependency that cannot be read. -/
def repeatedDocument : Json :=
  let record (name : String) (products : List String) : Json :=
    .object [("groupId", .string "org"), ("artifactId", .string name), ("version", .string "1"),
      ("dependencies", .array (products.map fun p => .object [("product", .string p)]))]
  .array [record "app" ["org:core", "core"], record "core" [], record "app" ["org:log"]]

/-- The records in that document. -/
def repeatedRecords : List RevisionRecord :=
  let coordinate (name : String) : Coordinate := ⟨"mvn", ⟨"org", name⟩, "1"⟩
  [⟨⟨coordinate "app", 0⟩, [⟨"org:core", [], none, false, []⟩, ⟨"core", [], none, false, []⟩]⟩,
    ⟨⟨coordinate "core", 0⟩, []⟩, ⟨⟨coordinate "app", 0⟩, [⟨"org:log", [], none, false, []⟩]⟩]

theorem graph_matches_document_repeated :
    ∃ m, ofJson? repeatedDocument = some m ∧ m.graph.constraints.length + m.skipped = 3 ∧
      m.skipped = 1 ∧
      m.graph.revisions = (DependencyGraph.ofParts (repeatedRecords.map (·.revision))
        (repeatedRecords.flatMap (·.constraints))).revisions := by
  have hread : repeatedDocument.list? RevisionRecord.ofJson? = some repeatedRecords := by
    decide +kernel
  have hm : ofJson? repeatedDocument = some (ofRecords repeatedRecords) :=
    congrArg (Option.map ofRecords) hread
  have hordered : AreOrdered (ofRecords repeatedRecords).revisions := by
    rw [revisions_ofRecords]
    exact DependencyGraph.areOrdered_of_no_three (by decide +kernel)
  obtain ⟨records, hrecords, hcount, hgraph⟩ := graph_matches_document hm hordered
  obtain rfl : repeatedRecords = records := Option.some.inj (hread.symm.trans hrecords)
  exact ⟨_, hm, hcount.trans (by decide +kernel), by decide +kernel, (hgraph _ rfl).1⟩

end Metadata

end Stitch
