/-
Dependency graphs as vertices and links.

The tables of a dependency graph can be kept in another way: revisions and artifacts are the
vertices of one graph, a link leads from every artifact to each of its revisions and, for
every constraint, from the revision that declares it to the artifact that it is on.  Links
are enumerated newest first, so the answers have to be sorted again.

`LinkedGraph` is that graph, with the views of a dependency graph computed along its links.
What its vertices and links stand for (`Represents`) is kept by every addition
(`Represents.addRevision`, `Represents.addConstraint`), so that the views are those of the
tables whatever the order in which places were given out.

What the views of a graph have to be is said of the two lists alone (`Views.Describe`), and
that leaves only one answer to each: **`views_ofParts`**.
-/
import Mathlib.Data.List.Forall2
import Std.Data.HashMap
import Stitch.Proofs.Dependency.Views

namespace Stitch

inductive LinkedGraph.Vertex where
  | revision (r : Revision)
  | artifact

inductive LinkedGraph.LinkKind where
  /-- From an artifact to a revision of it. -/
  | release
  /-- From a revision to the target of a constraint, by its place among them. -/
  | constraint (id : Nat)

structure LinkedGraph.Link where
  source : Nat
  target : Nat
  kind : LinkedGraph.LinkKind

structure LinkedGraph where
  vertices : List LinkedGraph.Vertex := []
  /-- The links between places of vertices, the newest first. -/
  links : List LinkedGraph.Link := []
  revisionPlaces : Std.HashMap Coordinate Nat := ∅
  artifactPlaces : Std.HashMap Artifact Nat := ∅
  constraints : List Constraint := []

namespace LinkedGraph

/-! ### Building -/

/-- The place of an artifact, which gets one if it has none. -/
def addArtifact (g : LinkedGraph) (a : Artifact) : LinkedGraph × Nat :=
  match g.artifactPlaces[a]? with
  | some i => (g, i)
  | none =>
    ({ g with
        vertices := g.vertices ++ [.artifact]
        artifactPlaces := g.artifactPlaces.insert a g.vertices.length }, g.vertices.length)

/-- Adds a revision and the link to it, unless its coordinate is known. -/
def addRevision (g : LinkedGraph) (r : Revision) : LinkedGraph :=
  if g.revisionPlaces.contains r.coordinate then g
  else
    let (g, i) := g.addArtifact r.artifact
    let j := g.vertices.length
    { g with
      vertices := g.vertices ++ [.revision r]
      links := ⟨i, j, .release⟩ :: g.links
      revisionPlaces := g.revisionPlaces.insert r.coordinate j }

/-- Adds a constraint and its link, unless its source is unknown. -/
def addConstraint (g : LinkedGraph) (d : Constraint) : LinkedGraph :=
  match g.revisionPlaces[d.source]? with
  | none => g
  | some i =>
    let (g, j) := g.addArtifact d.target
    { g with
      links := ⟨i, j, .constraint g.constraints.length⟩ :: g.links
      constraints := g.constraints ++ [d] }

def ofParts (revisions : List Revision) (constraints : List Constraint) : LinkedGraph :=
  constraints.foldl addConstraint (revisions.foldl addRevision {})

/-! ### Views -/

def outgoing (g : LinkedGraph) (i : Nat) : List Link := g.links.filter fun l => l.source == i

def incoming (g : LinkedGraph) (i : Nat) : List Link := g.links.filter fun l => l.target == i

def revisionAt? (g : LinkedGraph) (i : Nat) : Option Revision :=
  match g.vertices[i]? with
  | some (.revision r) => some r
  | _ => none

/-- The known revision of a coordinate. -/
def revision? (g : LinkedGraph) (c : Coordinate) : Option Revision :=
  g.revisionPlaces[c]?.bind g.revisionAt?

/-- The constraint that a link is for. -/
def Link.id? (l : Link) : Option Nat :=
  match l.kind with
  | .release => none
  | .constraint id => some id

/-- The known revisions, in whatever order their places are stored, sorted. -/
def revisions (g : LinkedGraph) : List Revision :=
  Revision.sorted (g.revisionPlaces.toList.filterMap fun p => g.revisionAt? p.2)

def revisionsOf (g : LinkedGraph) (a : Artifact) : List Revision :=
  match g.artifactPlaces[a]? with
  | none => []
  | some i =>
    ((g.outgoing i).filterMap fun l => g.revisionAt? l.target).mergeSort fun r s => s.atMost r

def constraintsOf (g : LinkedGraph) (c : Coordinate) : List Constraint :=
  match g.revisionPlaces[c]? with
  | none => []
  | some i =>
    let ids := (g.outgoing i).filterMap Link.id?
    (ids.mergeSort (· ≤ ·)).filterMap fun id => g.constraints[id]?

def dependentsOf (g : LinkedGraph) (a : Artifact) : List (Revision × Constraint) :=
  match g.artifactPlaces[a]? with
  | none => []
  | some i =>
    let found := (g.incoming i).filterMap fun l => l.id?.map fun id => (id, l.source)
    (found.mergeSort (·.1 ≤ ·.1)).filterMap fun (id, j) => do
      return (← g.revisionAt? j, ← g.constraints[id]?)

def dangling (g : LinkedGraph) : List Constraint :=
  g.constraints.filter fun d => (g.revisionsOf d.target).isEmpty

/-! ### What a graph stands for -/

variable {g g' : LinkedGraph} {known : List Revision} {kept : List Constraint}

/-- What a link stands for: a known revision, or a constraint with its place. -/
inductive Entry where
  | revision (r : Revision)
  | constraint (d : Constraint) (id : Nat)

/-- The revisions and constraints in the order in which their links were added. -/
def entries (known : List Revision) (kept : List Constraint) : List Entry :=
  known.map .revision ++ kept.zipIdx.map fun p => .constraint p.1 p.2

inductive Stands (g : LinkedGraph) : Entry → Link → Prop
  | revision {r : Revision} {i j : Nat} (hartifact : g.artifactPlaces[r.artifact]? = some i)
    (hrevision : g.revisionPlaces[r.coordinate]? = some j)
    (hr : g.vertices[j]? = some (.revision r)) : Stands g (.revision r) ⟨i, j, .release⟩
  | constraint {d : Constraint} {id i j : Nat} (hsource : g.revisionPlaces[d.source]? = some i)
    (htarget : g.artifactPlaces[d.target]? = some j) :
    Stands g (.constraint d id) ⟨i, j, .constraint id⟩

/-- The graph has these known revisions and these constraints. -/
structure Represents (g : LinkedGraph) (known : List Revision) (kept : List Constraint) :
    Prop where
  constraints : g.constraints = kept
  revision_place : ∀ {c : Coordinate} {i : Nat}, g.revisionPlaces[c]? = some i →
    ∃ r ∈ known, r.coordinate = c ∧ g.vertices[i]? = some (.revision r)
  artifact_place : ∀ {a : Artifact} {i : Nat}, g.artifactPlaces[a]? = some i →
    g.vertices[i]? = some Vertex.artifact
  artifact_unique : ∀ {a b : Artifact} {i : Nat}, g.artifactPlaces[a]? = some i →
    g.artifactPlaces[b]? = some i → a = b
  links : List.Forall₂ g.Stands (entries known kept) g.links.reverse

/-- What was given a place keeps it. -/
structure IsPartOf (g g' : LinkedGraph) : Prop where
  vertex : ∀ {i : Nat} {v : Vertex}, g.vertices[i]? = some v → g'.vertices[i]? = some v
  revision_place : ∀ {c : Coordinate} {i : Nat}, g.revisionPlaces[c]? = some i →
    g'.revisionPlaces[c]? = some i
  artifact_place : ∀ {a : Artifact} {i : Nat}, g.artifactPlaces[a]? = some i →
    g'.artifactPlaces[a]? = some i

theorem IsPartOf.stands (h : g.IsPartOf g') {e : Entry} {l : Link} (hstands : g.Stands e l) :
    g'.Stands e l := by
  cases hstands with
  | revision hartifact hrevision hr =>
    exact .revision (h.artifact_place hartifact) (h.revision_place hrevision) (h.vertex hr)
  | constraint hsource htarget =>
    exact .constraint (h.revision_place hsource) (h.artifact_place htarget)

theorem represents_empty : Represents {} [] [] where
  constraints := rfl
  revision_place h := by simp at h
  artifact_place h := by simp at h
  artifact_unique h := by simp at h
  links := .nil

theorem getElem?_concat_of_eq_some {v w : Vertex} {i : Nat} (h : g.vertices[i]? = some v) :
    (g.vertices ++ [w])[i]? = some v := by
  rw [List.getElem?_append_left (List.getElem?_eq_some_iff.1 h).1, h]

theorem ne_length_of_eq_some {v : Vertex} {i : Nat} (h : g.vertices[i]? = some v) :
    i ≠ g.vertices.length :=
  Nat.ne_of_lt (List.getElem?_eq_some_iff.1 h).1

/-! ### Additions -/

theorem Represents.addArtifact (h : g.Represents known kept) (a : Artifact) :
    (g.addArtifact a).1.Represents known kept ∧
      (g.addArtifact a).1.artifactPlaces[a]? = some (g.addArtifact a).2 ∧
      (g.addArtifact a).1.revisionPlaces = g.revisionPlaces := by
  rw [LinkedGraph.addArtifact]
  split
  next i hplace => exact ⟨h, hplace, rfl⟩
  next hplace =>
    have hpart : g.IsPartOf { g with
        vertices := g.vertices ++ [.artifact]
        artifactPlaces := g.artifactPlaces.insert a g.vertices.length } := by
      refine ⟨getElem?_concat_of_eq_some, id, fun {b i} hb => ?_⟩
      have hne : a ≠ b := fun heq => by simp [← heq, hplace] at hb
      simpa [Std.HashMap.getElem?_insert, hne] using hb
    refine ⟨⟨h.constraints, fun hc => ?_, fun {b i} hb => ?_, fun {b b' i} hb hb' => ?_,
      h.links.imp fun _ _ => hpart.stands⟩, by simp, rfl⟩
    · obtain ⟨r, hr, hcoordinate, hvertex⟩ := h.revision_place hc
      exact ⟨r, hr, hcoordinate, hpart.vertex hvertex⟩
    · rw [Std.HashMap.getElem?_insert] at hb
      split at hb
      next =>
        cases hb
        exact List.getElem?_concat_length
      next => exact hpart.vertex (h.artifact_place hb)
    · -- The new place was nobody's.
      rw [Std.HashMap.getElem?_insert] at hb hb'
      split at hb <;> split at hb'
      next heq heq' => exact (eq_of_beq heq).symm.trans (eq_of_beq heq')
      next =>
        cases hb
        exact absurd rfl (ne_length_of_eq_some (h.artifact_place hb'))
      next =>
        cases hb'
        exact absurd rfl (ne_length_of_eq_some (h.artifact_place hb))
      next => exact h.artifact_unique hb hb'

theorem Represents.exists_stands (h : g.Represents known kept) {e : Entry}
    (he : e ∈ entries known kept) : ∃ l, g.Stands e l := by
  obtain ⟨n, hn, rfl⟩ := List.mem_iff_getElem.1 he
  exact ⟨_, h.links.get hn (h.links.length_eq ▸ hn)⟩

theorem Represents.exists_place (h : g.Represents known kept) {r : Revision} (hr : r ∈ known) :
    ∃ i j, g.artifactPlaces[r.artifact]? = some i ∧ g.revisionPlaces[r.coordinate]? = some j ∧
      g.vertices[j]? = some (.revision r) := by
  obtain ⟨l, hl⟩ := h.exists_stands (e := .revision r)
    (List.mem_append_left _ (List.mem_map_of_mem hr))
  cases hl with
  | revision hartifact hrevision hvertex => exact ⟨_, _, hartifact, hrevision, hvertex⟩

theorem Represents.exists_source (h : g.Represents known kept) {d : Constraint} (hd : d ∈ kept) :
    ∃ i j, g.revisionPlaces[d.source]? = some i ∧ g.artifactPlaces[d.target]? = some j := by
  obtain ⟨id, hid⟩ := List.mem_iff_getElem?.1 hd
  obtain ⟨l, hl⟩ := h.exists_stands (e := .constraint d id)
    (List.mem_append_right _ (List.mem_map.2 ⟨(d, id), List.mem_zipIdx_iff_getElem?.2 hid, rfl⟩))
  cases hl with
  | constraint hsource htarget => exact ⟨_, _, hsource, htarget⟩

theorem Represents.contains_eq (h : g.Represents known kept) (c : Coordinate) :
    g.revisionPlaces.contains c = known.any fun r => c == r.coordinate := by
  rw [Bool.eq_iff_iff, Std.HashMap.contains_eq_isSome_getElem?, Option.isSome_iff_exists,
    List.any_eq_true]
  constructor
  · rintro ⟨i, hi⟩
    obtain ⟨r, hr, rfl, -⟩ := h.revision_place hi
    exact ⟨r, hr, BEq.rfl⟩
  · rintro ⟨r, hr, heq⟩
    obtain ⟨-, j, -, hj, -⟩ := h.exists_place hr
    exact ⟨j, eq_of_beq heq ▸ hj⟩

theorem Represents.addRevision (h : g.Represents known []) (r : Revision) :
    (g.addRevision r).Represents (addNew (·.coordinate) known r) [] := by
  rw [LinkedGraph.addRevision, addNew, h.contains_eq]
  split
  next => exact h
  next hnew =>
    obtain ⟨hartifact, hplace, hplaces⟩ := h.addArtifact r.artifact
    have hunknown : g.revisionPlaces[r.coordinate]? = none := by
      rw [← h.contains_eq, Std.HashMap.contains_eq_isSome_getElem?] at hnew
      simpa using hnew
    rw [← hplaces] at hunknown
    generalize hadd : g.addArtifact r.artifact = added at hartifact hplace hunknown
    obtain ⟨g', i⟩ := added
    dsimp only at hartifact hplace hunknown ⊢
    have hpart : g'.IsPartOf { g' with
        vertices := g'.vertices ++ [.revision r]
        links := ⟨i, g'.vertices.length, .release⟩ :: g'.links
        revisionPlaces := g'.revisionPlaces.insert r.coordinate g'.vertices.length } := by
      refine ⟨getElem?_concat_of_eq_some, fun {c j} hc => ?_, id⟩
      have hne : r.coordinate ≠ c := fun heq => by simp [← heq, hunknown] at hc
      simpa [Std.HashMap.getElem?_insert, hne] using hc
    refine ⟨hartifact.constraints, fun {c j} hc => ?_,
      fun ha => hpart.vertex (hartifact.artifact_place ha), hartifact.artifact_unique, ?_⟩
    · rw [Std.HashMap.getElem?_insert] at hc
      split at hc
      next heq =>
        cases hc
        exact ⟨r, List.mem_concat_self, eq_of_beq heq, List.getElem?_concat_length⟩
      next =>
        obtain ⟨s, hs, hcoordinate, hvertex⟩ := hartifact.revision_place hc
        exact ⟨s, List.mem_append_left _ hs, hcoordinate, hpart.vertex hvertex⟩
    · have hentries : entries (known ++ [r]) [] = entries known [] ++ [.revision r] := by
        simp [entries]
      rw [hentries, List.reverse_cons]
      refine List.rel_append (hartifact.links.imp fun _ _ => hpart.stands) (.cons ?_ .nil)
      exact .revision hplace (by simp) List.getElem?_concat_length

theorem Represents.addConstraint (h : g.Represents known kept) (d : Constraint) :
    (g.addConstraint d).Represents known
      (if known.any fun r => r.coordinate == d.source then kept ++ [d] else kept) := by
  have hknown := h.contains_eq d.source
  simp only [BEq.comm (a := d.source)] at hknown
  rw [LinkedGraph.addConstraint, ← hknown, Std.HashMap.contains_eq_isSome_getElem?]
  split
  next hplace =>
    rw [hplace]
    exact h
  next i hsource =>
    obtain ⟨hartifact, hplace, hplaces⟩ := h.addArtifact d.target
    rw [hsource, Option.isSome_some, if_pos rfl]
    rw [← hplaces] at hsource
    generalize hadd : g.addArtifact d.target = added at hartifact hplace hsource
    obtain ⟨g', j⟩ := added
    dsimp only at hartifact hplace hsource ⊢
    have hpart : g'.IsPartOf { g' with
        links := ⟨i, j, .constraint g'.constraints.length⟩ :: g'.links
        constraints := g'.constraints ++ [d] } := ⟨id, id, id⟩
    refine ⟨congrArg (· ++ [d]) hartifact.constraints, hartifact.revision_place,
      hartifact.artifact_place, hartifact.artifact_unique, ?_⟩
    have hentries : entries known (kept ++ [d]) =
        entries known kept ++ [.constraint d g'.constraints.length] := by
      simp [entries, List.zipIdx_append, hartifact.constraints]
    rw [hentries, List.reverse_cons]
    exact List.rel_append (hartifact.links.imp fun _ _ => hpart.stands)
      (.cons (.constraint hsource hplace) .nil)

theorem represents_ofParts (revisions : List Revision) (constraints : List Constraint) :
    (ofParts revisions constraints).Represents (distinctBy Revision.same revisions)
      (DependencyGraph.ofParts revisions constraints).constraints := by
  have hrevisions : ∀ {g known}, g.Represents known [] →
      (revisions.foldl LinkedGraph.addRevision g).Represents
        (revisions.foldl (addNew (·.coordinate)) known) [] := by
    induction revisions with
    | nil => exact id
    | cons r revisions ih => exact fun h => ih (h.addRevision r)
  have hconstraints : ∀ {g known kept}, g.Represents known kept →
      (constraints.foldl LinkedGraph.addConstraint g).Represents known
        (kept ++ constraints.filter fun d => known.any fun r => r.coordinate == d.source) := by
    induction constraints with
    | nil => simp
    | cons d constraints ih =>
      intro g known kept h
      have hstep := ih (h.addConstraint d)
      rw [List.filter_cons]
      split at hstep
      next hknown => simpa [hknown] using hstep
      next hunknown => simpa [hunknown] using hstep
  have h := hconstraints (hrevisions represents_empty)
  rwa [foldl_addNew_eq_distinctBy, List.nil_append] at h

/-! ### Answers along links -/

section Answers

variable {β : Type}

theorem revisionAt?_eq_some_iff {i : Nat} {r : Revision} :
    g.revisionAt? i = some r ↔ g.vertices[i]? = some (.revision r) := by
  rw [revisionAt?]
  split <;> simp_all

/-- What is read off the links, newest first, is what is read off the revisions and the
constraints, oldest first. -/
theorem Represents.filterMap_links (h : g.Represents known kept) {q : Link → Option β}
    (onRevision : Revision → Option β) (onConstraint : Constraint × Nat → Option β)
    (hrevision : ∀ {r l}, g.Stands (.revision r) l → onRevision r = q l)
    (hconstraint : ∀ {d id l}, g.Stands (.constraint d id) l → onConstraint (d, id) = q l) :
    g.links.filterMap q =
      (known.filterMap onRevision ++ kept.zipIdx.filterMap onConstraint).reverse := by
  let onEntry : Entry → Option β
    | .revision r => onRevision r
    | .constraint d id => onConstraint (d, id)
  have hentry : ∀ {e l}, g.Stands e l → onEntry e = q l := fun {e l} hstands =>
    match e with
    | .revision _ => hrevision hstands
    | .constraint _ _ => hconstraint hstands
  have hlinks : (entries known kept).filterMap onEntry = g.links.reverse.filterMap q := by
    refine List.Forall₂.rec (motive := fun es ls _ => es.filterMap onEntry = ls.filterMap q) rfl
      (fun hstands _ ih => ?_) h.links
    rw [List.filterMap_cons, List.filterMap_cons, hentry hstands, ih]
  rw [entries, List.filterMap_append, List.filterMap_map, List.filterMap_map] at hlinks
  have hread : g.links.filterMap q = ((g.links.reverse).filterMap q).reverse := by
    rw [← List.filterMap_reverse, List.reverse_reverse]
  rw [hread, ← hlinks]
  rfl

/-- What is read off the links for constraints alone. -/
theorem Represents.filterMap_links_constraints (h : g.Represents known kept)
    {q : Link → Option β} (onConstraint : Constraint × Nat → Option β)
    (hrevision : ∀ {r l}, g.Stands (.revision r) l → none = q l)
    (hconstraint : ∀ {d id l}, g.Stands (.constraint d id) l → onConstraint (d, id) = q l) :
    g.links.filterMap q = (kept.zipIdx.filterMap onConstraint).reverse := by
  rw [h.filterMap_links (fun _ => none) onConstraint hrevision hconstraint,
    List.filterMap_eq_nil_iff.2 fun _ _ => rfl, List.nil_append]

theorem filterMap_zipIdx_congr {f : Constraint × Nat → Option β} {k : Constraint → Option β}
    (h : ∀ d id, kept[id]? = some d → f (d, id) = k d) :
    kept.zipIdx.filterMap f = kept.filterMap k := by
  have hmap : (kept.zipIdx.map Prod.fst).filterMap k = kept.zipIdx.filterMap f := by
    rw [List.filterMap_map]
    exact List.filterMap_congr fun p hp =>
      (h p.1 p.2 (List.mem_zipIdx_iff_getElem?.1 hp)).symm
  rw [← hmap, List.zipIdx_map_fst]

theorem Represents.revision?_eq (h : g.Represents known kept)
    (hnodup : (known.map (·.coordinate)).Nodup) (c : Coordinate) :
    g.revision? c = known.find? fun r => r.coordinate == c := by
  refine Option.ext fun r => ?_
  rw [find?_eq_some_iff_of_nodup hnodup, revision?, Option.bind_eq_some_iff]
  simp only [revisionAt?_eq_some_iff]
  constructor
  · rintro ⟨i, hi, hr⟩
    obtain ⟨s, hs, hcoordinate, hs'⟩ := h.revision_place hi
    cases hr.symm.trans hs'
    exact ⟨hs, hcoordinate⟩
  · rintro ⟨hr, rfl⟩
    obtain ⟨-, j, -, hj, hvertex⟩ := h.exists_place hr
    exact ⟨j, hj, hvertex⟩

theorem Represents.place_eq_iff (h : g.Represents known kept) {c c' : Coordinate} {i i' : Nat}
    (hi : g.revisionPlaces[c]? = some i) (hi' : g.revisionPlaces[c']? = some i') :
    c = c' ↔ i = i' := by
  constructor
  · rintro rfl
    exact Option.some.inj (hi.symm.trans hi')
  · rintro rfl
    obtain ⟨r, -, rfl, hr⟩ := h.revision_place hi
    obtain ⟨r', -, rfl, hr'⟩ := h.revision_place hi'
    cases hr.symm.trans hr'
    rfl

theorem Represents.artifact_place_eq_iff (h : g.Represents known kept) {a b : Artifact}
    {i j : Nat} (hi : g.artifactPlaces[a]? = some i) (hj : g.artifactPlaces[b]? = some j) :
    a = b ↔ i = j := by
  constructor
  · rintro rfl
    exact Option.some.inj (hi.symm.trans hj)
  · rintro rfl
    exact h.artifact_unique hi hj

/-- In whatever order places are stored, they lead to the known revisions. -/
theorem Represents.revisions_perm (h : g.Represents known kept)
    (hnodup : (known.map (·.coordinate)).Nodup) :
    (g.revisionPlaces.toList.filterMap fun p => g.revisionAt? p.2).Perm known := by
  have hcoordinate : ∀ p ∈ g.revisionPlaces.toList,
      (g.revisionAt? p.2).map (·.coordinate) = some p.1 := by
    intro p hp
    obtain ⟨r, -, hr, hvertex⟩ :=
      h.revision_place (Std.HashMap.mem_toList_iff_getElem?_eq_some.1 hp)
    rw [revisionAt?_eq_some_iff.2 hvertex, Option.map_some, hr]
  have hkeys : (g.revisionPlaces.toList.filterMap fun p => g.revisionAt? p.2).map
      (·.coordinate) = g.revisionPlaces.keys := by
    rw [List.map_filterMap, List.filterMap_congr hcoordinate, List.filterMap_eq_map',
      Std.HashMap.map_fst_toList_eq_keys]
  refine (List.perm_ext_iff_of_nodup ?_ (hnodup.of_map _)).2 fun r => ?_
  · exact (hkeys ▸ Std.HashMap.nodup_keys).of_map _
  · rw [List.mem_filterMap]
    constructor
    · rintro ⟨⟨c, i⟩, hp, hr⟩
      obtain ⟨s, hs, -, hvertex⟩ :=
        h.revision_place (Std.HashMap.mem_toList_iff_getElem?_eq_some.1 hp)
      rw [revisionAt?_eq_some_iff.2 hvertex] at hr
      cases hr
      exact hs
    · intro hr
      obtain ⟨-, j, -, hj, hvertex⟩ := h.exists_place hr
      exact ⟨(r.coordinate, j), Std.HashMap.mem_toList_iff_getElem?_eq_some.2 hj,
        revisionAt?_eq_some_iff.2 hvertex⟩

/-- The places of artifacts are not those of revisions. -/
theorem Represents.place_ne (h : g.Represents known kept) {a : Artifact} {c : Coordinate}
    {i j : Nat} (hi : g.artifactPlaces[a]? = some i) (hj : g.revisionPlaces[c]? = some j) :
    j ≠ i := by
  rintro rfl
  obtain ⟨r, -, -, hr⟩ := h.revision_place hj
  cases hr.symm.trans (h.artifact_place hi)

theorem Represents.revisionsOf_eq (h : g.Represents known kept) (a : Artifact) :
    g.revisionsOf a = (known.filter fun r => r.artifact == a).reverse.mergeSort
      fun r s => s.atMost r := by
  rw [LinkedGraph.revisionsOf]
  split
  next hnone =>
    have hempty : (known.filter fun r => r.artifact == a) = [] :=
      List.filter_eq_nil_iff.2 fun r hr heq => by
        obtain ⟨i, -, hi, -⟩ := h.exists_place hr
        simp [eq_of_beq heq, hnone] at hi
    rw [hempty, List.reverse_nil, List.mergeSort_nil]
  next i hi =>
    have hrevision : ∀ {r l}, g.Stands (.revision r) l →
        Option.guard (fun r => r.artifact == a) r =
          if l.source == i then g.revisionAt? l.target else none := by
      intro r l hstands
      cases hstands with
      | revision hartifact _ hvertex =>
        simp [Option.guard, h.artifact_place_eq_iff hartifact hi,
          revisionAt?_eq_some_iff.2 hvertex]
    have hconstraint : ∀ {d id l}, g.Stands (.constraint d id) l →
        (none : Option Revision) = if l.source == i then g.revisionAt? l.target else none := by
      intro d id l hstands
      cases hstands with
      | constraint hsource _ => simp [h.place_ne hi hsource]
    rw [outgoing, List.filterMap_filter,
      h.filterMap_links _ (fun _ => none) hrevision hconstraint,
      List.filterMap_eq_filter, List.filterMap_eq_nil_iff.2 fun _ _ => rfl, List.append_nil]

theorem pairwise_filterMap_zipIdx {f : Constraint × Nat → Option β} {id : β → Nat}
    (hf : ∀ {p b}, f p = some b → id b = p.2) :
    (kept.zipIdx.filterMap f).Pairwise fun a b => id a < id b :=
  (pairwise_zipIdx kept).filterMap f fun _ _ hlt _ ha _ hb => by
    rwa [hf ha, hf hb]

theorem Represents.constraintsOf_eq (h : g.Represents known kept) (c : Coordinate) :
    g.constraintsOf c = kept.filter fun d => d.source == c := by
  rw [LinkedGraph.constraintsOf]
  split
  next hnone =>
    symm
    refine List.filter_eq_nil_iff.2 fun d hd heq => ?_
    obtain ⟨i, -, hi, -⟩ := h.exists_source hd
    simp [eq_of_beq heq, hnone] at hi
  next i hi =>
    have hrevision : ∀ {r l}, g.Stands (.revision r) l →
        none = if l.source == i then l.id? else none := by
      rintro r _ ⟨⟩
      simp [Link.id?]
    have hconstraint : ∀ {d id l}, g.Stands (.constraint d id) l →
        (if d.source == c then some id else none) = if l.source == i then l.id? else none := by
      intro d id l hstands
      cases hstands with
      | constraint hsource _ => simp [h.place_eq_iff hsource hi, Link.id?]
    rw [outgoing, List.filterMap_filter,
      h.filterMap_links_constraints (fun p => if p.1.source == c then some p.2 else none)
        hrevision hconstraint]
    have hids : (kept.zipIdx.filterMap fun p => if p.1.source == c then some p.2 else none).Pairwise
        fun a b => id a < id b :=
      pairwise_filterMap_zipIdx fun {p b} hb => by
        split at hb
        next => exact (Option.some.inj hb).symm
        next => cases hb
    simp only
    rw [show (fun a b : Nat => decide (a ≤ b)) = fun a b => decide (id a ≤ id b) from rfl,
      mergeSort_eq_of_pairwise_lt hids (List.reverse_perm _).symm, List.filterMap_filterMap,
      h.constraints,
      filterMap_zipIdx_congr (k := Option.guard fun d => d.source == c) fun d id hd => ?_,
      List.filterMap_eq_filter]
    by_cases heq : d.source = c
    · simp [heq, hd, Option.guard]
    · simp [heq, Option.guard]

theorem Represents.dependentsOf_eq (h : g.Represents known kept) (a : Artifact) :
    g.dependentsOf a = (kept.filter fun d => d.target == a).filterMap fun d =>
      (g.revision? d.source).map fun r => (r, d) := by
  rw [LinkedGraph.dependentsOf]
  split
  next hnone =>
    have hempty : (kept.filter fun d => d.target == a) = [] :=
      List.filter_eq_nil_iff.2 fun d hd heq => by
        obtain ⟨-, j, -, hj⟩ := h.exists_source hd
        simp [eq_of_beq heq, hnone] at hj
    rw [hempty, List.filterMap_nil]
  next i hi =>
    have hrevision : ∀ {r l}, g.Stands (.revision r) l →
        none = if l.target == i then l.id?.map fun id => (id, l.source) else none := by
      rintro r _ ⟨⟩
      simp [Link.id?]
    have hconstraint : ∀ {d id l}, g.Stands (.constraint d id) l →
        (if d.target == a then g.revisionPlaces[d.source]?.map fun j => (id, j) else none) =
          if l.target == i then l.id?.map fun id => (id, l.source) else none := by
      intro d id l hstands
      cases hstands with
      | constraint hsource htarget =>
        simp [h.artifact_place_eq_iff htarget hi, hsource, Link.id?]
    rw [incoming, List.filterMap_filter,
      h.filterMap_links_constraints
        (fun p =>
          if p.1.target == a then g.revisionPlaces[p.1.source]?.map fun j => (p.2, j) else none)
        hrevision hconstraint]
    have hids : (kept.zipIdx.filterMap fun p =>
        if p.1.target == a then g.revisionPlaces[p.1.source]?.map fun j => (p.2, j)
        else none).Pairwise fun a b => a.1 < b.1 :=
      pairwise_filterMap_zipIdx fun {p b} hb => by
        split at hb
        next =>
          obtain ⟨j, -, rfl⟩ := Option.map_eq_some_iff.1 hb
          rfl
        next => cases hb
    simp only
    rw [mergeSort_eq_of_pairwise_lt hids (List.reverse_perm _).symm, List.filterMap_filterMap,
      h.constraints, List.filterMap_filter]
    refine filterMap_zipIdx_congr fun d id hd => ?_
    by_cases heq : d.target = a
    · simp only [heq, revision?]
      cases g.revisionPlaces[d.source]? with
      | none => simp
      | some j => cases hr : g.revisionAt? j <;> simp [hr, hd]
    · simp [heq]

end Answers

end LinkedGraph

/-! ### The views of a graph that is made of parts -/

def LinkedGraph.views (g : LinkedGraph) : Views :=
  ⟨g.revisions, g.constraints, g.revisionsOf, g.constraintsOf, g.dependentsOf, g.dangling⟩

variable {revisions : List Revision} {constraints : List Constraint}

/-- The views along links are those of the tables. -/
theorem LinkedGraph.views_eq
    (hordered : (DependencyGraph.ofParts revisions constraints).IsOrdered) :
    (ofParts revisions constraints).views =
      (DependencyGraph.ofParts revisions constraints).views := by
  have h := represents_ofParts revisions constraints
  have hnodup : ((distinctBy Revision.same revisions).map (·.coordinate)).Nodup :=
    nodup_map_distinctBy Revision.coordinate revisions
  have htables : ∀ c, (ofParts revisions constraints).revision? c =
      (DependencyGraph.ofParts revisions constraints).revision? c := fun c =>
    Option.ext fun r => by
      rw [h.revision?_eq hnodup, find?_eq_some_iff_of_nodup hnodup,
        DependencyGraph.revision?_eq_some_iff, DependencyGraph.mem_revisions_ofParts]
  have hrevisionsOf : ∀ a, (ofParts revisions constraints).revisionsOf a =
      (DependencyGraph.ofParts revisions constraints).revisionsOf a := fun a => by
    have hperm : ((DependencyGraph.ofParts revisions constraints).revisionsOf a).Perm
        ((distinctBy Revision.same revisions).filter fun r => r.artifact == a).reverse :=
      ((List.reverse_perm _).trans (DependencyGraph.revisions_ofParts_perm.filter _)).trans
        (List.reverse_perm _).symm
    have hmem : ∀ {r}, r ∈ (DependencyGraph.ofParts revisions constraints).revisionsOf a →
        r ∈ (DependencyGraph.ofParts revisions constraints).revisions := fun hr =>
      (DependencyGraph.mem_revisionsOf.1 hr).1
    rw [h.revisionsOf_eq, ← mergeSort_eq_of_perm
      (fun r hr s hs t ht hsr hts =>
        hordered.atMost_trans (hmem ht) (hmem hs) (hmem hr) hts hsr)
      (fun r s => Coordinate.atMost_total s.coordinate r.coordinate)
      (fun r hr s hs hsr hrs => DependencyGraph.eq_of_atMost (hmem hr) (hmem hs) hrs hsr) hperm,
      List.mergeSort_of_pairwise (DependencyGraph.pairwise_revisionsOf hordered a)]
  refine Views.ext ?_ h.constraints (funext hrevisionsOf) (funext h.constraintsOf_eq)
    (funext fun a => ?_) ?_
  · have hperm : (DependencyGraph.ofParts revisions constraints).revisions.Perm _ :=
      DependencyGraph.revisions_ofParts_perm.trans (h.revisions_perm hnodup).symm
    exact (DependencyGraph.sorted_eq_of_perm hordered hperm (List.Subset.refl _)).symm.trans
      (DependencyGraph.sorted_revisions hordered)
  · show (ofParts revisions constraints).dependentsOf a =
      (DependencyGraph.ofParts revisions constraints).dependentsOf a
    rw [h.dependentsOf_eq, DependencyGraph.dependentsOf]
    simp only [htables]
  · show (ofParts revisions constraints).dangling =
      (DependencyGraph.ofParts revisions constraints).dangling
    rw [dangling, DependencyGraph.dangling, h.constraints]
    simp only [hrevisionsOf]

/-- **The views of a dependency graph.**  Where the revisions of each artifact are transitively
ordered, the graph of a list of revisions and a list of constraints answers along its links as
from its tables, and these are the answers that the two lists have, and the only ones. -/
theorem views_ofParts (constraints : List Constraint)
    (hordered : DependencyGraph.AreOrdered revisions) :
    (LinkedGraph.ofParts revisions constraints).views =
      (DependencyGraph.ofParts revisions constraints).views ∧
    ∀ v : Views, v.Describe revisions constraints ↔
      v = (DependencyGraph.ofParts revisions constraints).views := by
  have hordered := hordered.isOrdered_ofParts constraints
  have hdescribe := DependencyGraph.describe_ofParts hordered
  exact ⟨LinkedGraph.views_eq hordered, fun v => ⟨fun hv => hv.eq hdescribe,
    fun heq => heq ▸ hdescribe⟩⟩

/-- Revisions of which one is repeated. -/
def repeatedRevisions : List Revision :=
  [⟨⟨"mvn", ⟨"org", "core"⟩, "2"⟩, 4⟩, ⟨⟨"mvn", ⟨"org", "core"⟩, "1"⟩, 2⟩,
    ⟨⟨"mvn", ⟨"org", "core"⟩, "2"⟩, 9⟩]

/-- Constraints of which one leads nowhere, and one comes from nowhere. -/
def strayConstraints : List Constraint :=
  [{ source := ⟨"mvn", ⟨"org", "core"⟩, "1"⟩, target := ⟨"org", "log"⟩ },
    { source := ⟨"mvn", ⟨"org", "core"⟩, "3"⟩, target := ⟨"org", "core"⟩ },
    { source := ⟨"mvn", ⟨"org", "core"⟩, "2"⟩, target := ⟨"org", "core"⟩ }]

theorem views_ofParts_repeated :
    (LinkedGraph.ofParts repeatedRevisions strayConstraints).views.Describe repeatedRevisions
      strayConstraints ∧
    ⟨⟨"mvn", ⟨"org", "core"⟩, "2"⟩, 4⟩ ∈
      (LinkedGraph.ofParts repeatedRevisions strayConstraints).revisions ∧
    (LinkedGraph.ofParts repeatedRevisions strayConstraints).constraints.length = 2 := by
  have hordered : DependencyGraph.AreOrdered repeatedRevisions :=
    DependencyGraph.areOrdered_of_no_three (by decide +kernel)
  obtain ⟨hlinked, hdescribe⟩ := views_ofParts strayConstraints hordered
  have h := (hdescribe _).2 hlinked
  have hknown :
      (DependencyGraph.ofParts repeatedRevisions strayConstraints).constraints.length = 2 := by
    decide +kernel
  refine ⟨h, (h.mem_revisions _).2 (by decide +kernel), ?_⟩
  rw [← hknown]
  exact congrArg (fun v => v.constraints.length) hlinked

end Stitch
