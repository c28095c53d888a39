/-
The two files of a stored graph are read back.

* `outcome_readDocument`: the document says what it was written for.  Its counts have
  to fit in 64 bits, as a graph's do (`StoredGraph.Fits`).
* `outcome_readGraph`: the tables are those of the graph that was stored.
-/
import Stitch.Proofs.CallGraph.Document
import Stitch.Proofs.Files.Program
import Stitch.Proofs.Json.RoundTrip
import Stitch.Store.Directory

namespace Stitch

/-! ### Documents as values -/

theorem Json.required_nat64? {n : Nat} (h : Binary.FitsNat n) :
    required nat64? (some (.nat n)) = some n := by
  have hrange : 0 ≤ (n : Int) ∧ (n : Int) < 18446744073709551616 := by omega
  rw [required]
  show (if 0 ≤ (n : Int) ∧ (n : Int) < 18446744073709551616 then some (n : Int).toNat else none) = _
  rw [if_pos hrange, Int.toNat_natCast]

theorem Coordinate.ofJson?_toJson (c : Coordinate) : ofJson? c.toJson = some c := by
  simp [ofJson?, toJson, Json.fields?, Json.required, Json.string?]

theorem Instant.ofText?_text (i : Instant) : ofText? i.text = some i := dif_pos i.readable

namespace StoredGraph

/-- The counts fit in 64 bits. -/
structure Fits (s : StoredGraph) : Prop where
  nodeCount : Binary.FitsNat s.nodeCount
  edgeCount : Binary.FitsNat s.edgeCount

theorem fits_ofGraph {g : MergedGraph} (h : g.Fits) (hsound : g.IsSound) (c : Coordinate)
    (storedAt : Instant) : (ofGraph c g storedAt).Fits where
  nodeCount := MergedGraph.nodeCount_lt h
  edgeCount := MergedGraph.edgeCount_lt h hsound.linked

theorem ofJson?_toJson {s : StoredGraph} (h : s.Fits) : ofJson? s.toJson = some s := by
  have hfields : s.toJson.fields? ["coordinate", "nodeCount", "edgeCount", "storedAt"] =
      some [some s.coordinate.toJson, some (.nat s.nodeCount), some (.nat s.edgeCount),
        some (.string s.storedAt.text)] := by
    simp [toJson, Json.fields?]
  rw [ofJson?, hfields]
  -- Field by field; each is what its reader makes of the value that was written.
  refine Option.bind_eq_some_iff.2 ⟨_, rfl, ?_⟩
  refine Option.bind_eq_some_iff.2 ⟨_, s.coordinate.ofJson?_toJson, ?_⟩
  refine Option.bind_eq_some_iff.2 ⟨_, Json.required_nat64? h.nodeCount, ?_⟩
  refine Option.bind_eq_some_iff.2 ⟨_, Json.required_nat64? h.edgeCount, ?_⟩
  exact Option.bind_eq_some_iff.2 ⟨_, s.storedAt.ofText?_text, rfl⟩

theorem isExact_toJson (s : StoredGraph) : s.toJson.IsExact := by
  have hcoordinate : s.coordinate.toJson.IsExact := by
    refine .object fun m hm => ?_
    simp only [List.mem_cons, List.not_mem_nil, or_false] at hm
    rcases hm with rfl | rfl | rfl | rfl <;> exact .string _
  refine .object fun m hm => ?_
  simp only [List.mem_cons, List.not_mem_nil, or_false] at hm
  rcases hm with rfl | rfl | rfl | rfl
  · exact hcoordinate
  · exact .int _
  · exact .int _
  · exact .string _

/-- The bytes of the document. -/
def bytes (s : StoredGraph) : List UInt8 := Text.Utf8.bytes s.toJson.pretty

end StoredGraph

/-! ### Files -/

namespace DirectoryStore

variable {t : FileTree} {path : Path}

theorem outcome_readDocument {entry : StoredGraph} (h : t.read path = .ok entry.bytes)
    (hfits : entry.Fits) : FileTree.outcome (readDocument path) t = (.ok entry, t) := by
  have hparse : Json.parse? entry.toJson.pretty >>= StoredGraph.ofJson? = some entry := by
    rw [Json.parse?_pretty entry.isExact_toJson, Option.bind_eq_bind, Option.bind_some,
      StoredGraph.ofJson?_toJson hfits]
  rw [readDocument, FileTree.outcome_bind_ok (FileTree.outcome_readText h), hparse]
  exact FileTree.outcome_pure entry

theorem decodeGraph_toBytes {g : MergedGraph} (hsound : g.IsSound) (hfits : g.Fits) :
    decodeGraph g.toDocument.toBytes = .ok g := by
  have hdocument : g.toDocument.Fits := MergedGraph.fits_toDocument hfits hsound
  have hread := (GraphDocument.reads_toBytes hdocument).run?_append []
  rw [List.append_nil] at hread
  rw [decodeGraph, hread]
  show (MergedGraph.ofDocument g.toDocument).mapError _ = _
  rw [MergedGraph.ofDocument_toDocument hsound]
  rfl

theorem outcome_readGraph_bytes {bytes : List UInt8} (h : t.read path = .ok bytes) :
    FileTree.outcome (readGraph path) t = (decodeGraph bytes, t) := by
  rw [readGraph, FileTree.outcome_bind_ok FileTree.outcome_read, h]
  exact FileTree.outcome_liftExcept (decodeGraph bytes)

theorem outcome_readGraph {g : MergedGraph} (h : t.read path = .ok g.toDocument.toBytes)
    (hsound : g.IsSound) (hfits : g.Fits) :
    FileTree.outcome (readGraph path) t = (.ok g, t) := by
  rw [outcome_readGraph_bytes h, decodeGraph_toBytes hsound hfits]

end DirectoryStore

end Stitch
