/-
The document of a partial graph is read back.

Each record is read field by field, and a field that is left out stands for what it
was left out for: no hierarchy, no instantiated types, no abstract methods.  A
hierarchy is written in the order of its types and read into the same map.

* `ofJson?_toJson` for types, hierarchies, call sites and graphs, up to the release
  time, which has to fit in 64 bits (`Revision.Fits`);
* `isExact_toJson`: what is written has no numbers but integers, so its text is read
  back as it is;
* **`PartialGraph.ofText?_text`** puts both together.  What was read from any text has a
  release time that fits, and so its document is read as the same graph again
  (`ofText?_text_of_ofText?`).
-/
import Stitch.CallGraph.Partial
import Stitch.Proofs.Json.RoundTrip
import Stitch.Proofs.SortedMap

namespace Stitch

/-! ### Values -/

namespace Json

variable {α : Type}

theorem list?_map {item : Json → Option α} {toJson : α → Json} {as : List α}
    (h : ∀ a ∈ as, item (toJson a) = some a) : list? item (.array (as.map toJson)) = some as := by
  rw [list?]
  induction as with
  | nil => rfl
  | cons a as ih =>
    rw [List.map_cons, List.mapM_cons, h a List.mem_cons_self, Option.bind_eq_bind,
      Option.bind_some, ih fun b hb => h b (List.mem_cons_of_mem a hb)]
    rfl

theorem strings?_strings (texts : List String) : strings? (strings texts) = some texts :=
  list?_map fun _ _ => rfl

theorem members?_map {item : Json → Option α} {toJson : α → Json} {es : List (String × α)}
    (h : ∀ e ∈ es, item (toJson e.2) = some e.2) :
    members? item (.object (es.map fun e => (e.1, toJson e.2))) = some es := by
  rw [members?]
  induction es with
  | nil => rfl
  | cons e es ih =>
    rw [List.map_cons, List.mapM_cons, h e List.mem_cons_self, Option.map_some,
      Option.bind_eq_bind, Option.bind_some, ih fun e' he' => h e' (List.mem_cons_of_mem e he')]
    rfl

theorem isExact_strings (texts : List String) : (strings texts).IsExact := by
  refine .array fun v hv => ?_
  obtain ⟨text, -, rfl⟩ := List.mem_map.1 hv
  exact .string text

end Json

/-! ### Types and their hierarchy -/

/-- Abstract methods are written unless there are none, and then read as none. -/
theorem TypeDecl.exists_fields?_toJson (d : TypeDecl) : ∃ field,
    d.toJson.fields? ["methods", "abstractMethods", "superClasses", "superInterfaces"] =
      some [some (.strings d.methods), field, some (.strings d.superClasses),
        some (.strings d.superInterfaces)] ∧
    Json.orElse [] Json.strings? field = some d.abstractMethods := by
  obtain ⟨methods, abstractMethods, superClasses, superInterfaces⟩ := d
  cases abstractMethods with
  | nil => exact ⟨none, by simp [toJson, Json.fields?], rfl⟩
  | cons m ms =>
    exact ⟨some (.strings (m :: ms)), by simp [toJson, Json.fields?], Json.strings?_strings _⟩

theorem TypeDecl.ofJson?_toJson (d : TypeDecl) : ofJson? d.toJson = some d := by
  obtain ⟨field, hfields, hfield⟩ := d.exists_fields?_toJson
  rw [ofJson?, hfields]
  refine Option.bind_eq_some_iff.2 ⟨_, rfl, ?_⟩
  refine Option.bind_eq_some_iff.2 ⟨_, Json.strings?_strings d.methods, ?_⟩
  refine Option.bind_eq_some_iff.2 ⟨_, hfield, ?_⟩
  refine Option.bind_eq_some_iff.2 ⟨_, Json.strings?_strings d.superClasses, ?_⟩
  exact Option.bind_eq_some_iff.2 ⟨_, Json.strings?_strings d.superInterfaces, rfl⟩

theorem TypeDecl.isExact_toJson (d : TypeDecl) : d.toJson.IsExact := by
  refine .object fun m hm => ?_
  have hcases : ∃ texts, m.2 = .strings texts := by
    simp only [List.mem_append, List.mem_cons, List.not_mem_nil, or_false] at hm
    rcases hm with (rfl | hm) | rfl | rfl
    · exact ⟨_, rfl⟩
    · split at hm
      · cases hm
      · rw [List.mem_singleton] at hm
        exact ⟨_, congrArg Prod.snd hm⟩
    · exact ⟨_, rfl⟩
    · exact ⟨_, rfl⟩
  obtain ⟨texts, htexts⟩ := hcases
  rw [htexts]
  exact Json.isExact_strings texts

theorem ClassHierarchy.ofJson?_toJson (h : ClassHierarchy) : ofJson? (toJson h) = some h := by
  rw [ofJson?, toJson, Json.members?_map fun e _ => e.2.ofJson?_toJson, Option.map_some,
    SortedMap.ofList_entries]

theorem ClassHierarchy.isExact_toJson (h : ClassHierarchy) : (toJson h).IsExact := by
  refine .object fun m hm => ?_
  obtain ⟨e, -, rfl⟩ := List.mem_map.1 hm
  exact e.2.isExact_toJson

/-! ### Calls and revisions -/

theorem CallKind.ofJson?_toJson (k : CallKind) : ofJson? k.toJson = some k := by
  cases k <;> decide

theorem CallSite.ofJson?_toJson (c : CallSite) : ofJson? c.toJson = some c := by
  have hfields : c.toJson.fields? ["caller", "calleeRef", "kind"] =
      some [some (.string c.caller), some (.string c.callee), some c.kind.toJson] := by
    simp [toJson, Json.fields?]
  rw [ofJson?, hfields]
  refine Option.bind_eq_some_iff.2 ⟨_, rfl, ?_⟩
  refine Option.bind_eq_some_iff.2 ⟨_, rfl, ?_⟩
  refine Option.bind_eq_some_iff.2 ⟨_, rfl, ?_⟩
  exact Option.bind_eq_some_iff.2 ⟨_, c.kind.ofJson?_toJson, rfl⟩

theorem CallSite.isExact_toJson (c : CallSite) : c.toJson.IsExact := by
  refine .object fun m hm => ?_
  simp only [List.mem_cons, List.not_mem_nil, or_false] at hm
  rcases hm with rfl | rfl | rfl <;> exact .string _

/-- The release time fits in 64 bits. -/
def Revision.Fits (r : Revision) : Prop :=
  -9223372036854775808 ≤ r.released ∧ r.released < 9223372036854775808

theorem Revision.ofJson?_toJson {r : Revision} (h : r.Fits) : ofJson? r.toJson = some r := by
  have hfields : r.toJson.fields? ["forge", "groupId", "artifactId", "version",
      "releaseTimestamp"] = some [some (.string r.coordinate.forge),
        some (.string r.coordinate.artifact.group), some (.string r.coordinate.artifact.name),
        some (.string r.coordinate.version), some (.int r.released)] := by
    simp [toJson, Json.fields?]
  have hreleased : Json.orElse 0 Json.int64? (some (.int r.released)) = some r.released :=
    if_pos h
  rw [ofJson?, hfields]
  refine Option.bind_eq_some_iff.2 ⟨_, rfl, ?_⟩
  refine Option.bind_eq_some_iff.2 ⟨_, rfl, ?_⟩
  refine Option.bind_eq_some_iff.2 ⟨_, rfl, ?_⟩
  refine Option.bind_eq_some_iff.2 ⟨_, rfl, ?_⟩
  refine Option.bind_eq_some_iff.2 ⟨_, rfl, ?_⟩
  exact Option.bind_eq_some_iff.2 ⟨_, hreleased, rfl⟩

theorem Json.fits_of_int64? {v : Json} {i : Int} (h : v.int64? = some i) :
    -9223372036854775808 ≤ i ∧ i < 9223372036854775808 := by
  rw [int64?.eq_def] at h
  split at h
  next j =>
    obtain ⟨hfits, hj⟩ := Option.ite_none_right_eq_some.1 h
    rwa [← Option.some.inj hj]
  next => cases h

/-- A release time that is read fits, and so does the zero that one left out stands for. -/
theorem Revision.fits_of_ofJson? {v : Json} {r : Revision} (h : ofJson? v = some r) : r.Fits := by
  rw [ofJson?, Option.bind_eq_bind, Option.bind_eq_some_iff] at h
  obtain ⟨fields, -, h⟩ := h
  split at h
  next forge group name version released =>
    obtain ⟨_, -, h⟩ := Option.bind_eq_some_iff.1 h
    obtain ⟨_, -, h⟩ := Option.bind_eq_some_iff.1 h
    obtain ⟨_, -, h⟩ := Option.bind_eq_some_iff.1 h
    obtain ⟨_, -, h⟩ := Option.bind_eq_some_iff.1 h
    obtain ⟨time, htime, h⟩ := Option.bind_eq_some_iff.1 h
    obtain rfl := Option.some.inj h
    cases released with
    | none =>
      obtain rfl : 0 = time := Option.some.inj htime
      simp [Revision.Fits]
    | some v => exact Json.fits_of_int64? htime
  next => cases h

theorem Revision.isExact_toJson (r : Revision) : r.toJson.IsExact := by
  refine .object fun m hm => ?_
  simp only [List.mem_cons, List.not_mem_nil, or_false] at hm
  rcases hm with rfl | rfl | rfl | rfl | rfl
  · exact .string _
  · exact .string _
  · exact .string _
  · exact .string _
  · exact .int _

/-! ### Graphs -/

namespace PartialGraph

theorem fields?_toJson (g : PartialGraph) :
    g.toJson.fields? ["revision", "classHierarchy", "internalNodes", "externalNodeReferences",
      "instantiatedTypes", "callEdges"] =
      some [some g.revision.toJson, g.hierarchy.map ClassHierarchy.toJson,
        some (.strings g.internalNodes), some (.strings g.externalReferences),
        g.instantiatedTypes.map .strings, some (.array (g.calls.map CallSite.toJson))] := by
  obtain ⟨revision, hierarchy, internalNodes, externalReferences, instantiatedTypes, calls⟩ := g
  cases hierarchy <;> cases instantiatedTypes <;> simp [toJson, Json.fields?]

theorem ofJson?_toJson {g : PartialGraph} (h : g.revision.Fits) : ofJson? g.toJson = some g := by
  have hhierarchy : Json.optional ClassHierarchy.ofJson?
      (g.hierarchy.map ClassHierarchy.toJson) = some g.hierarchy := by
    cases g.hierarchy with
    | none => rfl
    | some hierarchy =>
      show (ClassHierarchy.ofJson? (ClassHierarchy.toJson hierarchy)).map some = _
      rw [ClassHierarchy.ofJson?_toJson, Option.map_some]
  have htypes : Json.optional Json.strings? (g.instantiatedTypes.map .strings) =
      some g.instantiatedTypes := by
    cases g.instantiatedTypes with
    | none => rfl
    | some types =>
      show (Json.strings? (.strings types)).map some = _
      rw [Json.strings?_strings, Option.map_some]
  rw [ofJson?, fields?_toJson]
  refine Option.bind_eq_some_iff.2 ⟨_, rfl, ?_⟩
  refine Option.bind_eq_some_iff.2 ⟨_, Revision.ofJson?_toJson h, ?_⟩
  refine Option.bind_eq_some_iff.2 ⟨_, hhierarchy, ?_⟩
  refine Option.bind_eq_some_iff.2 ⟨_, Json.strings?_strings g.internalNodes, ?_⟩
  refine Option.bind_eq_some_iff.2 ⟨_, Json.strings?_strings g.externalReferences, ?_⟩
  refine Option.bind_eq_some_iff.2 ⟨_, htypes, ?_⟩
  exact Option.bind_eq_some_iff.2 ⟨_, Json.list?_map fun c _ => c.ofJson?_toJson, rfl⟩

theorem isExact_toJson (g : PartialGraph) : g.toJson.IsExact := by
  refine .object fun m hm => ?_
  simp only [List.mem_append, List.mem_cons, List.not_mem_nil, or_false, List.mem_map] at hm
  rcases hm with (((rfl | ⟨hierarchy, -, rfl⟩) | rfl | rfl) | ⟨types, -, rfl⟩) | rfl
  · exact g.revision.isExact_toJson
  · exact ClassHierarchy.isExact_toJson hierarchy
  · exact Json.isExact_strings _
  · exact Json.isExact_strings _
  · exact Json.isExact_strings types
  · refine .array fun v hv => ?_
    obtain ⟨c, -, rfl⟩ := List.mem_map.1 hv
    exact c.isExact_toJson

/-- The document of a graph is read as the graph. -/
theorem ofText?_text {g : PartialGraph} (h : g.revision.Fits) : ofText? g.text = some g := by
  rw [ofText?, text, Json.parse?_pretty g.isExact_toJson, Option.bind_eq_bind, Option.bind_some,
    ofJson?_toJson h]

theorem fits_of_ofJson? {v : Json} {g : PartialGraph} (h : ofJson? v = some g) :
    g.revision.Fits := by
  rw [ofJson?, Option.bind_eq_bind, Option.bind_eq_some_iff] at h
  obtain ⟨fields, -, h⟩ := h
  split at h
  next revision _ _ _ _ _ =>
    obtain ⟨r, hr, h⟩ := Option.bind_eq_some_iff.1 h
    obtain ⟨_, -, h⟩ := Option.bind_eq_some_iff.1 h
    obtain ⟨_, -, h⟩ := Option.bind_eq_some_iff.1 h
    obtain ⟨_, -, h⟩ := Option.bind_eq_some_iff.1 h
    obtain ⟨_, -, h⟩ := Option.bind_eq_some_iff.1 h
    obtain ⟨_, -, h⟩ := Option.bind_eq_some_iff.1 h
    obtain rfl := Option.some.inj h
    cases revision with
    | none => cases hr
    | some v => exact Revision.fits_of_ofJson? hr
  next => cases h

/-- A graph that was read from a text is read again from its document. -/
theorem ofText?_text_of_ofText? {text : String} {g : PartialGraph} (h : ofText? text = some g) :
    g.revision.Fits ∧ ofText? g.text = some g := by
  obtain ⟨v, -, hv⟩ := Option.bind_eq_some_iff.1 h
  exact ⟨fits_of_ofJson? hv, ofText?_text (fits_of_ofJson? hv)⟩

end PartialGraph

end Stitch
