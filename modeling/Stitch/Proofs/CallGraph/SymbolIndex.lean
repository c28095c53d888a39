/-
Dense indexes of methods.

An index is dense when the number of every method is its place in the order of
registration and no two methods share a global URI.  Registering under the next
free number keeps an index dense (`IsDense.insert`), whether or not the URI was
taken.  In a dense index

* `lookup_eq_some_iff`: a look-up gives the place of the method with that URI;
* `lookup_eq_none_iff`: it gives nothing for URIs that no method has;
* `lookup_lt` and `lookupLocal_lt`: all numbers that come out are places.
-/
import Stitch.CallGraph.SymbolIndex
import Stitch.Proofs.Distinct

namespace Stitch.SymbolIndex

/-- The number of every method is its place, and global URIs are unique. -/
structure IsDense (index : SymbolIndex) : Prop where
  gid_eq : ∀ (i : Nat) (s : Symbol), index.symbols[i]? = some s → s.gid = i
  uris_nodup : (index.symbols.map (·.uri)).Nodup

theorem isDense_empty : IsDense {} where
  gid_eq := fun i s h => by simp at h
  uris_nodup := List.nodup_nil

theorem lookup_eq_none_iff {index : SymbolIndex} {uri : String} :
    index.lookup uri = none ↔ uri ∉ index.symbols.map (·.uri) := by
  simp [lookup, List.mem_map]

variable {index : SymbolIndex}

theorem IsDense.insert (h : index.IsDense) (uri localUri : String) :
    (index.insert ⟨uri, localUri, index.size⟩).IsDense := by
  rw [SymbolIndex.insert]
  split
  · exact h
  · next hnew =>
    have hfresh : uri ∉ index.symbols.map (·.uri) :=
      lookup_eq_none_iff.1 (Option.not_isSome_iff_eq_none.1 hnew)
    refine ⟨fun i s hs => ?_, ?_⟩
    · rcases Nat.lt_trichotomy i index.symbols.length with hi | rfl | hi
      · rw [List.getElem?_append_left hi] at hs
        exact h.gid_eq i s hs
      · rw [List.getElem?_append_right (Nat.le_refl _), Nat.sub_self] at hs
        cases hs
        rfl
      · rw [List.getElem?_eq_none (by simpa using Nat.succ_le_of_lt hi)] at hs
        cases hs
    · rw [List.map_append, List.map_singleton, ← List.concat_eq_append]
      exact h.uris_nodup.concat hfresh

/-- Of two places with one URI neither comes before the other. -/
theorem IsDense.place_unique (h : index.IsDense) {i j : Nat} {s t : Symbol}
    (hs : index.symbols[i]? = some s) (ht : index.symbols[j]? = some t) (huri : s.uri = t.uri) :
    i = j :=
  place_eq_of_nodup_map h.uris_nodup hs ht huri

theorem IsDense.lookup_eq_some_iff (h : index.IsDense) {uri : String} {gid : Gid} :
    index.lookup uri = some gid ↔ ∃ s, index.symbols[gid]? = some s ∧ s.uri = uri := by
  constructor
  · intro hlook
    obtain ⟨s, hfind, rfl⟩ := Option.map_eq_some_iff.1 hlook
    obtain ⟨i, hi⟩ := List.mem_iff_getElem?.1 (List.mem_of_find?_eq_some hfind)
    exact ⟨s, h.gid_eq i s hi ▸ hi, by simpa using List.find?_some hfind⟩
  · rintro ⟨s, hs, rfl⟩
    -- Some method with the URI is found, and it can only be the one at this place.
    cases hfind : index.symbols.find? fun t => t.uri == s.uri with
    | none =>
      have := List.find?_eq_none.1 hfind s (List.mem_of_getElem? hs)
      simp at this
    | some t =>
      obtain ⟨i, hi⟩ := List.mem_iff_getElem?.1 (List.mem_of_find?_eq_some hfind)
      have huri : t.uri = s.uri := by simpa using List.find?_some hfind
      rw [lookup, hfind, Option.map_some, h.gid_eq i t hi, h.place_unique hi hs huri]

theorem IsDense.lookup_lt (h : index.IsDense) {uri : String} {gid : Gid}
    (hlook : index.lookup uri = some gid) : gid < index.size := by
  obtain ⟨s, hs, -⟩ := h.lookup_eq_some_iff.1 hlook
  exact (List.getElem?_eq_some_iff.1 hs).1

theorem IsDense.lookupLocal_lt (h : index.IsDense) {localUri : String} {gid : Gid}
    (hlook : index.lookupLocal localUri = some gid) : gid < index.size := by
  obtain ⟨s, hfind, rfl⟩ := Option.map_eq_some_iff.1 hlook
  obtain ⟨i, hi⟩ := List.mem_iff_getElem?.1 (List.mem_of_find?_eq_some hfind)
  rw [h.gid_eq i s hi]
  exact (List.getElem?_eq_some_iff.1 hi).1

end Stitch.SymbolIndex
