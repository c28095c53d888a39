/-
Look-ups, entries and keys of ordered maps.

`get?_alter` says what a change does to every look-up; here the other two views
of a map are tied to it:

* `get?_eq_some_iff`: a look-up finds exactly what the entries hold;
* `mem_keys_iff` and `mem_keys_alter`: the keys are those that have a value, and
  a change adds its own key and no other;
* `entries_alter_of_lt`: a key above all others is added at the end;
* `get?_foldl_getD`: where entries are added and never replaced, the first of a key counts;
* `exists_get?_ofList_of_pairwise`: where the values of a list grow, the greatest of a key counts;
* `eq_of_mem_entries_iff`, `eq_of_get?_eq`: maps that have the same entries, or agree on every
  look-up, are equal; `keys_eq_of_mem_iff`: maps that have the same keys list them alike;
* `entries_ofList_perm`: a list without repeated keys has the entries of its map, and
  `ofList_entries`: the entries of a map make it again.
-/
import Mathlib.Data.List.Induction
import Mathlib.Data.List.Nodup
import Mathlib.Data.List.Sort
import Stitch.SortedMap

namespace Stitch.SortedMap

variable {κ α : Type} [Ord κ] [Std.TransOrd κ] [Std.LawfulEqOrd κ]

omit [Std.TransOrd κ] in
theorem lookup_eq_some_iff {key : κ} {a : α} {es : List (κ × α)}
    (h : es.Pairwise fun a b => compare a.1 b.1 = .lt) :
    lookup key es = some a ↔ (key, a) ∈ es := by
  induction es with
  | nil => simp [lookup]
  | cons e es ih =>
    obtain ⟨he, hes⟩ := List.pairwise_cons.1 h
    rw [lookup, List.mem_cons]
    by_cases hk : key = e.1
    · -- The first entry has the key, so no later one does.
      have hlater : (key, a) ∉ es := fun hmem => by
        have := he _ hmem
        simp [hk] at this
      subst hk
      simp only [Std.ReflCmp.compare_self, if_true, Option.some.injEq, hlater, or_false]
      exact ⟨fun ha => ha ▸ rfl, fun he => (congrArg Prod.snd he).symm⟩
    · have hne : (key, a) ≠ e := fun he => hk (congrArg Prod.fst he)
      rw [if_neg (by simpa using hk), ih hes]
      simp [hne]

omit [Std.TransOrd κ] in
theorem get?_eq_some_iff {m : SortedMap κ α} {key : κ} {a : α} :
    m.get? key = some a ↔ (key, a) ∈ m.entries :=
  lookup_eq_some_iff m.ordered

omit [Std.TransOrd κ] in
theorem mem_keys_iff {m : SortedMap κ α} {key : κ} :
    key ∈ m.keys ↔ (m.get? key).isSome := by
  rw [Option.isSome_iff_exists, keys, List.mem_map]
  constructor
  · rintro ⟨⟨k, a⟩, hmem, rfl⟩
    exact ⟨a, get?_eq_some_iff.2 hmem⟩
  · rintro ⟨a, ha⟩
    exact ⟨(key, a), get?_eq_some_iff.1 ha, rfl⟩

omit [Std.LawfulEqOrd κ] in
theorem nodup_keys (m : SortedMap κ α) : m.keys.Nodup := by
  rw [keys, List.Nodup, List.pairwise_map]
  refine m.ordered.imp fun hlt heq => ?_
  rw [heq, Std.ReflOrd.compare_self] at hlt
  cases hlt

theorem mem_keys_alter [DecidableEq κ] {m : SortedMap κ α} {key k : κ} {f : Option α → α} :
    k ∈ (m.alter key f).keys ↔ k = key ∨ k ∈ m.keys := by
  rw [mem_keys_iff, mem_keys_iff, get?_alter]
  by_cases hk : k = key
  · simp [hk]
  · simp [hk]

omit [Std.TransOrd κ] [Std.LawfulEqOrd κ] in
theorem eq_of_entries_eq {m m' : SortedMap κ α} (h : m.entries = m'.entries) : m = m' := by
  cases m
  cases m'
  simpa using h

omit [Std.LawfulEqOrd κ] in
theorem eq_of_mem_entries_iff {m m' : SortedMap κ α}
    (h : ∀ e, e ∈ m.entries ↔ e ∈ m'.entries) : m = m' := by
  have : Std.Asymm fun a b : κ × α => compare a.1 b.1 = .lt :=
    ⟨fun a b hlt hgt => by
      rw [Std.OrientedCmp.gt_of_lt hlt] at hgt
      cases hgt⟩
  exact eq_of_entries_eq (m.ordered.eq_of_mem_iff m'.ordered h)

theorem eq_of_get?_eq {m m' : SortedMap κ α} (h : ∀ key, m.get? key = m'.get? key) : m = m' :=
  eq_of_mem_entries_iff fun e => by rw [← get?_eq_some_iff, ← get?_eq_some_iff, h]

omit [Std.LawfulEqOrd κ] in
/-- A map that has some of the entries of another has them in the same order. -/
theorem entries_eq_filter {m m' : SortedMap κ α} {p : κ × α → Bool}
    (h : ∀ e, e ∈ m'.entries ↔ e ∈ m.entries ∧ p e) : m'.entries = m.entries.filter p := by
  have heq : m' = ⟨m.entries.filter p, m.ordered.sublist List.filter_sublist⟩ :=
    eq_of_mem_entries_iff fun e => by rw [h, List.mem_filter]
  rw [heq]

/-- Where there are keys only, they settle the map. -/
theorem eq_of_mem_keys_iff {m m' : SortedMap κ Unit} (h : ∀ key, key ∈ m.keys ↔ key ∈ m'.keys) :
    m = m' := by
  refine eq_of_get?_eq fun key => Option.ext fun _ => ?_
  have hsome := h key
  rwa [mem_keys_iff, mem_keys_iff, Option.isSome_iff_exists, Option.isSome_iff_exists,
    Unique.exists_iff, Unique.exists_iff] at hsome

omit [Std.LawfulEqOrd κ] in
/-- The keys of a map are in one order only, whatever their values are. -/
theorem keys_eq_of_mem_iff {β : Type} {m : SortedMap κ α} {m' : SortedMap κ β}
    (h : ∀ key, key ∈ m.keys ↔ key ∈ m'.keys) : m.keys = m'.keys := by
  have : Std.Asymm fun a b : κ => compare a b = .lt :=
    ⟨fun a b hlt hgt => by
      rw [Std.OrientedCmp.gt_of_lt hlt] at hgt
      cases hgt⟩
  have hordered : m.keys.Pairwise fun a b => compare a b = .lt := List.pairwise_map.2 m.ordered
  exact hordered.eq_of_mem_iff (List.pairwise_map.2 m'.ordered) h

/-- A key above all others is added at the end. -/
theorem entries_alter_of_lt {m : SortedMap κ α} {key : κ} {f : Option α → α}
    (h : ∀ e ∈ m.entries, compare e.1 key = .lt) :
    (m.alter key f).entries = m.entries ++ [(key, f none)] := by
  show place key f m.entries = m.entries ++ [(key, f none)]
  generalize m.entries = es at h
  induction es with
  | nil => rfl
  | cons e es ih =>
    have hgt : compare key e.1 = .gt := Std.OrientedCmp.gt_of_lt (h e List.mem_cons_self)
    rw [place, hgt]
    exact congrArg (e :: ·) (ih fun e' he' => h e' (List.mem_cons_of_mem e he'))

/-- Where a value that is there stays, the first value of a key counts. -/
theorem get?_foldl_getD {β : Type} [DecidableEq κ] (key : β → κ) (value : β → α) (bs : List β)
    (m : SortedMap κ α) (k : κ) :
    (bs.foldl (fun m b => m.alter (key b) fun old => old.getD (value b)) m).get? k =
      (m.get? k).or ((bs.find? fun b => key b == k).map value) := by
  induction bs generalizing m with
  | nil => simp
  | cons b bs ih =>
    rw [List.foldl_cons, ih, get?_alter]
    by_cases hk : k = key b
    · subst hk
      cases m.get? (key b) <;> simp
    · rw [if_neg hk, List.find?_cons_of_neg (by simpa using Ne.symm hk)]

/-- Of a repeated key the last value counts. -/
theorem get?_ofList_concat [DecidableEq κ] (es : List (κ × α)) (e : κ × α) (key : κ) :
    (ofList (es ++ [e])).get? key = if key = e.1 then some e.2 else (ofList es).get? key := by
  rw [ofList, List.foldl_append]
  exact get?_alter (ofList es) e.1 key _

/-- Where values only grow, the value of a key is at least every one it is listed with. -/
theorem exists_get?_ofList_of_pairwise [DecidableEq κ] {es : List (κ × Nat)}
    (h : es.Pairwise fun a b => a.2 ≤ b.2) {key : κ} {n : Nat} (hmem : (key, n) ∈ es) :
    ∃ m, n ≤ m ∧ (ofList es).get? key = some m := by
  induction es using List.reverseRecOn with
  | nil => cases hmem
  | append_singleton es last ih =>
    obtain ⟨hes, -, hlast⟩ := List.pairwise_append.1 h
    rw [get?_ofList_concat]
    by_cases hkey : key = last.1
    · refine ⟨last.2, ?_, if_pos hkey⟩
      rcases List.mem_append.1 hmem with hmem | hmem
      · exact hlast _ hmem last (List.mem_singleton_self last)
      · rw [← List.mem_singleton.1 hmem]
    · rw [if_neg hkey]
      rcases List.mem_append.1 hmem with hmem | hmem
      · exact ih hes hmem
      · exact absurd (congrArg Prod.fst (List.mem_singleton.1 hmem)) hkey

/-- A map is made again from its entries. -/
theorem ofList_entries (m : SortedMap κ α) : ofList m.entries = m := by
  refine eq_of_entries_eq ?_
  obtain ⟨es, hes⟩ := m
  show (ofList es).entries = es
  induction es using List.reverseRecOn with
  | nil => rfl
  | append_singleton es last ih =>
    obtain ⟨hfront, -, hlast⟩ := List.pairwise_append.1 hes
    have hbefore : ∀ e ∈ (ofList es).entries, compare e.1 last.1 = .lt := by
      rw [ih hfront]
      exact fun e he => hlast e he last (List.mem_singleton_self last)
    rw [ofList, List.foldl_append, List.foldl_cons, List.foldl_nil]
    show ((ofList es).insert last.1 last.2).entries = _
    rw [insert, entries_alter_of_lt hbefore, ih hfront]

theorem mem_entries_ofList [DecidableEq κ] {es : List (κ × α)} (h : (es.map (·.1)).Nodup)
    {e : κ × α} : e ∈ (ofList es).entries ↔ e ∈ es := by
  rw [← get?_eq_some_iff]
  induction es using List.reverseRecOn with
  | nil => exact iff_of_false nofun nofun
  | append_singleton es last ih =>
    rw [List.map_append, List.map_singleton, List.nodup_append'] at h
    obtain ⟨hes, -, hlast⟩ := h
    rw [get?_ofList_concat, List.mem_append, List.mem_singleton, ← ih hes]
    by_cases hkey : e.1 = last.1
    · -- The last key is not in the list before it.
      have hnone : (ofList es).get? e.1 ≠ some e.2 := fun hget =>
        hlast (List.mem_map_of_mem ((ih hes).1 hget)) (List.mem_singleton.2 hkey)
      rw [if_pos hkey, Option.some.injEq, or_iff_right hnone, Prod.ext_iff]
      exact ⟨fun hvalue => ⟨hkey, hvalue.symm⟩, fun heq => heq.2.symm⟩
    · rw [if_neg hkey, or_iff_left fun heq => hkey (congrArg Prod.fst heq)]

theorem entries_ofList_perm [DecidableEq κ] {es : List (κ × α)} (h : (es.map (·.1)).Nodup) :
    (ofList es).entries.Perm es :=
  (List.perm_ext_iff_of_nodup (nodup_keys (ofList es)).of_map h.of_map).2
    fun _ => mem_entries_ofList h

end Stitch.SortedMap
