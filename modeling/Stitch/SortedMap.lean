/-
Finite maps in the order of their keys.

A map is the list of its entries, keys ascending, so that a map has one form
only: two maps with the same entries are equal, and what is written from a map
does not depend on how it came about.

* `alter` changes the value of a key; `insert` and `ofList` are built from it;
* `erase` takes a key out;
* `get?_alter` and `get?_erase` say what they do to every look-up.
-/

namespace Stitch

structure SortedMap (κ α : Type) [Ord κ] where
  entries : List (κ × α)
  /-- The keys are in ascending order, without repetition. -/
  ordered : entries.Pairwise fun a b => compare a.1 b.1 = .lt

namespace SortedMap

variable {κ α : Type}

/-- The entries with the value of one key replaced, or added in its place. -/
def place [Ord κ] (key : κ) (f : Option α → α) : List (κ × α) → List (κ × α)
  | [] => [(key, f none)]
  | e :: es =>
    match compare key e.1 with
    | .lt => (key, f none) :: e :: es
    | .eq => (e.1, f (some e.2)) :: es
    | .gt => e :: place key f es

/-- The value of a key in a list of entries. -/
def lookup [Ord κ] (key : κ) : List (κ × α) → Option α
  | [] => none
  | e :: es => if compare key e.1 = .eq then some e.2 else lookup key es

theorem key_mem_place [Ord κ] [Std.LawfulEqOrd κ] {key : κ} {f : Option α → α}
    {es : List (κ × α)} {e : κ × α} (h : e ∈ place key f es) :
    e.1 = key ∨ ∃ e' ∈ es, e.1 = e'.1 := by
  induction es with
  | nil =>
    simp only [place, List.mem_singleton] at h
    exact .inl (by rw [h])
  | cons a es ih =>
    simp only [place] at h
    split at h
    · rcases List.mem_cons.1 h with rfl | h
      · exact .inl rfl
      · exact .inr ⟨e, h, rfl⟩
    · rcases List.mem_cons.1 h with rfl | h
      · exact .inr ⟨a, List.mem_cons_self, rfl⟩
      · exact .inr ⟨e, List.mem_cons_of_mem _ h, rfl⟩
    · rcases List.mem_cons.1 h with rfl | h
      · exact .inr ⟨e, List.mem_cons_self, rfl⟩
      · rcases ih h with hk | ⟨e', he', hk⟩
        · exact .inl hk
        · exact .inr ⟨e', List.mem_cons_of_mem _ he', hk⟩

theorem pairwise_place [Ord κ] [Std.TransOrd κ] [Std.LawfulEqOrd κ] (key : κ)
    (f : Option α → α) {es : List (κ × α)}
    (h : es.Pairwise fun a b => compare a.1 b.1 = .lt) :
    (place key f es).Pairwise fun a b => compare a.1 b.1 = .lt := by
  induction es with
  | nil => simp [place]
  | cons a es ih =>
    obtain ⟨ha, hes⟩ := List.pairwise_cons.1 h
    simp only [place]
    split
    -- The key comes before the first entry, and so before all of them.
    next hk =>
      refine List.pairwise_cons.2 ⟨fun b hb => ?_, h⟩
      rcases List.mem_cons.1 hb with rfl | hb
      · exact hk
      · exact Std.TransCmp.lt_trans hk (ha b hb)
    next => exact List.pairwise_cons.2 ⟨ha, hes⟩
    -- The key comes later: the first entry stays below whatever is placed.
    next hk =>
      refine List.pairwise_cons.2 ⟨fun b hb => ?_, ih hes⟩
      rcases key_mem_place hb with hb | ⟨b', hb', hb⟩
      · rw [hb]; exact Std.OrientedCmp.lt_of_gt hk
      · rw [hb]; exact ha b' hb'

theorem lookup_place [Ord κ] [Std.TransOrd κ] [Std.LawfulEqOrd κ] [DecidableEq κ] (key k : κ)
    (f : Option α → α) (es : List (κ × α))
    (h : es.Pairwise fun a b => compare a.1 b.1 = .lt) :
    lookup k (place key f es) = if k = key then some (f (lookup key es)) else lookup k es := by
  -- A key below all entries has no value.
  have absent : ∀ {k : κ} {es : List (κ × α)}, (∀ b ∈ es, compare k b.1 = .lt) →
      lookup k es = none := by
    intro k es hlt
    induction es with
    | nil => rfl
    | cons b es ih =>
      rw [lookup, if_neg (by rw [hlt b List.mem_cons_self]; decide)]
      exact ih fun c hc => hlt c (List.mem_cons_of_mem _ hc)
  induction es with
  | nil =>
    by_cases hk : k = key
    · simp [place, lookup, hk]
    · simp [place, lookup, hk]
  | cons a es ih =>
    obtain ⟨ha, hes⟩ := List.pairwise_cons.1 h
    simp only [place]
    split
    -- The key is new here, so what it had before is nothing.
    next hlt =>
      have hnone : lookup key (a :: es) = none := absent fun b hb => by
        rcases List.mem_cons.1 hb with rfl | hb
        · exact hlt
        · exact Std.TransCmp.lt_trans hlt (ha b hb)
      by_cases hk : k = key
      · rw [hnone, hk, lookup, if_pos (by simp), if_pos rfl]
      · rw [lookup, if_neg (by simpa using hk), if_neg hk]
    next heq =>
      have heq : key = a.1 := by simpa using heq
      by_cases hk : k = key
      · simp [lookup, hk, heq]
      · simp [lookup, hk, heq ▸ hk]
    -- The first entry is passed by, and the rest is the claim again.
    next hgt =>
      have hne : key ≠ a.1 := fun e => by simp [e] at hgt
      rw [lookup, ih hes]
      by_cases hk : k = key
      · simp [hk, lookup, hne]
      · simp [hk, lookup]

section Views

variable [Ord κ]

def empty : SortedMap κ α := ⟨[], List.Pairwise.nil⟩

instance : EmptyCollection (SortedMap κ α) := ⟨empty⟩

instance : Inhabited (SortedMap κ α) := ⟨empty⟩

instance [DecidableEq κ] [DecidableEq α] : DecidableEq (SortedMap κ α) := fun a b =>
  decidable_of_iff (a.entries = b.entries) (by cases a; cases b; simp)

/-- The value of a key. -/
def get? (m : SortedMap κ α) (key : κ) : Option α := lookup key m.entries

def contains (m : SortedMap κ α) (key : κ) : Bool := (m.get? key).isSome

def keys (m : SortedMap κ α) : List κ := m.entries.map (·.1)

def size (m : SortedMap κ α) : Nat := m.entries.length

end Views

variable [Ord κ] [Std.TransOrd κ] [Std.LawfulEqOrd κ]

/-- Replaces the value of a key, or adds one. -/
def alter (m : SortedMap κ α) (key : κ) (f : Option α → α) : SortedMap κ α :=
  ⟨place key f m.entries, pairwise_place key f m.ordered⟩

/-- Sets the value of a key. -/
def insert (m : SortedMap κ α) (key : κ) (value : α) : SortedMap κ α :=
  m.alter key fun _ => value

/-- The entries of a list; of a repeated key the last counts. -/
def ofList (entries : List (κ × α)) : SortedMap κ α :=
  entries.foldl (fun m e => m.insert e.1 e.2) {}

/-- Takes a key out. -/
def erase (m : SortedMap κ α) (key : κ) : SortedMap κ α :=
  ⟨m.entries.filter fun e => compare key e.1 ≠ .eq, m.ordered.filter _⟩

theorem get?_alter [DecidableEq κ] (m : SortedMap κ α) (key k : κ) (f : Option α → α) :
    (m.alter key f).get? k = if k = key then some (f (m.get? key)) else m.get? k :=
  lookup_place key k f m.entries m.ordered

omit [Std.TransOrd κ] in
theorem get?_erase [DecidableEq κ] (m : SortedMap κ α) (key k : κ) :
    (m.erase key).get? k = if k = key then none else m.get? k := by
  simp only [get?, erase]
  induction m.entries with
  | nil => simp [lookup]
  | cons e es ih =>
    by_cases he : key = e.1
    · by_cases hk : k = key
      · simpa [List.filter_cons, he, hk] using ih
      · simpa [List.filter_cons, lookup, he, he ▸ hk, hk] using ih
    · by_cases hk : k = key
      · simpa [List.filter_cons, lookup, he, hk] using ih
      · simp [lookup, he, hk] at ih ⊢
        split <;> simp_all

end SortedMap

end Stitch
