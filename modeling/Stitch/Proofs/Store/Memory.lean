/-
A store in memory answers what a store in a folder answers, as long as its keys tell
the coordinates apart.

The keys are qualified texts, and these join the fields of a coordinate as they are.
`Keeps` is the invariant of a store in memory: an entry for every graph that is stored,
under its coordinate's text, and nothing else.

* A look-up finds the graph of a coordinate whose text no other stored coordinate has
  (`Keeps.graph_get?`), so calls are answered from the graphs (`Keeps.machine_cases`)
  and the invariant is kept by a call (`Keeps.step`) and by any calls (`keeps_of_run`).
* Two lists of the same graphs have the same coordinates and sizes
  (`IsListing.sameEntries`).
* **`agrees_iff_of_run`**: both stores agree on a call exactly if no other stored
  coordinate has the text of its coordinate.
* `areApart_of_isSeparable` names coordinates that their texts tell apart, and
  `alreadyStored_collision` two that they do not.
-/
import Stitch.Proofs.Coordinate
import Stitch.Proofs.Sorting
import Stitch.Proofs.Store.Directory
import Stitch.Store.Memory

namespace Stitch

/-! ### Stores in memory -/

/-- The coordinate that a call names. -/
def StoreCall.coordinate? : StoreCall → Option Coordinate
  | .put c _ => some c
  | .get c => some c
  | .contains c => some c
  | .list => none

namespace MemoryStore

variable {s : MemoryStore} {stored : Coordinate → Option MergedGraph} {c : Coordinate}
  {g : MergedGraph} {now : Instant} {call : StoreCall}

/-- The store as a machine whose state is the store itself. -/
def machine : StoreMachine MemoryStore := fun now call s =>
  ((store (m := Id) (pure now)).answer call).run.run s

/-- A store keeps graphs: an entry for each of them, and nothing else. -/
structure Keeps (stored : Coordinate → Option MergedGraph) (s : MemoryStore) : Prop where
  kept : ∀ c g, stored c = some g → ∃ storedAt,
    s.graphs.get? c.qualified = some (.ofGraph c g storedAt, g)
  named : ∀ key entry, s.graphs.get? key = some entry → ∃ c g storedAt,
    stored c = some g ∧ key = c.qualified ∧ entry = (.ofGraph c g storedAt, g)

/-- No other coordinate that has a graph shares its text with this one. -/
def IsApart (stored : Coordinate → Option MergedGraph) (c : Coordinate) : Prop :=
  ∀ c', (stored c').isSome → c'.qualified = c.qualified → c' = c

/-- Behind the text of a coordinate is its own graph. -/
theorem Keeps.graph_get? (h : Keeps stored s) (hc : IsApart stored c) :
    (s.graphs.get? c.qualified).map (·.2) = stored c := by
  cases hentry : s.graphs.get? c.qualified with
  | none =>
    cases hg : stored c with
    | none => rfl
    | some g =>
      obtain ⟨storedAt, hkept⟩ := h.kept c g hg
      rw [hkept] at hentry
      cases hentry
  | some entry =>
    obtain ⟨c', g, storedAt, hg, hkey, rfl⟩ := h.named _ _ hentry
    obtain rfl := hc c' (Option.isSome_of_eq_some hg) hkey.symm
    exact hg.symm

theorem Keeps.contains_eq (h : Keeps stored s) (hc : IsApart stored c) :
    s.graphs.contains c.qualified = (stored c).isSome := by
  rw [← h.graph_get? hc, Option.isSome_map]
  rfl

/-- The entries of the store describe the graphs, one for each. -/
theorem Keeps.isListing (h : Keeps stored s) : IsListing stored s.list := by
  refine IsListing.of_perm ⟨?_, ?_, ?_⟩ (List.mergeSort_perm _ _).symm
  · -- An entry's key is the text of its coordinate, and no key is there twice.
    have hkey : ∀ e ∈ s.graphs.entries, e.1 = e.2.1.coordinate.qualified := by
      intro e he
      obtain ⟨c, g, storedAt, -, hkey, hentry⟩ := h.named _ _ (SortedMap.get?_eq_some_iff.2 he)
      rw [hkey, hentry]
      rfl
    have hkeys : (s.graphs.entries.map fun e => e.2.1.coordinate.qualified).Nodup := by
      rw [← List.map_congr_left hkey]
      exact SortedMap.nodup_keys s.graphs
    rw [List.map_map]
    refine List.Nodup.of_map Coordinate.qualified ?_
    rwa [List.map_map]
  · intro e he
    obtain ⟨⟨key, entry⟩, hmem, rfl⟩ := List.mem_map.1 he
    obtain ⟨c, g, storedAt, hg, -, rfl⟩ := h.named _ _ (SortedMap.get?_eq_some_iff.2 hmem)
    exact ⟨g, hg, rfl, rfl⟩
  · intro c g hg
    obtain ⟨storedAt, hkept⟩ := h.kept c g hg
    exact ⟨_, List.mem_map_of_mem (SortedMap.get?_eq_some_iff.1 hkept), rfl⟩

/-- An entry of a new graph is added. -/
theorem Keeps.insert (h : Keeps stored s) (hc : IsApart stored c) (hnew : stored c = none)
    (g : MergedGraph) (storedAt : Instant) :
    Keeps ((StoreCall.put c g).after stored)
      ⟨s.graphs.insert c.qualified (.ofGraph c g storedAt, g)⟩ := by
  refine ⟨fun c' g' hg' => ?_, fun key entry hentry => ?_⟩
  · rw [SortedMap.insert, SortedMap.get?_alter]
    rcases StoreCall.after_put_eq_some hg' with hg' | ⟨rfl, rfl⟩
    · have hne : c'.qualified ≠ c.qualified := fun heq => by
        rw [hc c' (Option.isSome_of_eq_some hg') heq, hnew] at hg'
        cases hg'
      rw [if_neg hne]
      exact h.kept c' g' hg'
    · exact ⟨storedAt, if_pos rfl⟩
  · rw [SortedMap.insert, SortedMap.get?_alter] at hentry
    split at hentry
    next hkey =>
      exact ⟨c, g, storedAt, StoreCall.after_put_self hnew, hkey, (Option.some.inj hentry).symm⟩
    · obtain ⟨c', g', storedAt', hg', hkey, heq⟩ := h.named key entry hentry
      exact ⟨c', g', storedAt', StoreCall.after_eq_some hg', hkey, heq⟩

/-! ### Calls -/

theorem machine_put : machine now (.put c g) s =
    match s.put c g now with
    | .ok s' => (.ok .stored, s')
    | .error e => (.error e, s) := by
  show ((do set (← liftExcept (s.put c g now))) >>= fun _ => return .stored :
    ExceptT StoreError (StateT MemoryStore Id) StoreAnswer).run.run s = _
  cases s.put c g now <;> rfl

theorem machine_get : machine now (.get c) s = ((s.get c).map .graph, s) := by
  show (do return .graph (← liftExcept (s.get c)) :
    ExceptT StoreError (StateT MemoryStore Id) StoreAnswer).run.run s = _
  cases s.get c <;> rfl

theorem machine_contains : machine now (.contains c) s = (.ok (.known (s.contains c)), s) := rfl

theorem machine_list : machine now .list s = (.ok (.entries s.list), s) := rfl

/-- No call meets an I/O error. -/
theorem not_isFault_machine : ¬(machine now call s).1.IsFault := by
  rintro ⟨path, fault, hfault⟩
  cases call with
  | put c g =>
    by_cases hc : s.graphs.contains c.qualified
    · rw [machine_put, put, if_pos hc] at hfault
      cases hfault
    · rw [machine_put, put, if_neg hc] at hfault
      cases hfault
  | get c =>
    rw [machine_get, get] at hfault
    cases hget : s.graphs.get? c.qualified <;> rw [hget] at hfault <;> cases hfault
  | contains c => cases hfault
  | list => cases hfault

/-- What a call does: it is answered and changes nothing, or it adds the entry of a new
graph. -/
theorem Keeps.machine_cases (h : Keeps stored s) (now : Instant)
    (hcall : ∀ c ∈ call.coordinate?, IsApart stored c) :
    (∃ result, machine now call s = (result, s) ∧ IsAnswer stored call result ∧
        call.after stored = stored) ∨
      ∃ c g, call = .put c g ∧ stored c = none ∧
        machine now call s =
          (.ok .stored, ⟨s.graphs.insert c.qualified (.ofGraph c g now, g)⟩) := by
  cases call with
  | get c =>
    refine .inl ⟨_, machine_get, ?_, StoreCall.after_of_put?_eq_none fun _ => rfl⟩
    rw [IsAnswer, get, ← h.graph_get? (hcall c rfl)]
    cases s.graphs.get? c.qualified <;> rfl
  | contains c =>
    refine .inl ⟨_, machine_contains, ?_, StoreCall.after_of_put?_eq_none fun _ => rfl⟩
    rw [IsAnswer, ← h.contains_eq (hcall c rfl)]
    rfl
  | list =>
    exact .inl ⟨_, machine_list, ⟨s.list, rfl, h.isListing⟩,
      StoreCall.after_of_put?_eq_none fun _ => rfl⟩
  | put c g =>
    have hput : s.put c g now = if (stored c).isSome then .error (.alreadyStored c.text)
        else .ok ⟨s.graphs.insert c.qualified (.ofGraph c g now, g)⟩ := by
      rw [put, h.contains_eq (hcall c rfl)]
    cases hc : stored c with
    | some g' =>
      have hsome : (stored c).isSome := Option.isSome_of_eq_some hc
      rw [if_pos hsome] at hput
      refine .inl ⟨.error (.alreadyStored c.text), ?_, ?_, StoreCall.after_put_of_isSome hsome⟩
      · rw [machine_put, hput]
      · rw [IsAnswer, if_pos hsome]
    | none =>
      rw [hc] at hput
      refine .inr ⟨c, g, rfl, hc, ?_⟩
      rw [machine_put, hput]
      rfl

/-- The coordinates that have a graph are told apart by their texts. -/
def AreApart (stored : Coordinate → Option MergedGraph) : Prop :=
  ∀ c, (stored c).isSome → IsApart stored c

theorem areApart_of_isSeparable (h : ∀ c, (stored c).isSome → c.IsSeparable) : AreApart stored :=
  fun c hc c' hc' heq => Coordinate.eq_of_qualified_eq (h c' hc') (h c hc) heq

theorem AreApart.of_after (h : AreApart (call.after stored)) : AreApart stored := by
  have hmono : ∀ c, (stored c).isSome → (call.after stored c).isSome := fun c hc => by
    obtain ⟨g, hg⟩ := Option.isSome_iff_exists.1 hc
    exact Option.isSome_of_eq_some (StoreCall.after_eq_some hg)
  exact fun c hc c' hc' heq => h c (hmono c hc) c' (hmono c' hc') heq

/-- A call leaves a store that keeps what was there and what the call put. -/
theorem Keeps.step (h : Keeps stored s) (now : Instant) (hapart : AreApart (call.after stored)) :
    Keeps (call.after stored) (machine now call s).2 := by
  -- Questions leave the store as it is, whatever they ask for.
  have hquestion (hput : ∀ c, call.put? c = none) (hsame : (machine now call s).2 = s) :
      Keeps (call.after stored) (machine now call s).2 := by
    rw [StoreCall.after_of_put?_eq_none hput, hsame]
    exact h
  cases call with
  | get c => exact hquestion (fun _ => rfl) (congrArg Prod.snd machine_get)
  | contains c => exact hquestion (fun _ => rfl) rfl
  | list => exact hquestion (fun _ => rfl) rfl
  | put c g =>
    have hself : ((StoreCall.put c g).after stored c).isSome := by
      rw [StoreCall.after, StoreCall.put?, if_pos rfl, Option.isSome_or]
      simp
    have hc : IsApart stored c := fun c' hc' heq => by
      obtain ⟨g', hg'⟩ := Option.isSome_iff_exists.1 hc'
      exact hapart c hself c' (Option.isSome_of_eq_some (StoreCall.after_eq_some hg')) heq
    have hcall : ∀ c' ∈ (StoreCall.put c g).coordinate?, IsApart stored c' := by
      rintro c' ⟨⟩
      exact hc
    rcases h.machine_cases now hcall with
      ⟨result, hmachine, -, hafter⟩ | ⟨c', g', heq, hnew, hmachine⟩
    · rw [hmachine, hafter]
      exact h
    · cases heq
      rw [hmachine]
      exact h.insert hc hnew g now

/-- After any calls the store keeps the graphs that were put first. -/
theorem keeps_of_run {history : List StoreCall} (hrun : StoreMachine.Run machine {} history s)
    (hapart : AreApart (firstPut history)) : Keeps (firstPut history) s := by
  induction hrun with
  | start => exact ⟨fun c g hg => (by cases hg), fun key entry hentry => (by cases hentry)⟩
  | @call history s now call hrun hfault ih =>
    rw [firstPut_concat] at hapart ⊢
    exact (ih hapart.of_after).step now hapart

end MemoryStore

/-! ### Lists of the same graphs -/

/-- What a list says of a graph, up to when it was stored. -/
def StoredGraph.summary (e : StoredGraph) : Coordinate × Nat × Nat :=
  (e.coordinate, e.nodeCount, e.edgeCount)

/-- The coordinates of entries are transitively ordered. -/
def AreTransitive (entries : List StoredGraph) : Prop :=
  ∀ a ∈ entries, ∀ b ∈ entries, ∀ c ∈ entries, a.coordinate.atMost b.coordinate →
    b.coordinate.atMost c.coordinate → a.coordinate.atMost c.coordinate

/-- Two lists have the same coordinates and counts, and in one order where it is
transitive. -/
structure SameEntries (entries entries' : List StoredGraph) : Prop where
  perm : (entries.map (·.summary)).Perm (entries'.map (·.summary))
  order : AreTransitive entries → entries.map (·.summary) = entries'.map (·.summary)

/-- Two results are the same, up to the times that lists show. -/
inductive StoreResult.Agrees : StoreResult → StoreResult → Prop
  | same (r : StoreResult) : Agrees r r
  | entries {entries entries' : List StoredGraph} (h : SameEntries entries entries') :
    Agrees (.ok (.entries entries)) (.ok (.entries entries'))

theorem AreTransitive.of_perm {entries entries' : List StoredGraph} (h : AreTransitive entries)
    (hperm : (entries.map (·.coordinate)).Perm (entries'.map (·.coordinate))) :
    AreTransitive entries' := by
  have hmem : ∀ e ∈ entries', ∃ e₀ ∈ entries, e₀.coordinate = e.coordinate := fun e he =>
    List.mem_map.1 (hperm.mem_iff.2 (List.mem_map_of_mem he))
  intro a ha b hb c hc hab hbc
  obtain ⟨a₀, ha₀, hacoordinate⟩ := hmem a ha
  obtain ⟨b₀, hb₀, hbcoordinate⟩ := hmem b hb
  obtain ⟨c₀, hc₀, hccoordinate⟩ := hmem c hc
  rw [← hacoordinate, ← hccoordinate]
  refine h a₀ ha₀ b₀ hb₀ c₀ hc₀ ?_ ?_
  · rwa [hacoordinate, hbcoordinate]
  · rwa [hbcoordinate, hccoordinate]

theorem StoredGraph.pairwise_sorted {unsorted : List StoredGraph} (h : AreTransitive unsorted) :
    ((StoredGraph.sorted unsorted).map (·.coordinate)).Pairwise fun a b => a.atMost b := by
  rw [List.pairwise_map]
  exact pairwise_mergeSort_of_mem (fun a ha b hb c hc hab hbc => h a ha b hb c hc hab hbc)
    fun a b => Coordinate.atMost_total a.coordinate b.coordinate

namespace IsListing

variable {stored : Coordinate → Option MergedGraph} {entries entries' : List StoredGraph}

theorem mem_coordinates_iff (h : IsListing stored entries) {c : Coordinate} :
    c ∈ entries.map (·.coordinate) ↔ (stored c).isSome := by
  rw [List.mem_map, Option.isSome_iff_exists]
  constructor
  · rintro ⟨e, he, rfl⟩
    obtain ⟨g, hg, -⟩ := h.described e he
    exact ⟨g, hg⟩
  · rintro ⟨g, hg⟩
    exact h.complete c g hg

theorem coordinates_perm (h : IsListing stored entries) (h' : IsListing stored entries') :
    (entries.map (·.coordinate)).Perm (entries'.map (·.coordinate)) :=
  (List.perm_ext_iff_of_nodup h.nodup h'.nodup).2 fun _ =>
    h.mem_coordinates_iff.trans h'.mem_coordinates_iff.symm

/-- What an entry says is determined by its coordinate. -/
theorem map_summary (h : IsListing stored entries) :
    entries.map (·.summary) = (entries.map (·.coordinate)).map fun c =>
      (c, (stored c).elim 0 (·.nodeCount), (stored c).elim 0 (·.edgeCount)) := by
  rw [List.map_map]
  refine List.map_congr_left fun e he => ?_
  obtain ⟨g, hg, hnodes, hedges⟩ := h.described e he
  simp [StoredGraph.summary, hg, hnodes, hedges]

/-- Sorted lists of the same graphs say the same. -/
theorem sameEntries {unsorted unsorted' : List StoredGraph}
    (h : IsListing stored (StoredGraph.sorted unsorted))
    (h' : IsListing stored (StoredGraph.sorted unsorted')) :
    SameEntries (StoredGraph.sorted unsorted) (StoredGraph.sorted unsorted') := by
  have hperm := h.coordinates_perm h'
  refine ⟨?_, fun htrans => ?_⟩
  · rw [h.map_summary, h'.map_summary]
    exact hperm.map _
  · have hsorted : ((StoredGraph.sorted unsorted).map (·.coordinate)).Pairwise
        fun a b => a.atMost b :=
      StoredGraph.pairwise_sorted (htrans.of_perm ((List.mergeSort_perm _ _).map _))
    have hsorted' : ((StoredGraph.sorted unsorted').map (·.coordinate)).Pairwise
        fun a b => a.atMost b :=
      StoredGraph.pairwise_sorted (htrans.of_perm (hperm.trans ((List.mergeSort_perm _ _).map _)))
    rw [h.map_summary, h'.map_summary, hperm.eq_of_pairwise
      (fun a b _ _ hab hba => Coordinate.atMost_antisymm hab hba) hsorted hsorted']

end IsListing

/-! ### Agreement with a store in a folder -/

namespace DirectoryStore

variable {s : DirectoryStore} {t : FileTree} {place : Location}
  {stored : Coordinate → Option MergedGraph} {now : Instant} {call : StoreCall}

theorem Holds.isAnswer (h : Holds s place stored t)
    (hfault : ¬(s.machine now call t).1.IsFault) :
    IsAnswer stored call (s.machine now call t).1 := by
  rcases h.machine_cases now call with ⟨result, hcall, hanswer, -⟩ |
    ⟨c, g, t', rfl, hc, hcall, -⟩ | ⟨c, g, path, t', -, -, -, hcall⟩
  · rw [hcall]
    exact hanswer
  · rw [hcall, IsAnswer, hc]
    rfl
  · rw [hcall] at hfault
    exact absurd ⟨path, _, rfl⟩ hfault

theorem exists_sorted_of_machine_list {entries : List StoredGraph}
    (h : (s.machine now .list t).1 = .ok (.entries entries)) :
    ∃ unsorted, entries = StoredGraph.sorted unsorted := by
  have hmachine : FileTree.outcome (s.store.answer .list) { t with now } =
      (.ok (.entries entries), (s.machine now .list t).2) := Prod.ext h rfl
  obtain ⟨listed, t', hlist, hentries⟩ := FileTree.exists_of_outcome_bind_eq_ok hmachine
  have hlist : FileTree.outcome s.list { t with now } = (.ok listed, t') := hlist
  rw [list] at hlist
  obtain ⟨files, t₁, -, hlist⟩ := FileTree.exists_of_outcome_bind_eq_ok hlist
  obtain ⟨unsorted, t₂, -, hsorted⟩ := FileTree.exists_of_outcome_bind_eq_ok hlist
  cases hentries
  cases hsorted
  exact ⟨unsorted, rfl⟩

end DirectoryStore

namespace MemoryStore

variable {s : MemoryStore} {stored : Coordinate → Option MergedGraph} {now : Instant}
  {call : StoreCall}

theorem Keeps.isAnswer (h : Keeps stored s) (hcall : ∀ c ∈ call.coordinate?, IsApart stored c) :
    IsAnswer stored call (machine now call s).1 := by
  rcases h.machine_cases now hcall with ⟨result, hmachine, hanswer, -⟩ | ⟨c, g, rfl, hc, hmachine⟩
  · rw [hmachine]
    exact hanswer
  · rw [hmachine, IsAnswer, hc]
    rfl

/-- Answers from the same graphs agree. -/
theorem agrees_of_isAnswer {directory : DirectoryStore} {t : FileTree} {now' : Instant}
    (h : IsAnswer stored call (machine now call s).1)
    (h' : IsAnswer stored call (directory.machine now' call t).1) :
    (machine now call s).1.Agrees (directory.machine now' call t).1 := by
  cases call with
  | put c g =>
    rw [IsAnswer] at h h'
    rw [h, h']
    exact .same _
  | get c =>
    rw [IsAnswer] at h h'
    rw [h, h']
    exact .same _
  | contains c =>
    rw [IsAnswer] at h h'
    rw [h, h']
    exact .same _
  | list =>
    obtain ⟨entries, hentries, hlisting⟩ := h
    obtain ⟨entries', hentries', hlisting'⟩ := h'
    obtain ⟨unsorted, rfl⟩ := DirectoryStore.exists_sorted_of_machine_list hentries'
    cases hentries
    rw [hentries']
    exact .entries (hlisting.sameEntries hlisting')

/-- For a coordinate whose text is that of a stored one, a store takes that one's entry
for its own. -/
theorem Keeps.not_agrees {c c' : Coordinate} {r : StoreResult} (h : Keeps stored s)
    (hc : c ∈ call.coordinate?) (hnew : stored c = none) (hc' : (stored c').isSome)
    (heq : c'.qualified = c.qualified) (hr : IsAnswer stored call r) :
    ¬(machine now call s).1.Agrees r := by
  obtain ⟨g', hg'⟩ := Option.isSome_iff_exists.1 hc'
  obtain ⟨storedAt, hkept⟩ := h.kept c' g' hg'
  rw [heq] at hkept
  intro hagrees
  cases call with
  | put d g =>
    cases hc
    have hput : s.put c g now = .error (.alreadyStored c.text) := by
      simp [put, SortedMap.contains, hkept]
    rw [IsAnswer, hnew] at hr
    rw [machine_put, hput, hr] at hagrees
    cases hagrees
  | get d =>
    cases hc
    have hget : s.get c = .ok g' := by rw [get, hkept]
    rw [IsAnswer, hnew] at hr
    rw [machine_get, hget, hr] at hagrees
    cases hagrees
  | contains d =>
    cases hc
    have hcontains : s.contains c = true := by rw [contains, SortedMap.contains, hkept]; rfl
    rw [IsAnswer, hnew] at hr
    rw [machine_contains, hcontains, hr] at hagrees
    cases hagrees
  | list => cases hc

/-- **A store in memory agrees with a store in a folder**, after any calls that put only
coordinates with different texts: they come to the same result exactly for the calls of
coordinates whose texts no other stored coordinate has. -/
theorem agrees_iff_of_run {directory : DirectoryStore} {start t : FileTree} {now' : Instant}
    {history : List StoreCall} (hstart : start.list directory.root = .ok [])
    (hbuilt : ∀ c g, .put c g ∈ history → g.IsBuilt ∧ g.Fits)
    (hmemory : StoreMachine.Run machine {} history s)
    (hdirectory : StoreMachine.Run directory.machine start history t)
    (hapart : AreApart (firstPut history))
    (hfault : ¬(directory.machine now' call t).1.IsFault) :
    (machine now call s).1.Agrees (directory.machine now' call t).1 ↔
      ∀ c ∈ call.coordinate?, IsApart (firstPut history) c := by
  have hkeeps := keeps_of_run hmemory hapart
  obtain ⟨place, hholds⟩ := DirectoryStore.exists_holds_of_run hstart hbuilt hdirectory
  have hanswer := hholds.isAnswer hfault
  constructor
  · intro hagrees c hc c' hc' heq
    by_contra hne
    cases hnew : firstPut history c with
    | none => exact hkeeps.not_agrees hc hnew hc' heq hanswer hagrees
    | some g => exact hne (hapart c (Option.isSome_of_eq_some hnew) c' hc' heq)
  · exact fun hcall => agrees_of_isAnswer (hkeeps.isAnswer hcall) hanswer

/-- After puts of the sample and its twin both stores list the same. -/
theorem agrees_iff_of_run_list :
    let put := StoreCall.put DirectoryStore.sampleCoordinate DirectoryStore.sampleGraph
    let put' := StoreCall.put DirectoryStore.twinCoordinate {}
    let memory := (machine .epoch put' (machine .epoch put {}).2).2
    let tree := (DirectoryStore.sampleStore.machine .epoch put DirectoryStore.sampleTree).2
    let tree' := (DirectoryStore.sampleStore.machine .epoch put' tree).2
    (machine .epoch .list memory).1.Agrees
      (DirectoryStore.sampleStore.machine .epoch .list tree').1 := by
  intro put put' memory tree tree'
  have hstart : DirectoryStore.sampleTree.list DirectoryStore.sampleStore.root = .ok [] := by
    decide +kernel
  have hbuilt : ∀ c g, .put c g ∈ [put, put'] → g.IsBuilt ∧ g.Fits := by
    intro c g hmem
    simp only [put, put', List.mem_cons, StoreCall.put.injEq, List.not_mem_nil, or_false] at hmem
    rcases hmem with ⟨-, rfl⟩ | ⟨-, rfl⟩
    · exact ⟨DirectoryStore.isBuilt_sampleGraph, DirectoryStore.fits_sampleGraph⟩
    · refine ⟨.empty, ?_, ?_⟩ <;> decide +kernel
  have hmemory : StoreMachine.Run machine {} [put, put'] memory :=
    .call (.call .start not_isFault_machine) not_isFault_machine
  have hdirectory : StoreMachine.Run DirectoryStore.sampleStore.machine DirectoryStore.sampleTree
      [put, put'] tree' := by
    have hstored {r : StoreResult} (h : r = .ok .stored) : ¬r.IsFault := by
      rintro ⟨path, fault, hfault⟩
      cases h.symm.trans hfault
    refine .call (.call .start (hstored ?_)) (hstored ?_) <;> decide +kernel
  have hseparable : ∀ c, (firstPut [put, put'] c).isSome → c.IsSeparable := by
    intro c hc
    have hnamed : c = DirectoryStore.sampleCoordinate ∨ c = DirectoryStore.twinCoordinate := by
      by_contra hne
      rw [not_or] at hne
      simp [firstPut, StoreCall.put?, put, put', Ne.symm hne.1, Ne.symm hne.2] at hc
    rcases hnamed with rfl | rfl <;> constructor <;> decide
  have hfault : ¬(DirectoryStore.sampleStore.machine .epoch .list tree').1.IsFault := by
    rw [DirectoryStore.isFault_iff_of_run hstart hbuilt hdirectory]
    rintro ⟨c, g, hlist, -⟩
    cases hlist
  refine (agrees_iff_of_run hstart hbuilt hmemory hdirectory (areApart_of_isSeparable hseparable)
    hfault).2 ?_
  rintro c ⟨⟩

/-! ### Two coordinates with one text -/

def collidingCoordinate : Coordinate := ⟨"mvn", ⟨"org", "app$1"⟩, "2"⟩

def collidingTwin : Coordinate := ⟨"mvn", ⟨"org", "app"⟩, "1$2"⟩

/-- A graph of the one is refused in memory after a graph of the other was put, and
stored in a folder. -/
theorem alreadyStored_collision :
    Coordinate.ofText "org:app$1:2" = .ok collidingCoordinate ∧
    Coordinate.ofText "org:app:1$2" = .ok collidingTwin ∧
    (machine .epoch (.put collidingTwin {})
      (machine .epoch (.put collidingCoordinate {}) {}).2).1 =
        .error (.alreadyStored "org:app:1$2") ∧
    (DirectoryStore.sampleStore.machine .epoch (.put collidingTwin {})
      (DirectoryStore.sampleStore.machine .epoch (.put collidingCoordinate {})
        DirectoryStore.sampleTree).2).1 = .ok .stored := by
  refine ⟨?_, ?_, ?_, ?_⟩ <;> decide +kernel

end MemoryStore

end Stitch
