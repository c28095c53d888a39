/-
What a store answers, call after call.

A store is a machine here: a call at some time takes its state to a result and to
the next state.  `Run` is a sequence of calls of which none suffers an I/O error,
and `firstPut` is the graph that the first `put` of a coordinate among them brought.

`IsAnswer` is the answer of a map that only grows: a coordinate that has a graph
keeps it, and everything that is asked is answered from the graphs that were put
first.  `IsListing` says it of a list: one entry for each coordinate.
-/
import Stitch.Store.Basic

namespace Stitch

/-- A call of a store. -/
inductive StoreCall where
  | put (c : Coordinate) (graph : MergedGraph)
  | get (c : Coordinate)
  | contains (c : Coordinate)
  | list
  deriving DecidableEq

/-- What a call that succeeds comes back with. -/
inductive StoreAnswer where
  | stored
  | graph (graph : MergedGraph)
  | known (isStored : Bool)
  | entries (entries : List StoredGraph)
  deriving DecidableEq

abbrev StoreResult := Except StoreError StoreAnswer

/-- The answer of a store to a call. -/
def GraphStore.answer {m : Type → Type} [Monad m] (store : GraphStore m) :
    StoreCall → ExceptT StoreError m StoreAnswer
  | .put c graph => do store.put c graph; return .stored
  | .get c => return .graph (← store.get c)
  | .contains c => return .known (← store.contains c)
  | .list => return .entries (← store.list)

/-- A store with its state: what a call at a time comes to, and the state after it. -/
abbrev StoreMachine (σ : Type) := Instant → StoreCall → σ → StoreResult × σ

/-- An I/O error. -/
def StoreResult.IsFault (r : StoreResult) : Prop :=
  ∃ path fault, r = .error (.unavailable path fault)

/-- Calls one after the other from a state on, each at some time and none of them
with an I/O error. -/
inductive StoreMachine.Run {σ : Type} (machine : StoreMachine σ) (start : σ) :
    List StoreCall → σ → Prop
  | start : Run machine start [] start
  | call {history : List StoreCall} {s : σ} {now : Instant} {call : StoreCall}
    (h : Run machine start history s) (hfault : ¬(machine now call s).1.IsFault) :
    Run machine start (history ++ [call]) (machine now call s).2

/-- The graph that a call puts at a coordinate. -/
def StoreCall.put? (c : Coordinate) : StoreCall → Option MergedGraph
  | .put c' graph => if c' = c then some graph else none
  | _ => none

/-- The graph of the first `put` of a coordinate. -/
def firstPut (history : List StoreCall) (c : Coordinate) : Option MergedGraph :=
  history.findSome? (StoreCall.put? c)

/-- The graphs that there are after a call, if those that are there stay. -/
def StoreCall.after (call : StoreCall) (stored : Coordinate → Option MergedGraph) :
    Coordinate → Option MergedGraph :=
  fun c => (stored c).or (call.put? c)

/-- An entry has the size of its coordinate's graph. -/
def StoredGraph.Describes (e : StoredGraph) (stored : Coordinate → Option MergedGraph) : Prop :=
  ∃ g, stored e.coordinate = some g ∧ e.nodeCount = g.nodeCount ∧ e.edgeCount = g.edgeCount

/-- One entry for each coordinate that has a graph, with the size of that graph. -/
structure IsListing (stored : Coordinate → Option MergedGraph) (entries : List StoredGraph) :
    Prop where
  nodup : (entries.map (·.coordinate)).Nodup
  described : ∀ e ∈ entries, e.Describes stored
  complete : ∀ c g, stored c = some g → ∃ e ∈ entries, e.coordinate = c

/-- The answer of a map that has these graphs and does not replace them. -/
def IsAnswer (stored : Coordinate → Option MergedGraph) : StoreCall → StoreResult → Prop
  | .put c _, r =>
    r = if (stored c).isSome then .error (.alreadyStored c.text) else .ok .stored
  | .get c, r =>
    r = match stored c with
      | some g => .ok (.graph g)
      | none => .error (.notFound c.text)
  | .contains c, r => r = .ok (.known (stored c).isSome)
  | .list, r => ∃ entries, r = .ok (.entries entries) ∧ IsListing stored entries

theorem IsListing.of_perm {stored : Coordinate → Option MergedGraph}
    {entries entries' : List StoredGraph} (h : IsListing stored entries)
    (hperm : entries.Perm entries') : IsListing stored entries' where
  nodup := (hperm.map _).nodup_iff.1 h.nodup
  described e he := h.described e (hperm.mem_iff.2 he)
  complete c g hc := by
    obtain ⟨e, he, hcoordinate⟩ := h.complete c g hc
    exact ⟨e, hperm.mem_iff.1 he, hcoordinate⟩

/-- Answers are no I/O errors. -/
theorem IsAnswer.not_isFault {stored : Coordinate → Option MergedGraph} {call : StoreCall}
    {result : StoreResult} (h : IsAnswer stored call result) : ¬result.IsFault := by
  rintro ⟨path, fault, rfl⟩
  cases call with
  | put c graph =>
    rw [IsAnswer] at h
    split at h <;> cases h
  | get c =>
    rw [IsAnswer] at h
    split at h <;> cases h
  | contains c => cases h
  | list =>
    obtain ⟨entries, hentries, -⟩ := h
    cases hentries

/-! ### The graphs after a call -/

section After

variable {stored : Coordinate → Option MergedGraph} {call : StoreCall} {c c' : Coordinate}
  {g g' : MergedGraph}

theorem StoreCall.after_of_put?_eq_none (h : ∀ c, call.put? c = none) :
    call.after stored = stored := by
  funext c
  rw [after, h, Option.or_none]

theorem StoreCall.after_put_of_isSome (h : (stored c).isSome) :
    (put c g).after stored = stored := by
  funext c'
  rw [after, put?]
  split
  next heq => rw [← heq, Option.or_of_isSome h]
  · rw [Option.or_none]

theorem StoreCall.after_put_self (h : stored c = none) : (put c g).after stored c = some g := by
  rw [after, h, Option.none_or, put?, if_pos rfl]

theorem StoreCall.after_put_eq_some (h : (put c g).after stored c' = some g') :
    stored c' = some g' ∨ c' = c ∧ g' = g := by
  rcases Option.or_eq_some_iff.1 h with h | ⟨-, h⟩
  · exact .inl h
  · rw [put?] at h
    split at h
    next heq => exact .inr ⟨heq.symm, (Option.some.inj h).symm⟩
    · cases h

theorem StoreCall.isSome_after_put_iff :
    ((put c g).after stored c').isSome ↔ (stored c').isSome ∨ c' = c := by
  rw [after, Option.isSome_or, Bool.or_eq_true, put?]
  refine or_congr_right ?_
  split
  next heq => exact iff_of_true rfl heq.symm
  next hne => exact iff_of_false nofun fun heq => hne heq.symm

theorem StoreCall.after_eq_some (h : stored c = some g) : call.after stored c = some g := by
  rw [after, h, Option.some_or]

end After

theorem firstPut_concat (history : List StoreCall) (call : StoreCall) :
    firstPut (history ++ [call]) = call.after (firstPut history) := by
  funext c
  rw [firstPut, List.findSome?_append, StoreCall.after]
  simp [firstPut]

end Stitch
