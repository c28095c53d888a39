/-
Sessions on a tree of files.

`outcome x printed t` is what a session comes to that has printed a text before, with what
it has printed then, and the tree after it.  Its laws are those of programs on a tree, and a
program on a tree inside a session is told by the same laws (`outcome_lift`).

`IsReading` are the sessions that neither print nor change the tree: such are all that look
for settings, inputs and dependency graphs (`isReading_graphInput`, `isReading_openGraph`).
-/
import Stitch.Command.Session
import Stitch.Proofs.Files.Program

namespace Stitch.Session

variable {ε α β : Type} {t t' : FileTree} {printed printed' : String}

/-- What a session comes to, all that it has printed then, and the tree after it. -/
def outcome (x : Session (StateM FileTree) α) (printed : String) (t : FileTree) :
    (Except Failure α × String) × FileTree :=
  (x.run.run printed).run t

/-! ### Putting sessions together -/

theorem outcome_bind_ok {x : Session (StateM FileTree) α} {a : α}
    {f : α → Session (StateM FileTree) β} (h : outcome x printed t = ((.ok a, printed'), t')) :
    outcome (x >>= f) printed t = outcome (f a) printed' t' := by
  rw [outcome] at h
  rw [outcome, ExceptT.run_bind, StateT.run_bind, StateT.run_bind, h]
  rfl

theorem outcome_bind_error {x : Session (StateM FileTree) α} {e : Failure}
    {f : α → Session (StateM FileTree) β} (h : outcome x printed t = ((.error e, printed'), t')) :
    outcome (x >>= f) printed t = ((.error e, printed'), t') := by
  rw [outcome] at h
  rw [outcome, ExceptT.run_bind, StateT.run_bind, StateT.run_bind, h]
  rfl

theorem outcome_told (tell : ε → Failure) (x : Except ε α) :
    outcome (told tell x) printed t = ((x.mapError tell, printed), t) := rfl

theorem outcome_printLine (line : String) :
    outcome (printLine line) printed t = ((.ok (), printed ++ (line ++ "\n")), t) := rfl

/-- A program on the tree, inside a session. -/
theorem outcome_lift (tell : ε → Failure) {x : ExceptT ε (StateM FileTree) α}
    {r : Except ε α} (h : FileTree.outcome x t = (r, t')) :
    outcome (lift tell x) printed t = ((r.mapError tell, printed), t') := by
  rw [FileTree.outcome] at h
  show (((x.run.run t).1.mapError _, printed), (x.run.run t).2) = _
  rw [h]

theorem eq_ok_of_outcome_told {tell : ε → Failure} {x : Except ε α} {a : α}
    (h : outcome (told tell x) printed t = ((.ok a, printed'), t')) : x = .ok a := by
  rw [outcome_told] at h
  cases x with
  | error e => cases h
  | ok b =>
    cases h
    rfl

theorem eq_ok_of_outcome_lift {tell : ε → Failure} {x : ExceptT ε (StateM FileTree) α} {a : α}
    (h : outcome (lift tell x) printed t = ((.ok a, printed'), t')) :
    FileTree.outcome x t = (.ok a, t') := by
  rcases hx : FileTree.outcome x t with ⟨e | b, t₁⟩
  · rw [outcome_lift tell hx] at h
    cases h
  · rw [outcome_lift tell hx] at h
    cases h
    rfl

/-- A program that cannot fail, inside a session. -/
theorem outcome_liftM {x : StateM FileTree α} {a : α} (h : x.run t = (a, t')) :
    outcome (liftM x) printed t = ((.ok a, printed), t') := by
  show ((Except.ok (x.run t).1, printed), (x.run t).2) = _
  rw [h]

/-! ### Reading -/

/-- A session that prints nothing and changes nothing. -/
def IsReading (x : Session (StateM FileTree) α) : Prop :=
  ∀ printed t, ∃ r, outcome x printed t = ((r, printed), t)

section Reading

variable {x : Session (StateM FileTree) α} {f : α → Session (StateM FileTree) β}

theorem isReading_pure (a : α) : IsReading (pure a) := fun _ _ => ⟨_, rfl⟩

theorem isReading_throw (f : Failure) : IsReading (throw f : Session _ α) := fun _ _ => ⟨_, rfl⟩

theorem isReading_told (tell : ε → Failure) (x : Except ε α) : IsReading (told tell x) :=
  fun _ _ => ⟨_, rfl⟩

theorem IsReading.bind (hx : IsReading x) (hf : ∀ a, IsReading (f a)) : IsReading (x >>= f) := by
  intro printed t
  obtain ⟨e | a, h⟩ := hx printed t
  · exact ⟨_, outcome_bind_error h⟩
  · rw [outcome_bind_ok h]
    exact hf a printed t

theorem IsReading.map (hx : IsReading x) (f : α → β) : IsReading (f <$> x) := by
  rw [← bind_pure_comp]
  exact hx.bind fun a => isReading_pure _

theorem IsReading.during (hx : IsReading x) (message : String) :
    IsReading (Failure.during message x) := by
  intro printed t
  obtain ⟨r, h⟩ := hx printed t
  rw [outcome] at h
  refine ⟨r.mapError (·.within message), ?_⟩
  show ((((x.run.run printed).run t).1.1.mapError _, ((x.run.run printed).run t).1.2),
    ((x.run.run printed).run t).2) = _
  rw [h]

theorem isReading_lift (tell : ε → Failure) {x : ExceptT ε (StateM FileTree) α}
    (h : FileTree.IsReading x) : IsReading (lift tell x) := by
  intro printed t
  exact ⟨_, outcome_lift tell (Prod.ext rfl (h t))⟩

theorem isReading_liftM {x : StateM FileTree α} (h : ∀ t, (x.run t).2 = t) :
    IsReading (liftM x : Session (StateM FileTree) α) :=
  fun _ t => ⟨_, outcome_liftM (Prod.ext rfl (h t))⟩

/-- After reading a session goes on from where it was. -/
theorem IsReading.exists_of_bind_eq_ok {b : β} (hx : IsReading x)
    (h : outcome (x >>= f) printed t = ((.ok b, printed'), t')) :
    ∃ a, outcome x printed t = ((.ok a, printed), t) ∧
      outcome (f a) printed t = ((.ok b, printed'), t') := by
  obtain ⟨e | a, hr⟩ := hx printed t
  · rw [outcome_bind_error hr] at h
    cases h
  · rw [outcome_bind_ok hr] at h
    exact ⟨a, hr, h⟩

end Reading

/-! ### Inputs and graphs -/

theorem isReading_graphInput (text : String) :
    IsReading (graphInput text : Session (StateM FileTree) _) := by
  refine (isReading_liftM fun _ => rfl).bind fun isFile => ?_
  cases isFile with
  | true => exact isReading_pure _
  | false =>
    by_cases hending : text.endsWith ".json"
    · simp only [hending]
      exact isReading_pure _
    · simp only [hending]
      exact ((isReading_told _ _).during _).bind fun c => isReading_pure _

theorem isReading_mergeOptions (settings : Settings) (strategy : Option String) :
    IsReading (mergeOptions settings strategy : Session (StateM FileTree) _) := by
  refine (isReading_told _ _).bind fun options => ?_
  cases strategy with
  | none => exact isReading_pure _
  | some text => exact (isReading_told _ _).bind fun strategy => isReading_pure _

theorem isReading_readMetadata (path : Path) :
    IsReading (readMetadata path : Session (StateM FileTree) _) := by
  have htext (t : FileTree) : ((FileSystem.readText path : StateM FileTree _).run t).2 = t :=
    congrArg Prod.snd (FileTree.run_readText_eq path t)
  refine (isReading_lift _ htext).bind fun text => ?_
  split
  · exact isReading_pure _
  · exact isReading_throw _

theorem isReading_readSnapshot (path : Path) :
    IsReading (readSnapshot path : Session (StateM FileTree) _) := by
  refine (isReading_liftM fun _ => rfl).bind fun bytes => ?_
  split
  · exact isReading_throw _
  · exact isReading_throw _
  · exact isReading_told _ _

theorem isReading_openGraph (settings : Settings) (a : GraphArguments) :
    IsReading (openGraph settings a : Session (StateM FileTree) _) := by
  have hsnapshot (path : Path) {fromMetadata : Session (StateM FileTree) (Option DependencyGraph)}
      (h : IsReading fromMetadata) : IsReading (do
        if ← (FileSystem.contains path : StateM FileTree Bool) then some <$> readSnapshot path
        else fromMetadata) := by
    refine (isReading_liftM fun _ => rfl).bind fun isThere => ?_
    split
    · exact (isReading_readSnapshot path).map some
    · exact h
  rw [openGraph]
  cases a.metadata.orElse fun _ => settings.resolver.metadata with
  | none =>
    cases a.snapshot.orElse fun _ => settings.resolver.snapshot with
    | none => exact isReading_pure none
    | some path => exact hsnapshot path (isReading_pure none)
  | some metadata =>
    have hmetadata := (isReading_readMetadata metadata).map some
    cases a.snapshot.orElse fun _ => settings.resolver.snapshot with
    | none => exact hmetadata
    | some path => exact hsnapshot path hmetadata

end Stitch.Session
