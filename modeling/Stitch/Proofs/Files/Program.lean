/-
Programs that run on a tree of files.

`outcome x t` is what a program comes to on a tree and the tree after it.  Its laws
follow the program's own structure, one for each way of putting programs together
and one for each operation: the tree changes only where an operation succeeds.  In a
folder, a file is written and moved unless a name is too long (`outcome_write_join`,
`outcome_move_join`).

The laws of putting programs together hold with any state (`run_bind_ok`,
`run_bind_error`).
-/
import Stitch.Proofs.Files.Tree

namespace Stitch

/-! ### Programs with a state -/

section State

variable {σ ε ε' α β : Type} {s s' : σ}

theorem run_bind {x : StateM σ α} {a : α} {f : α → StateM σ β} (h : x.run s = (a, s')) :
    (x >>= f).run s = (f a).run s' := by
  rw [StateT.run_bind, h]
  rfl

theorem run_bind_ok {x : ExceptT ε (StateM σ) α} {a : α} {f : α → ExceptT ε (StateM σ) β}
    (h : x.run.run s = (.ok a, s')) : (x >>= f).run.run s = (f a).run.run s' := by
  rw [ExceptT.run_bind, StateT.run_bind, h]
  rfl

theorem run_bind_error {x : ExceptT ε (StateM σ) α} {e : ε} {f : α → ExceptT ε (StateM σ) β}
    (h : x.run.run s = (.error e, s')) : (x >>= f).run.run s = (.error e, s') := by
  rw [ExceptT.run_bind, StateT.run_bind, h]
  rfl

/-- A program that cannot fail, inside one that can. -/
theorem run_lift {x : StateM σ α} {a : α} (h : x.run s = (a, s')) :
    (liftM x : ExceptT ε (StateM σ) α).run.run s = (.ok a, s') := by
  show (Except.ok (x.run s).1, (x.run s).2) = _
  rw [h]

/-- A program whose errors are told in other words. -/
theorem run_adapt {x : ExceptT ε (StateM σ) α} {r : Except ε α} (f : ε → ε')
    (h : x.run.run s = (r, s')) : (x.adapt f).run.run s = (r.mapError f, s') := by
  show ((x.run.run s).1.mapError f, (x.run.run s).2) = _
  rw [h]

end State

namespace FileTree

variable {ε α β : Type} {t t' : FileTree} {path target : Path} {bytes : List UInt8}

/-- What a program on a tree comes to, and the tree after it. -/
def outcome (x : ExceptT ε (StateM FileTree) α) (t : FileTree) : Except ε α × FileTree :=
  x.run.run t

/-! ### Putting programs together -/

@[simp] theorem outcome_pure (a : α) :
    outcome (pure a : ExceptT ε (StateM FileTree) α) t = (.ok a, t) := rfl

@[simp] theorem outcome_liftExcept (r : Except ε α) :
    outcome (liftExcept r : ExceptT ε (StateM FileTree) α) t = (r, t) := by
  cases r <;> rfl

theorem outcome_bind_ok {x : ExceptT ε (StateM FileTree) α} {a : α}
    {f : α → ExceptT ε (StateM FileTree) β} (h : outcome x t = (.ok a, t')) :
    outcome (x >>= f) t = outcome (f a) t' :=
  run_bind_ok h

theorem outcome_bind_error {x : ExceptT ε (StateM FileTree) α} {e : ε}
    {f : α → ExceptT ε (StateM FileTree) β} (h : outcome x t = (.error e, t')) :
    outcome (x >>= f) t = (.error e, t') :=
  run_bind_error h

theorem exists_of_outcome_bind_eq_ok {x : ExceptT ε (StateM FileTree) α} {b : β}
    {f : α → ExceptT ε (StateM FileTree) β} {t'' : FileTree}
    (h : outcome (x >>= f) t = (.ok b, t'')) :
    ∃ a t', outcome x t = (.ok a, t') ∧ outcome (f a) t' = (.ok b, t'') := by
  rcases hx : outcome x t with ⟨e | a, t'⟩
  · rw [outcome_bind_error hx] at h
    cases h
  · rw [outcome_bind_ok hx] at h
    exact ⟨a, t', rfl, h⟩

/-- A loop whose steps leave the tree alone. -/
theorem outcome_mapM {f : α → ExceptT ε (StateM FileTree) β} {as : List α} {g : α → β}
    (h : ∀ a ∈ as, outcome (f a) t = (.ok (g a), t)) :
    outcome (as.mapM f) t = (.ok (as.map g), t) := by
  induction as with
  | nil => rfl
  | cons a as ih =>
    rw [List.mapM_cons, outcome_bind_ok (h a List.mem_cons_self),
      outcome_bind_ok (ih fun b hb => h b (List.mem_cons_of_mem a hb))]
    rfl

/-- Such a loop fails if one of its steps does. -/
theorem outcome_mapM_error {f : α → ExceptT ε (StateM FileTree) β} {as : List α}
    (h : ∀ a ∈ as, (outcome (f a) t).2 = t) {a : α} (ha : a ∈ as) {e : ε}
    (he : (outcome (f a) t).1 = .error e) : ∃ e, outcome (as.mapM f) t = (.error e, t) := by
  induction as with
  | nil => cases ha
  | cons b bs ih =>
    rw [List.mapM_cons]
    have hsame := h b List.mem_cons_self
    rcases hb : outcome (f b) t with ⟨e' | v, t'⟩
    · rw [hb] at hsame
      obtain rfl : t' = t := hsame
      exact ⟨e', outcome_bind_error hb⟩
    · rw [hb] at hsame
      obtain rfl : t' = t := hsame
      rcases List.mem_cons.1 ha with rfl | ha
      · rw [hb] at he
        cases he
      · obtain ⟨e', hrest⟩ := ih (fun c hc => h c (List.mem_cons_of_mem b hc)) ha
        exact ⟨e', (outcome_bind_ok hb).trans (outcome_bind_error hrest)⟩

/-- A loop that collects in steps which leave the tree alone. -/
theorem outcome_foldlM {f : β → α → ExceptT ε (StateM FileTree) β} {g : β → α → β} {as : List α}
    (h : ∀ b, ∀ a ∈ as, outcome (f b a) t = (.ok (g b a), t)) (b : β) :
    outcome (as.foldlM f b) t = (.ok (as.foldl g b), t) := by
  induction as generalizing b with
  | nil => rfl
  | cons a as ih =>
    rw [List.foldlM_cons, outcome_bind_ok (h b a List.mem_cons_self)]
    exact ih (fun b a ha => h b a (List.mem_cons_of_mem _ ha)) _

theorem outcome_lift {x : StateM FileTree α} {a : α} (h : x.run t = (a, t')) :
    outcome (liftM x : ExceptT ε (StateM FileTree) α) t = (.ok a, t') :=
  run_lift h

/-- A program that changes nothing. -/
def IsReading (x : ExceptT ε (StateM FileTree) α) : Prop := ∀ t, (outcome x t).2 = t

theorem IsReading.outcome_eq {x : ExceptT ε (StateM FileTree) α} (h : IsReading x) (t : FileTree) :
    outcome x t = ((outcome x t).1, t) := Prod.ext rfl (h t)

theorem IsReading.bind {x : ExceptT ε (StateM FileTree) α}
    {f : α → ExceptT ε (StateM FileTree) β} (hx : IsReading x) (hf : ∀ a, IsReading (f a)) :
    IsReading (x >>= f) := by
  intro t
  have h := hx.outcome_eq t
  cases hr : (outcome x t).1 with
  | error e =>
    rw [hr] at h
    rw [outcome_bind_error h]
  | ok a =>
    rw [hr] at h
    rw [outcome_bind_ok h, hf a t]

/-- What comes of a program on two trees is the same if it is so for each of its steps. -/
theorem IsReading.outcome_bind_congr {x : ExceptT ε (StateM FileTree) α}
    {f : α → ExceptT ε (StateM FileTree) β} (hx : IsReading x)
    (h : (outcome x t').1 = (outcome x t).1)
    (hf : ∀ a, (outcome (f a) t').1 = (outcome (f a) t).1) :
    (outcome (x >>= f) t').1 = (outcome (x >>= f) t).1 := by
  have hx' := hx.outcome_eq t'
  have hx := hx.outcome_eq t
  rw [h] at hx'
  cases hr : (outcome x t).1 with
  | error e =>
    rw [hr] at hx hx'
    rw [outcome_bind_error hx, outcome_bind_error hx']
  | ok a =>
    rw [hr] at hx hx'
    rw [outcome_bind_ok hx, outcome_bind_ok hx', hf]

theorem outcome_lift_fst {x : StateM FileTree α} :
    (outcome (liftM x : ExceptT ε (StateM FileTree) α) t).1 = .ok (x.run t).1 := rfl

theorem isReading_liftM {x : StateM FileTree α} (h : ∀ t, (x.run t).2 = t) :
    IsReading (liftM x : ExceptT ε (StateM FileTree) α) := h

/-! ### Operations -/

variable {error : FileFault → ε}

theorem outcome_contains :
    outcome (liftM (FileSystem.contains path : StateM FileTree Bool) :
      ExceptT ε (StateM FileTree) Bool) t = (.ok (t.find path).toOption.isSome, t) := by
  show (Except.ok ((t.find path).map FileEntry.kind).toOption.isSome, t) = _
  cases t.find path <;> rfl

theorem outcome_now :
    outcome (liftM (FileSystem.now : StateM FileTree Instant) :
      ExceptT ε (StateM FileTree) Instant) t = (.ok t.now, t) := rfl

theorem outcome_read :
    outcome (liftM (FileSystem.read path : StateM FileTree _) :
      ExceptT ε (StateM FileTree) _) t = (.ok (t.read path), t) := rfl

theorem outcome_attempt_ok {operation : StateM FileTree (Except FileFault α)} {a : α}
    (h : operation.run t = (.ok a, t')) :
    outcome (FileSystem.attempt error operation) t = (.ok a, t') := by
  show ((operation.run t).1.mapError error, (operation.run t).2) = _
  rw [h]
  rfl

theorem outcome_attempt_error {operation : StateM FileTree (Except FileFault α)}
    {fault : FileFault} (h : operation.run t = (.error fault, t')) :
    outcome (FileSystem.attempt error operation) t = (.error (error fault), t') := by
  show ((operation.run t).1.mapError error, (operation.run t).2) = _
  rw [h]
  rfl

theorem run_of_outcome_attempt {operation : StateM FileTree (Except FileFault α)} {a : α}
    (h : outcome (FileSystem.attempt error operation) t = (.ok a, t')) :
    operation.run t = (.ok a, t') := by
  rcases hrun : operation.run t with ⟨fault | b, t₁⟩
  · rw [outcome_attempt_error hrun] at h
    cases h
  · rw [outcome_attempt_ok hrun] at h
    cases h
    rfl

theorem run_change_ok {f : FileTree → Except FileFault FileTree} (h : f t = .ok t') :
    (change f).run t = (.ok (), t') := by
  show change f t = _
  rw [change, h]

theorem run_change_error {f : FileTree → Except FileFault FileTree} {fault : FileFault}
    (h : f t = .error fault) : (change f).run t = (.error fault, t) := by
  show change f t = _
  rw [change, h]

theorem eq_ok_of_run_change {f : FileTree → Except FileFault FileTree}
    (h : (change f).run t = (.ok (), t')) : f t = .ok t' := by
  cases hf : f t with
  | error fault =>
    rw [run_change_error hf] at h
    cases h
  | ok t₁ =>
    rw [run_change_ok hf] at h
    cases h
    rfl

theorem outcome_list {names : List String} (h : t.list path = .ok names) :
    outcome (FileSystem.attempt error (FileSystem.list path)) t = (.ok names, t) :=
  outcome_attempt_ok (congrArg (·, t) h)

/-- A file is read as the text that its bytes are of, if there is one. -/
theorem run_readText_eq (path : Path) (t : FileTree) :
    (FileSystem.readText path : StateM FileTree _).run t =
      (t.read path >>= fun bytes => (Text.Utf8.text? bytes).elim (.error .invalidText) .ok, t) := by
  have hread : (FileSystem.read path : StateM FileTree _).run t = (t.read path, t) := rfl
  rw [FileSystem.readText, run_bind hread]
  cases t.read path with
  | error fault => rfl
  | ok bytes =>
    dsimp only
    show _ = ((Text.Utf8.text? bytes).elim (Except.error FileFault.invalidText) .ok, t)
    cases Text.Utf8.text? bytes <;> rfl

theorem run_readText (h : t.read path = .ok bytes) :
    (FileSystem.readText path : StateM FileTree _).run t =
      ((Text.Utf8.text? bytes).elim (.error .invalidText) .ok, t) := by
  rw [run_readText_eq, h]
  rfl

theorem outcome_readText_bytes (h : t.read path = .ok bytes) :
    outcome (FileSystem.attempt error (FileSystem.readText path)) t =
      ((Text.Utf8.text? bytes).elim (.error (error .invalidText)) .ok, t) := by
  have hrun := run_readText h
  cases htext : Text.Utf8.text? bytes with
  | none =>
    rw [htext] at hrun
    exact outcome_attempt_error hrun
  | some text =>
    rw [htext] at hrun
    exact outcome_attempt_ok hrun

theorem outcome_readText {text : String} (h : t.read path = .ok (Text.Utf8.bytes text)) :
    outcome (FileSystem.attempt error (FileSystem.readText path)) t = (.ok text, t) := by
  rw [outcome_readText_bytes h, Text.Utf8.text?_bytes]
  rfl

theorem outcome_write (h : t.write path bytes = .ok t') :
    outcome (FileSystem.attempt error (FileSystem.write path bytes)) t = (.ok (), t') :=
  outcome_attempt_ok (run_change_ok h)

theorem outcome_write_error {fault : FileFault} (h : t.write path bytes = .error fault) :
    outcome (FileSystem.attempt error (FileSystem.write path bytes)) t =
      (.error (error fault), t) :=
  outcome_attempt_error (run_change_error h)

theorem outcome_move (h : t.move path target = .ok t') :
    outcome (FileSystem.attempt error (FileSystem.move path target)) t = (.ok (), t') :=
  outcome_attempt_ok (run_change_ok h)

theorem outcome_move_error {fault : FileFault} (h : t.move path target = .error fault) :
    outcome (FileSystem.attempt error (FileSystem.move path target)) t =
      (.error (error fault), t) :=
  outcome_attempt_error (run_change_error h)

/-! ### Files in a folder -/

variable {place : Location} {name other : String}

/-- A new file is written unless its name is too long. -/
theorem outcome_write_join (h : IsFolder t path place) (hname : Path.IsFileName name)
    (habsent : t.entryIn place name = none) :
    (outcome (FileSystem.attempt error (FileSystem.write (path.join ⟨name⟩) bytes)) t =
        (.error (error .nameTooLong), t) ∧ ¬IsShort name) ∨
      ∃ t', outcome (FileSystem.attempt error (FileSystem.write (path.join ⟨name⟩) bytes)) t =
        (.ok (), t') ∧ IsShort name ∧ Gains path place name bytes t t' := by
  by_cases hshort : IsShort name
  · have hentry : t.entryIn place name ≠ some .folder := by simp [habsent]
    exact .inr ⟨_, outcome_write (write_join h hname hentry hshort), hshort,
      gains_setEntry h hentry⟩
  · exact .inl ⟨outcome_write_error (write_join_of_not_isShort h hname hshort), hshort⟩

/-- A file that was just written gets another name unless that is too long. -/
theorem outcome_move_join (h : Gains path place name bytes t t') (hname : Path.IsFileName name)
    (hother : Path.IsFileName other) (hne : other ≠ name) (hshort : IsShort name)
    (habsent : t.entryIn place name = none) (habsent' : t.entryIn place other = none) :
    (outcome (FileSystem.attempt error
        (FileSystem.move (path.join ⟨name⟩) (path.join ⟨other⟩))) t' =
        (.error (error .nameTooLong), t') ∧ ¬IsShort other) ∨
      ∃ t'', outcome (FileSystem.attempt error
        (FileSystem.move (path.join ⟨name⟩) (path.join ⟨other⟩))) t' = (.ok (), t'') ∧
        IsShort other ∧ Gains path place other bytes t t'' := by
  by_cases hshort' : IsShort other
  · have hentry : t'.entryIn place other ≠ some .folder := by simp [h.other other hne, habsent']
    have hmove := move_join h.isFolder hname hother hne h.entry hshort hentry hshort'
    exact .inr ⟨_, outcome_move hmove, hshort', h.rename habsent habsent' hne⟩
  · have hmove := move_join_of_not_isShort h.isFolder hname hother h.entry hshort hshort'
    exact .inl ⟨outcome_move_error hmove, hshort'⟩

end FileTree

end Stitch
