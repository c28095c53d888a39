/-
Folds of steps that may fail.

If every step succeeds where an invariant holds, and keeps it, then the whole
fold succeeds and the invariant holds at its end (`exists_foldlM_ok`).  If a fold
succeeds, what its steps keep is kept by all of it (`foldlM_preserves`), and what
they add one by one is in the end what was there at its beginning and what any of
the items adds (`foldlM_adds`); every item had its step (`exists_step_of_mem`).
-/

namespace Stitch

variable {α β ε : Type}

theorem exists_foldlM_ok {step : β → α → Except ε β} {P : β → Prop} {as : List α}
    (hstep : ∀ b a, a ∈ as → P b → ∃ b', step b a = .ok b' ∧ P b') {b : β} (hb : P b) :
    ∃ b', as.foldlM step b = .ok b' ∧ P b' := by
  induction as generalizing b with
  | nil => exact ⟨b, rfl, hb⟩
  | cons a as ih =>
    obtain ⟨b₁, hb₁, hP₁⟩ := hstep b a List.mem_cons_self hb
    obtain ⟨b₂, hb₂, hP₂⟩ := ih (fun b a ha => hstep b a (List.mem_cons_of_mem _ ha)) hP₁
    refine ⟨b₂, ?_, hP₂⟩
    rw [List.foldlM_cons, hb₁]
    exact hb₂

theorem exists_of_bind_eq_ok {x : Except ε α} {f : α → Except ε β} {b : β}
    (h : x >>= f = .ok b) : ∃ a, x = .ok a ∧ f a = .ok b := by
  cases x with
  | error e => cases h
  | ok a => exact ⟨a, rfl, h⟩

theorem foldlM_preserves {step : β → α → Except ε β} {P : β → Prop} {as : List α}
    (hstep : ∀ b a b', a ∈ as → P b → step b a = .ok b' → P b') {b b' : β} (hb : P b)
    (h : as.foldlM step b = .ok b') : P b' := by
  induction as generalizing b with
  | nil =>
    cases h
    exact hb
  | cons a as ih =>
    rw [List.foldlM_cons] at h
    obtain ⟨b₁, hfirst, hrest⟩ := exists_of_bind_eq_ok h
    have hb₁ := hstep b a b₁ List.mem_cons_self hb hfirst
    exact ih (fun b a b' ha => hstep b a b' (List.mem_cons_of_mem _ ha)) hb₁ hrest

/-- An item of a fold that succeeds had its step, and the rest followed. -/
theorem exists_step_of_mem {step : β → α → Except ε β} {P : β → Prop} {as : List α}
    (hstep : ∀ b a b', a ∈ as → P b → step b a = .ok b' → P b') {b b' : β} (hb : P b)
    (h : as.foldlM step b = .ok b') {a : α} (ha : a ∈ as) :
    ∃ b₁ b₂ rest, rest ⊆ as ∧ P b₁ ∧ step b₁ a = .ok b₂ ∧ rest.foldlM step b₂ = .ok b' := by
  induction as generalizing b with
  | nil => cases ha
  | cons first as ih =>
    rw [List.foldlM_cons] at h
    obtain ⟨b₁, hfirst, hrest⟩ := exists_of_bind_eq_ok h
    rcases List.mem_cons.1 ha with rfl | ha
    · exact ⟨b, b₁, as, List.subset_cons_self _ _, hb, hfirst, hrest⟩
    · have hb₁ := hstep b first b₁ List.mem_cons_self hb hfirst
      obtain ⟨b₂, b₃, rest, hsub, h⟩ :=
        ih (fun b a b' ha => hstep b a b' (List.mem_cons_of_mem _ ha)) hb₁ hrest ha
      exact ⟨b₂, b₃, rest, List.Subset.trans hsub (List.subset_cons_self _ _), h⟩

theorem foldlM_adds {step : β → α → Except ε β} {P : β → Prop} {as : List α}
    (view : β → Prop) (adds : α → Prop)
    (hstep : ∀ b a b', a ∈ as → P b → step b a = .ok b' → P b' ∧ (view b' ↔ view b ∨ adds a))
    {b b' : β} (hb : P b) (h : as.foldlM step b = .ok b') :
    view b' ↔ view b ∨ ∃ a ∈ as, adds a := by
  induction as generalizing b with
  | nil =>
    cases h
    simp
  | cons a as ih =>
    rw [List.foldlM_cons] at h
    cases hfirst : step b a with
    | error e =>
      rw [hfirst] at h
      cases h
    | ok b₁ =>
      rw [hfirst] at h
      obtain ⟨hb₁, hview⟩ := hstep b a b₁ List.mem_cons_self hb hfirst
      rw [ih (fun b a b' ha => hstep b a b' (List.mem_cons_of_mem _ ha)) hb₁ h, hview, or_assoc]
      simp only [List.mem_cons, exists_eq_or_imp]

end Stitch
