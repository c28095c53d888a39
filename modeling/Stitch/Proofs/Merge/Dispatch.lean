/-
Numbers that calls lead to.

Every look-up in a universe ends in its index, so wherever a call goes, both its
caller and its targets are methods of the universe (`resolve_isWithin`).  The
lemmas before it say so for each way of finding a target.
-/
import Stitch.Merge.Dispatch
import Stitch.Proofs.Merge.Universe

namespace Stitch

/-- Whether all numbers of a resolution are below a bound. -/
def CallResolution.IsWithin (bound : Nat) : CallResolution → Prop
  | .dropped => True
  | .resolved caller targets => caller < bound ∧ ∀ target ∈ targets, target < bound
  | .unresolved caller => caller < bound

theorem CallKind.ne_dynamic_of_isDispatched {kind : CallKind} (h : kind.isDispatched = true) :
    kind ≠ .dynamic := by
  rintro rfl
  cases h

namespace Universe

variable {u : Universe}

/-- A dispatched call reaches what some receiver runs. -/
theorem mem_dispatchedTargets_iff {block : Nat} {callee : MethodUri} {kind : CallKind}
    {s : Strategy} {gid : Gid} : gid ∈ u.dispatchedTargets block callee kind s ↔
      ∃ receiver ∈ u.receivers callee.typeUri,
        u.nearest? block kind s callee.signature receiver = some gid := by
  rw [dispatchedTargets, mem_distinct, List.mem_filterMap]

/-- What a call comes to: it is dropped exactly if its caller is not found, and
it is resolved only if it has targets. -/
theorem resolve_cases (block : Nat) (call : CallSite) (useHierarchy : Bool) (s : Strategy) :
    (u.method? block call.caller = none ∧ u.resolve block call useHierarchy s = .dropped) ∨
      ∃ caller, u.method? block call.caller = some caller ∧
        (u.resolve block call useHierarchy s = .unresolved caller ∨
          ∃ targets, targets ≠ [] ∧ u.resolve block call useHierarchy s = .resolved caller targets)
    := by
  rw [resolve]
  cases hcaller : u.method? block call.caller with
  | none => exact .inl ⟨rfl, rfl⟩
  | some caller =>
    refine .inr ⟨caller, rfl, ?_⟩
    dsimp only
    split
    · exact .inl rfl
    · next hne => exact .inr ⟨_, hne, rfl⟩

variable (hu : u.symbols.IsDense)
include hu

theorem method?_lt {block : Nat} {localUri : String} {gid : Gid}
    (h : u.method? block localUri = some gid) : gid < u.symbols.size := by
  obtain ⟨c, -, hlook⟩ := Option.bind_eq_some_iff.1 h
  exact hu.lookup_lt hlook

theorem exactTarget?_lt {block : Nat} {callee : MethodUri} {gid : Gid}
    (h : u.exactTarget? block callee = some gid) : gid < u.symbols.size := by
  rw [exactTarget?] at h
  split at h
  · exact hu.lookup_lt h
  · rcases Option.or_eq_some_iff.1 h with hown | ⟨-, h⟩
    · exact method?_lt hu hown
    · rcases Option.or_eq_some_iff.1 h with hdeclared | ⟨-, hany⟩
      · obtain ⟨owner, -, howner⟩ := List.exists_of_findSome?_eq_some hdeclared
        exact method?_lt hu howner
      · exact hu.lookupLocal_lt hany

theorem concrete?_lt {block : Nat} {s : Strategy} {signature type : String} {gid : Gid}
    (h : u.concrete? block s signature type = some gid) : gid < u.symbols.size := by
  obtain ⟨⟨owner, decl⟩, -, h⟩ := Option.bind_eq_some_iff.1 h
  dsimp only at h
  split at h
  · exact method?_lt hu h
  · cases h

theorem lt_of_mem_dispatchedTargets {block : Nat} {callee : MethodUri} {kind : CallKind}
    {s : Strategy} {gid : Gid} (h : gid ∈ u.dispatchedTargets block callee kind s) :
    gid < u.symbols.size := by
  obtain ⟨receiver, -, hnearest⟩ := mem_dispatchedTargets_iff.1 h
  obtain ⟨type, -, hconcrete⟩ := List.exists_of_findSome?_eq_some hnearest
  exact concrete?_lt hu hconcrete

theorem lt_of_mem_uriTargets {block : Nat} {kind : CallKind} {useHierarchy : Bool}
    {s : Strategy} {callee : MethodUri} {gid : Gid}
    (h : gid ∈ u.uriTargets block kind useHierarchy s callee) : gid < u.symbols.size := by
  have hexact : gid ∈ (u.exactTarget? block callee).toList → gid < u.symbols.size :=
    fun h => exactTarget?_lt hu (Option.mem_toList.1 h)
  have hfound : gid ∈ (if useHierarchy then u.dispatchedTargets block callee kind s else []) →
      gid < u.symbols.size := by
    intro h
    split at h
    · exact lt_of_mem_dispatchedTargets hu h
    · cases h
  rw [uriTargets] at h
  cases hkind : kind.isDispatched with
  | false =>
    rw [if_neg (by simp [hkind])] at h
    exact hexact h
  | true =>
    rw [if_pos hkind] at h
    by_cases hfallback : ((if useHierarchy then u.dispatchedTargets block callee kind s
        else []).isEmpty && callee.isGlobal) = true
    · exact hexact (by simpa only [if_pos hfallback] using h)
    · exact hfound (by simpa only [if_neg hfallback] using h)

theorem lt_of_mem_targets {block : Nat} {call : CallSite} {useHierarchy : Bool} {s : Strategy}
    {gid : Gid} (h : gid ∈ u.targets block call useHierarchy s) : gid < u.symbols.size := by
  rw [targets] at h
  split at h
  · cases h
  · split at h
    · cases h
    · exact lt_of_mem_uriTargets hu h

/-- Callers and targets of calls are methods of the universe. -/
theorem resolve_isWithin (block : Nat) (call : CallSite) (useHierarchy : Bool) (s : Strategy) :
    (u.resolve block call useHierarchy s).IsWithin u.symbols.size := by
  rw [resolve]
  cases hcaller : u.method? block call.caller with
  | none => exact trivial
  | some caller =>
    have hlt : caller < u.symbols.size := method?_lt hu hcaller
    cases htargets : u.targets block call useHierarchy s with
    | nil => exact hlt
    | cons target targets =>
      exact ⟨hlt, fun gid hgid => lt_of_mem_targets hu (htargets ▸ hgid)⟩

end Universe

end Stitch
