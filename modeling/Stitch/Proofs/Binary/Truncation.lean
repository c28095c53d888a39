/-
Bytes that are cut off are not read.

`Reader.ReadsFront read` says that a reader decides from the bytes that it takes: with
more bytes behind them it comes to the same value and leaves those too.  All readers
of the layout are of this kind, since each part says at its front how long it is:

* `ReadsFront.bind` and `ReadsFront.map` follow the readers' own structure;
* `readsFront_take` is the only step that takes bytes, and every other reader comes
  down to it;
* **`Reads.run?_eq_none`**: no strict prefix of what such a reader reads is read, as it
  would leave the bytes that were cut off.
-/
import Stitch.Proofs.Binary.RoundTrip

namespace Stitch.Binary.Reader

variable {α β : Type} {read : Reader α} {bytes : List UInt8} {a : α}

/-- What is read at the front of some bytes is read the same with more bytes behind them,
and these are left. -/
def ReadsFront (read : Reader α) : Prop :=
  ∀ ⦃bytes a rest⦄, read.run bytes = some (a, rest) →
    ∀ more, read.run (bytes ++ more) = some (a, rest ++ more)

theorem readsFront_pure (a : α) : ReadsFront (pure a) := by
  rintro bytes _ _ ⟨⟩ more
  rfl

theorem ReadsFront.bind {next : α → Reader β} (h : read.ReadsFront)
    (hnext : ∀ a, (next a).ReadsFront) : ReadsFront (read >>= next) := by
  intro bytes b rest hread more
  rw [StateT.run_bind] at hread ⊢
  obtain ⟨⟨a, between⟩, hfirst, hread⟩ := Option.bind_eq_some_iff.1 hread
  rw [h hfirst more]
  exact hnext a hread more

theorem ReadsFront.map (h : read.ReadsFront) (f : α → β) : ReadsFront (f <$> read) := by
  rw [map_eq_pure_bind]
  exact h.bind fun a => readsFront_pure (f a)

/-- What takes no bytes does not look at them. -/
theorem readsFront_lift (answer : Option α) : ReadsFront (liftM answer : Reader α) := by
  intro bytes a rest hread more
  cases answer with
  | none => cases hread
  | some _ =>
    cases hread
    rfl

/-- There are enough bytes, and they are in front of those that are added. -/
theorem readsFront_take (n : Nat) : (take n).ReadsFront := by
  intro bytes front rest hread more
  change (if (bytes.take n).length = n then some (bytes.take n, bytes.drop n) else none) = _
    at hread
  obtain ⟨hlength, hfront⟩ := Option.ite_none_right_eq_some.1 hread
  obtain ⟨rfl, rfl⟩ := Prod.mk.inj (Option.some.inj hfront)
  have hle : n ≤ bytes.length := by
    rw [List.length_take] at hlength
    omega
  change (if ((bytes ++ more).take n).length = n then
    some ((bytes ++ more).take n, (bytes ++ more).drop n) else none) = _
  rw [List.take_append_of_le_length hle, List.drop_append_of_le_length hle, if_pos hlength]

/-! ### The parts of the layout -/

theorem readsFront_nat32 : nat32.ReadsFront := (readsFront_take 4).map _

theorem readsFront_nat64 : nat64.ReadsFront := (readsFront_take 8).map _

theorem readsFront_int64 : int64.ReadsFront :=
  readsFront_nat64.bind fun _ => readsFront_pure _

theorem readsFront_bool : bool.ReadsFront := by
  refine (readsFront_take 1).bind fun front => ?_
  split
  · exact readsFront_pure false
  · exact readsFront_pure true
  · exact readsFront_lift none

theorem readsFront_string : string.ReadsFront :=
  readsFront_nat64.bind fun n => (readsFront_take n).bind fun _ => readsFront_lift _

theorem readsFront_items (h : read.ReadsFront) (n : Nat) : (items read n).ReadsFront := by
  induction n with
  | zero => exact readsFront_pure []
  | succ n ih => exact h.bind fun _ => ih.bind fun _ => readsFront_pure _

theorem readsFront_list (h : read.ReadsFront) : (list read).ReadsFront :=
  readsFront_nat64.bind fun n => readsFront_items h n

theorem readsFront_case (cases : List α) : (case cases).ReadsFront :=
  readsFront_nat32.bind fun _ => readsFront_lift _

theorem readsFront_parsed (parse : String → Option α) : (parsed parse).ReadsFront :=
  readsFront_string.bind fun _ => readsFront_lift _

/-! ### Cut bytes -/

/-- **Cut bytes are not read.**  From a strict prefix of what a reader reads it gets nothing:
with the other bytes behind it, these would be left. -/
theorem Reads.run?_eq_none (h : read.Reads bytes a) (hread : read.ReadsFront)
    {front : List UInt8} (hbegins : front <+: bytes) (hne : front ≠ bytes) :
    run? read front = none := by
  obtain ⟨more, rfl⟩ := hbegins
  cases hfront : read.run front with
  | none => rw [run?, hfront, Option.map_none]
  | some result =>
    obtain ⟨b, rest⟩ := result
    have hwhole := h []
    rw [List.append_nil, hread hfront more] at hwhole
    have hrest : rest ++ more = [] := (Prod.mk.inj (Option.some.inj hwhole)).2
    rw [(List.append_eq_nil_iff.1 hrest).2, List.append_nil] at hne
    exact absurd rfl hne

end Stitch.Binary.Reader
