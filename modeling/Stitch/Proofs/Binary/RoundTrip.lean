/-
Binary values are read back as they were written.

`Reader.Reads read bytes a` says that a reader takes these bytes off the front of
any input, and that they stand for the value `a`.  What follows them plays no
part, so that readings can be put one after the other:

* `Reads.bind` and `Reads.map` follow the readers' own structure;
* `reads_nat32` up to `reads_case` give each part of the layout its reading, and
  `reads_list` carries the reading of one item over to a sequence.

A number is read back if it has its place in the bytes (`FitsNat`, `FitsInt`).  For a
text and for a sequence this is a condition on the length: `FitsText`, `FitsList`.
-/
import Stitch.Binary.Reader

namespace Stitch

namespace Binary

/-- A number of 64 bits. -/
abbrev FitsNat (n : Nat) : Prop := n < 18446744073709551616

/-- A number of 64 bits, one of which is the sign. -/
abbrev FitsInt (i : Int) : Prop := -9223372036854775808 ≤ i ∧ i < 9223372036854775808

/-- The length of the text in bytes is a 64 bit number. -/
def FitsText (s : String) : Prop := FitsNat (Text.Utf8.bytes s).length

/-- The length of the sequence is a 64 bit number, and all its items have a place too. -/
def FitsList {α : Type} (fits : α → Prop) (items : List α) : Prop :=
  FitsNat items.length ∧ ∀ item ∈ items, fits item

instance : DecidablePred FitsText := fun _ => Nat.decLt _ _

instance {α : Type} {fits : α → Prop} [DecidablePred fits] : DecidablePred (FitsList fits) :=
  fun _ => instDecidableAnd

theorem FitsList.mono {α : Type} {fits : α → Prop} {items some : List α} (h : FitsList fits items)
    (hlength : some.length ≤ items.length) (hmem : some ⊆ items) : FitsList fits some :=
  ⟨Nat.lt_of_le_of_lt hlength h.1, fun item hitem => h.2 item (hmem hitem)⟩

namespace Reader

variable {α β : Type} {read : Reader α} {bytes more : List UInt8} {a : α} {b : β}

/-- Bytes are read as a value, whatever comes after them, and nothing else is taken. -/
def Reads (read : Reader α) (bytes : List UInt8) (a : α) : Prop :=
  ∀ rest, read.run (bytes ++ rest) = some (a, rest)

theorem Reads.run?_append (h : read.Reads bytes a) (trailing : List UInt8) :
    run? read (bytes ++ trailing) = some a := by
  rw [run?, h trailing, Option.map_some]

theorem reads_pure (a : α) : Reads (pure a) [] a := fun _ => rfl

theorem Reads.bind {next : α → Reader β} (h : read.Reads bytes a) (hnext : (next a).Reads more b) :
    Reads (read >>= next) (bytes ++ more) b := by
  intro rest
  rw [List.append_assoc, StateT.run_bind, h]
  exact hnext rest

theorem Reads.map (h : read.Reads bytes a) (f : α → β) : Reads (f <$> read) bytes (f a) := by
  intro rest
  rw [StateT.run_map, h]
  rfl

/-- The last step of a reader takes nothing. -/
theorem Reads.bind_pure (h : read.Reads bytes a) (f : α → β) :
    Reads (read >>= fun a => pure (f a)) bytes (f a) := by
  rw [← List.append_nil bytes]
  exact h.bind (reads_pure (f a))

/-- The last step of a reader takes nothing, and does not fail. -/
theorem Reads.bind_lift (h : read.Reads bytes a) {next : α → Option β} (hnext : next a = some b) :
    Reads (read >>= fun a => liftM (next a)) bytes b := by
  rw [← List.append_nil bytes]
  refine h.bind fun rest => ?_
  rw [hnext]
  rfl

/-! ### Numbers -/

theorem reads_take {n : Nat} (h : bytes.length = n) : (take n).Reads bytes bytes := by
  intro rest
  subst h
  simp [take, StateT.run]

theorem reads_nat32 {n : Nat} (h : n < 4294967296) : nat32.Reads (Binary.nat32 n) n := by
  have hvalue : ofLittleEndian (Binary.nat32 n) = n := by
    rw [Binary.nat32, ofLittleEndian_littleEndian]
    exact Nat.mod_eq_of_lt h
  have hread := (reads_take (length_littleEndian 4 n)).map ofLittleEndian
  rwa [← Binary.nat32, hvalue] at hread

theorem reads_nat64 {n : Nat} (h : FitsNat n) : nat64.Reads (Binary.nat64 n) n := by
  have hvalue : ofLittleEndian (Binary.nat64 n) = n := by
    rw [Binary.nat64, ofLittleEndian_littleEndian]
    exact Nat.mod_eq_of_lt h
  have hread := (reads_take (length_littleEndian 8 n)).map ofLittleEndian
  rwa [← Binary.nat64, hvalue] at hread

theorem reads_int64 {i : Int} (h : FitsInt i) : int64.Reads (Binary.int64 i) i := by
  have hbound : FitsNat (i % 18446744073709551616).toNat := by omega
  have hread := (reads_nat64 hbound).bind_pure
    fun n => if n < 9223372036854775808 then (n : Int) else n - 18446744073709551616
  -- The upper half of the numbers stands for the negative ones.
  have hvalue : (if (i % 18446744073709551616).toNat < 9223372036854775808 then
      ((i % 18446744073709551616).toNat : Int)
    else (i % 18446744073709551616).toNat - 18446744073709551616) = i := by
    split <;> omega
  rwa [hvalue] at hread

theorem reads_bool (b : Bool) : bool.Reads (Binary.bool b) b := by
  intro rest
  cases b <;> rfl

/-! ### Texts, cases and sequences -/

theorem reads_string {s : String} (h : FitsText s) : string.Reads (Binary.string s) s :=
  (reads_nat64 h).bind ((reads_take rfl).bind_lift (Text.Utf8.text?_bytes s))

theorem reads_parsed {parse : String → Option α} {s : String} (h : FitsText s)
    (hparse : parse s = some a) : (parsed parse).Reads (Binary.string s) a :=
  (reads_string h).bind_lift hparse

theorem reads_case [DecidableEq α] {cases : List α} (hmem : a ∈ cases)
    (hlength : cases.length < 4294967296) :
    (case cases).Reads (Binary.nat32 (cases.idxOf a)) a := by
  have hplace : cases.idxOf a < cases.length := List.idxOf_lt_length_of_mem hmem
  have hcase : cases[cases.idxOf a]? = some a := by
    rw [List.getElem?_eq_getElem hplace, List.getElem_idxOf]
  exact (reads_nat32 (Nat.lt_trans hplace hlength)).bind_lift hcase

theorem reads_items {write : α → List UInt8} {as : List α}
    (h : ∀ a ∈ as, read.Reads (write a) a) :
    (items read as.length).Reads (as.flatMap write) as := by
  induction as with
  | nil => exact reads_pure []
  | cons a as ih =>
    have hrest := ih fun b hb => h b (List.mem_cons_of_mem a hb)
    exact (h a List.mem_cons_self).bind (hrest.bind_pure (a :: ·))

theorem reads_list {write : α → List UInt8} {as : List α} (hlength : FitsNat as.length)
    (h : ∀ a ∈ as, read.Reads (write a) a) : (list read).Reads (Binary.list write as) as :=
  (reads_nat64 hlength).bind (reads_items h)

end Reader

end Binary

end Stitch
