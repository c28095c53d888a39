/-
What is text is read as it is.

The bytes of a string are those of its characters, one behind the other
(`bytes_ofList`).  Reading the bytes of one character takes the machine from the start to the
start again and gives this character (`run_utf8EncodeChar`): the first byte says how many are
owed, and the narrower range of the second byte leaves out no character.  So the lossy reader
loses nothing of a text (`lossy_bytes`).
-/
import Mathlib.Tactic.SplitIfs
import Stitch.Text.Utf8

namespace Stitch.Text.Utf8

theorem bytes_ofList (cs : List Char) :
    bytes (String.ofList cs) = cs.flatMap String.utf8EncodeChar := by
  rw [bytes, String.toUTF8_eq_toByteArray, String.toByteArray_ofList, List.utf8Encode,
    List.toList_data_toByteArray]

/-! ### Steps of the machine -/

variable {bits owed low high n : Nat} {b : UInt8} {rest : List UInt8}

theorem run_start_one (h : b.toNat < 0x80) :
    run .start (b :: rest) = Char.ofNat b.toNat :: run .start rest := by
  simp [run, step, first, h]

theorem run_start_two (hlow : 0xC2 ≤ b.toNat) (hhigh : b.toNat ≤ 0xDF) :
    run .start (b :: rest) = run (.inside (b.toNat - 0xC0) 0 0x80 0xBF) rest := by
  have hfirst : ¬b.toNat < 0x80 := by omega
  simp [run, step, first, hfirst, hlow, hhigh]

theorem run_start_three (hlow : 0xE0 ≤ b.toNat) (hhigh : b.toNat ≤ 0xEF) :
    run .start (b :: rest) = run (.inside (b.toNat - 0xE0) 1
      (if b.toNat = 0xE0 then 0xA0 else 0x80) (if b.toNat = 0xED then 0x9F else 0xBF)) rest := by
  have hfirst : first b.toNat = (.inside (b.toNat - 0xE0) 1
      (if b.toNat = 0xE0 then 0xA0 else 0x80) (if b.toNat = 0xED then 0x9F else 0xBF), []) := by
    grind [first]
  rw [run, step, hfirst]
  rfl

theorem run_start_four (hlow : 0xF0 ≤ b.toNat) (hhigh : b.toNat ≤ 0xF4) :
    run .start (b :: rest) = run (.inside (b.toNat - 0xF0) 2
      (if b.toNat = 0xF0 then 0x90 else 0x80) (if b.toNat = 0xF4 then 0x8F else 0xBF)) rest := by
  have hfirst : first b.toNat = (.inside (b.toNat - 0xF0) 2
      (if b.toNat = 0xF0 then 0x90 else 0x80) (if b.toNat = 0xF4 then 0x8F else 0xBF), []) := by
    grind [first]
  rw [run, step, hfirst]
  rfl

theorem run_inside (hlow : low ≤ b.toNat) (hhigh : b.toNat ≤ high) :
    run (.inside bits (n + 1) low high) (b :: rest) =
      run (.inside (bits * 64 + (b.toNat - 0x80)) n 0x80 0xBF) rest := by
  simp [run, step, hlow, hhigh]

theorem run_inside_last (hlow : low ≤ b.toNat) (hhigh : b.toNat ≤ high) :
    run (.inside bits 0 low high) (b :: rest) =
      Char.ofNat (bits * 64 + (b.toNat - 0x80)) :: run .start rest := by
  simp [run, step, hlow, hhigh]

/-! ### Characters -/

theorem ofNat_eq {c : Char} (h : n = c.toNat) : Char.ofNat n = c := by
  rw [h, Char.ofNat_toNat]

theorem run_utf8EncodeChar (c : Char) (rest : List UInt8) :
    run .start (String.utf8EncodeChar c ++ rest) = c :: run .start rest := by
  have hvalid : c.toNat < 0xD800 ∨ 0xDFFF < c.toNat ∧ c.toNat < 0x110000 := c.valid
  have htoNat {n : Nat} (h : n < 256) : (UInt8.ofNat n).toNat = n := UInt8.toNat_ofNat_of_lt' h
  rw [String.utf8EncodeChar]
  generalize hv : c.val.toNat = v
  have hc : c.toNat = v := hv
  rw [hc] at hvalid
  -- The narrow ranges of the second byte leave out what is shorter or no character at all, which
  -- the case and `hvalid` rule out.
  split_ifs with h1 h2 h3
  · have b1 := htoNat (n := v) (by omega)
    rw [List.singleton_append, run_start_one (by omega), ofNat_eq (c := c) (by omega)]
  · have b1 := htoNat (n := v / 64 % 32 + 192) (by omega)
    have b2 := htoNat (n := v % 64 + 128) (by omega)
    simp only [List.cons_append, List.nil_append]
    rw [run_start_two (by omega) (by omega), run_inside_last (by omega) (by omega),
      ofNat_eq (c := c) (by omega)]
  · have b1 := htoNat (n := v / 4096 % 16 + 224) (by omega)
    have b2 := htoNat (n := v / 64 % 64 + 128) (by omega)
    have b3 := htoNat (n := v % 64 + 128) (by omega)
    simp only [List.cons_append, List.nil_append]
    rw [run_start_three (by omega) (by omega),
      run_inside (by split <;> omega) (by split <;> omega),
      run_inside_last (by omega) (by omega), ofNat_eq (c := c) (by omega)]
  · have b1 := htoNat (n := v / 262144 % 8 + 240) (by omega)
    have b2 := htoNat (n := v / 4096 % 64 + 128) (by omega)
    have b3 := htoNat (n := v / 64 % 64 + 128) (by omega)
    have b4 := htoNat (n := v % 64 + 128) (by omega)
    simp only [List.cons_append, List.nil_append]
    rw [run_start_four (by omega) (by omega),
      run_inside (by split <;> omega) (by split <;> omega), run_inside (by omega) (by omega),
      run_inside_last (by omega) (by omega), ofNat_eq (c := c) (by omega)]

theorem run_flatMap_utf8EncodeChar (cs : List Char) :
    run .start (cs.flatMap String.utf8EncodeChar) = cs := by
  induction cs with
  | nil => rfl
  | cons c cs ih => rw [List.flatMap_cons, run_utf8EncodeChar, ih]

theorem lossy_bytes (s : String) : lossy (bytes s) = s := by
  obtain ⟨cs, rfl⟩ : ∃ cs, s = String.ofList cs := ⟨s.toList, s.ofList_toList.symm⟩
  rw [bytes_ofList, lossy, run_flatMap_utf8EncodeChar]

end Stitch.Text.Utf8
