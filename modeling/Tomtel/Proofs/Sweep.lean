import Tomtel.Proofs.Code
import Tomtel.Proofs.Rows

/-!
# The listing of a program

A listing that starts where code stands in memory goes through it instruction by instruction
(`Memory.getElem?_listing_of_code`), so that the listing of a program gives back what was emitted:
`Program.listing_emitAll`.
-/

namespace Tomtel

open Instruction

namespace Memory

variable {memory : Memory} {addr : UInt32} {is : List Instruction} {i : Instruction}

/-- The row of an instruction whose encoding stands in memory, and the address behind it. -/
theorem row?_of_contains (hsize : memory.size < 2 ^ 32) (h : memory.Contains addr.toNat i.encode) :
    memory.row? .littleEndian addr = some (Row.ofInstruction addr i.encode i) ∧
      ∃ next, (Row.ofInstruction addr i.encode i).next? = some next ∧
        next.toNat = addr.toNat + i.encode.length := by
  have hi : memory.instruction .littleEndian addr = .ok i := by
    rw [instruction_of_contains hsize h, mapWord_view_littleEndian]
  have hle : addr.toNat + i.encode.length ≤ memory.size := h.add_length_le
  have hlt : addr.toNat + i.encode.length < UInt32.size := Nat.lt_of_le_of_lt hle hsize
  constructor
  · rw [row?_of_ok hi, ← i.length_encode, h.slice_eq]
  · exact ⟨_, if_pos hlt, UInt32.toNat_ofNat_of_lt' hlt⟩

theorem getElem?_listing_of_code (hsize : memory.size < 2 ^ 32)
    (h : memory.Contains addr.toNat (code is)) (k : Nat) :
    (memory.listing .littleEndian addr is.length)[k]? = is[k]?.map fun i =>
      Row.ofInstruction (.ofNat (addr.toNat + (code (is.take k)).length)) i.encode i := by
  induction is generalizing addr k with
  | nil => simp [listing_zero]
  | cons i is ih =>
    obtain ⟨hi, his⟩ := contains_code_cons.1 h
    obtain ⟨hrow, next, hnext, htoNat⟩ := row?_of_contains hsize hi
    rw [← htoNat] at his
    rw [List.length_cons, listing_succ, hrow]
    simp only [hnext]
    cases k with
    | zero => simp
    | succ k =>
      have hk := ih his k
      rw [Array.getElem?_append_right (by simp), List.getElem?_cons_succ, List.take_succ_cons,
        code_cons, List.length_append, ← Nat.add_assoc, ← htoNat]
      simpa using hk

end Memory

namespace Program

/-- Emit `n` instructions, put any data behind them, and list `n` rows from the start. There are `n`
rows and none of them is illegal. Row `k` starts at the sum of the lengths of the encodings before
it, and has the encoding and the text of instruction `k`. -/
theorem listing_emitAll (is : List Instruction) (bytes : List UInt8) :
    let image := (({} : Program).emitAll is).data bytes
    image.bytes.size < 2 ^ 32 →
    let rows := (Memory.mk image.bytes).listing .littleEndian 0 is.length
    rows.size = is.length ∧
    ∀ k i, is[k]? = some i → ∃ row, rows[k]? = some row ∧ row.illegal = false ∧
      row.addr.toNat = ((is.take k).map fun i => i.encode.length).sum ∧
      row.bytes = i.encode ∧
      i.text = if row.operands = "" then row.mnemonic else row.mnemonic ++ " " ++ row.operands := by
  intro image hsize rows
  have himage : image.bytes.toList = code is ++ bytes := by simp [image]
  have hcode : (Memory.mk image.bytes).Contains 0 (code is) := Memory.contains_start himage
  have hrows : ∀ k, rows[k]? = is[k]?.map fun i =>
      Row.ofInstruction (.ofNat (0 + (code (is.take k)).length)) i.encode i :=
    Memory.getElem?_listing_of_code hsize hcode
  constructor
  · -- the rows end where the instructions end
    have hend : ∀ k, rows.size ≤ k ↔ is.length ≤ k := by
      intro k
      rw [← Array.getElem?_eq_none_iff, hrows, Option.map_eq_none_iff, List.getElem?_eq_none_iff]
    have h₁ := hend rows.size
    have h₂ := hend is.length
    omega
  · intro k i hi
    have hlen : (code (is.take k)).length < 2 ^ 32 := by
      have htake := length_code_take_le is k
      have hle : (code is).length ≤ image.bytes.size := hcode.length_le_size
      omega
    refine ⟨_, by rw [hrows, hi]; rfl, rfl, ?_, rfl, rfl⟩
    show (UInt32.ofNat _).toNat = _
    rw [Nat.zero_add, UInt32.toNat_ofNat_of_lt' hlen, length_code]

/-- Two instructions in front of a truncated third, which is data. -/
theorem listing_emitAll_truncated :
    let is : List Instruction := [.mvi32 .ptr 0x20, .mv .cell (.register .a)]
    let image := (({} : Program).emitAll is).data [0x21, 0x05]
    let rows := (Memory.mk image.bytes).listing .littleEndian 0 2
    image.bytes.size < 2 ^ 32 ∧ rows.size = 2 ∧
    ∃ row, rows[1]? = some row ∧ row.illegal = false ∧ row.addr.toNat = 5 ∧ row.bytes = [0x79] ∧
      "MV (ptr+c) <- a" =
        if row.operands = "" then row.mnemonic else row.mnemonic ++ " " ++ row.operands := by
  have h := listing_emitAll [.mvi32 .ptr 0x20, .mv .cell (.register .a)] [0x21, 0x05] (by decide)
  exact ⟨by decide, h.1, h.2 1 (.mv .cell (.register .a)) rfl⟩

end Program

end Tomtel
