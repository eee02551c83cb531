import Tomtel.Proofs.InstructionText

/-!
# Listings in the two layouts

A listing has the same rows in both layouts, but for the operands of an instruction where the layouts
part (`Memory.LayoutsPart`): `Memory.listing_layouts`. Two rows at one address are `Row.Twins`, and
the sweep goes on at the same address behind them.
-/

namespace Tomtel

/-- A row of the little-endian listing and the one that stands for it in the legacy listing. Their
operands differ for a `JEZ`, a `JNZ` or an `MVI32` with different bytes at the end, and only then. -/
structure Row.Twins (little legacy : Row) : Prop where
  addr : legacy.addr = little.addr
  bytes : legacy.bytes = little.bytes
  mnemonic : legacy.mnemonic = little.mnemonic
  illegal : legacy.illegal = little.illegal
  operands : little.operands ≠ legacy.operands ↔ little.illegal = false ∧
    (little.mnemonic = "JEZ" ∨ little.mnemonic = "JNZ" ∨ little.mnemonic = "MVI32") ∧
    little.bytes[3]? ≠ little.bytes[4]?

theorem Row.Twins.next?_eq {little legacy : Row} (h : little.Twins legacy) :
    legacy.next? = little.next? := by
  rw [next?, next?, h.addr, h.bytes]

theorem Row.twins_ofByte (addr : UInt32) (raw : UInt8) :
    (ofByte addr raw).Twins (ofByte addr raw) := by
  constructor <;> simp [ofByte]

theorem Instruction.operands_mapWord_ne_iff (f : UInt32 → UInt32) (i : Instruction) :
    i.operands ≠ (i.mapWord f).operands ↔ i ≠ i.mapWord f := by
  refine not_congr ⟨eq_of_operands (i.opcode_mapWord f).symm, fun h => ?_⟩
  rw [← h]

/-- The mnemonics of the operations that take a 32-bit immediate. -/
theorem Instruction.takesWord_iff_mnemonic (i : Instruction) :
    (i.opcode = .jez ∨ i.opcode = .jnz ∨ i.opcode = .mvi32) ↔
      (i.mnemonic = "JEZ" ∨ i.mnemonic = "JNZ" ∨ i.mnemonic = "MVI32") := by
  cases i <;> simp [opcode, mnemonic, Opcode.mnemonic]

theorem Instruction.length_of_takesWord {i : Instruction}
    (h : i.opcode = .jez ∨ i.opcode = .jnz ∨ i.opcode = .mvi32) : i.length.toNat = 5 := by
  rw [length]
  rcases h with h | h | h <;> rw [h] <;> rfl

namespace Memory

variable {memory : Memory} {addr start : UInt32} {i : Instruction} {little : Row}

theorem getElem?_slice {addr length k : Nat} (h : k < length) :
    (memory.slice addr length)[k]? = memory.bytes[addr + k]? := by
  rw [slice, Array.toList_extract, List.extract_eq_take_drop, Nat.add_sub_cancel_left,
    List.getElem?_take_of_lt h, List.getElem?_drop, Array.getElem?_toList]

theorem instruction_legacy (hi : memory.instruction .littleEndian addr = .ok i) :
    memory.instruction .legacyDuplicatedHighByte addr = .ok (i.mapWord Word.repeatHighByte) := by
  rw [instruction_eq_map, hi]
  rfl

theorem layoutsPart_iff_bytes (hi : memory.instruction .littleEndian addr = .ok i) :
    memory.LayoutsPart addr ↔ (i.opcode = .jez ∨ i.opcode = .jnz ∨ i.opcode = .mvi32) ∧
      (memory.slice addr.toNat i.length.toNat)[3]? ≠
        (memory.slice addr.toNat i.length.toNat)[4]? := by
  simp only [LayoutsPart, hi, Except.ok.injEq, exists_eq_left']
  refine and_congr_right fun htakes => ?_
  have hlength := Instruction.length_of_takesWord htakes
  rw [getElem?_slice (by omega), getElem?_slice (by omega)]

/-- The rows of an instruction in the two layouts. -/
theorem twins_ofInstruction (hi : memory.instruction .littleEndian addr = .ok i) :
    let legacy := i.mapWord Word.repeatHighByte
    (Row.ofInstruction addr (memory.slice addr.toNat i.length.toNat) i).Twins
      (Row.ofInstruction addr (memory.slice addr.toNat legacy.length.toNat) legacy) := by
  intro legacy
  have hopcode : legacy.opcode = i.opcode := i.opcode_mapWord Word.repeatHighByte
  have hpart : i ≠ legacy ↔ memory.LayoutsPart addr := by
    rw [layoutsPart_iff, hi, instruction_legacy hi, Ne, Ne, Except.ok.injEq]
  constructor
  case addr => rfl
  case bytes => exact congrArg (fun o => memory.slice addr.toNat o.length.toNat) hopcode
  case mnemonic => exact congrArg Opcode.mnemonic hopcode
  case illegal => rfl
  case operands =>
    show i.operands ≠ legacy.operands ↔ false = false ∧ _ ∧ _
    rw [Instruction.operands_mapWord_ne_iff, hpart, layoutsPart_iff_bytes hi,
      i.takesWord_iff_mnemonic]
    exact (and_iff_right rfl).symm

/-- Where there is a row in one layout, there is its twin in the other. -/
theorem row?_twins (h : memory.row? .littleEndian addr = some little) :
    ∃ legacy, memory.row? .legacyDuplicatedHighByte addr = some legacy ∧ little.Twins legacy := by
  obtain ⟨raw, hraw⟩ := exists_getElem?_of_lt (lt_size_of_row? h)
  rcases hi : memory.instruction .littleEndian addr with fault | i
  · have hlegacy : memory.instruction .legacyDuplicatedHighByte addr = .error fault := by
      rw [instruction_eq_map, hi]
      rfl
    rw [row?_of_error hraw hi] at h
    cases h
    exact ⟨_, row?_of_error hraw hlegacy, Row.twins_ofByte addr raw⟩
  · rw [row?_of_ok hi] at h
    cases h
    exact ⟨_, row?_of_ok (instruction_legacy hi), twins_ofInstruction hi⟩

/-- Whatever the bytes are, the two layouts list as many rows. Each row has the same address, bytes
and mnemonic in both and is illegal in both or in neither. Its operands differ exactly for a legal
`JEZ`, `JNZ` or `MVI32` with different bytes in the fourth and the fifth place. -/
theorem listing_layouts (memory : Memory) (start : UInt32) (count : Nat) :
    List.Forall₂ Row.Twins (memory.listing .littleEndian start count).toList
      (memory.listing .legacyDuplicatedHighByte start count).toList := by
  induction count generalizing start with
  | zero => exact .nil
  | succ count ih =>
    rw [listing_succ, listing_succ]
    rcases hlittle : memory.row? .littleEndian start with _ | little
    · rw [row?_of_ge (row?_eq_none_iff.1 hlittle)]
      exact .nil
    · obtain ⟨legacy, hlegacy, htwins⟩ := row?_twins hlittle
      simp only [hlegacy, htwins.next?_eq]
      rcases little.next? with _ | next
      · exact .cons htwins .nil
      · simpa using ⟨htwins, ih next⟩

/-- The operands of a jump alone may differ, and the rows behind it do not move. -/
example :
    let memory : Memory := ⟨#[0x21, 0x07, 0x00, 0x01, 0x02, 0x01]⟩
    let operands := fun layout => (memory.listing layout 0 6).toList.map Row.operands
    operands .littleEndian = ["0x02010007", ""] ∧
      operands .legacyDuplicatedHighByte = ["0x02020007", ""] := by decide

end Memory

end Tomtel
