import Tomtel.Listing
import Tomtel.Proofs.Conformance
import Tomtel.Proofs.FaultCause
import Tomtel.Proofs.Reading

/-!
# Rows and steps

The row at `pc` and the step from there read the same bytes. There is no row where the fetch fails,
an illegal row where the bytes are no instruction, and otherwise the row shows the instruction that
the step executes: `step_agrees_with_row`.
-/

namespace Tomtel

/-! ### The row at an address -/

namespace Row

/-- The row of a byte that starts no instruction. -/
def IsIllegalByte (row : Row) : Prop :=
  row.illegal = true ∧ row.mnemonic = ".byte" ∧ row.bytes.length = 1

theorem isIllegalByte_ofByte (addr : UInt32) (raw : UInt8) : (ofByte addr raw).IsIllegalByte :=
  ⟨rfl, rfl, rfl⟩

theorem not_isIllegalByte_ofInstruction (addr : UInt32) (bytes : List UInt8) (i : Instruction) :
    ¬ (ofInstruction addr bytes i).IsIllegalByte := by
  rintro ⟨h, -⟩
  cases h

end Row

namespace Memory

variable {memory : Memory} {layout : ImmediateLayout} {addr : UInt32} {raw : UInt8}
  {i : Instruction} {fault : Fault} {row : Row}

theorem row?_of_ge (h : memory.size ≤ addr.toNat) : memory.row? layout addr = none := by
  rw [row?, read_of_ge (by rw [UInt32.toNat_toUInt64]; exact h)]

theorem row?_of_error (hb : memory.bytes[addr.toNat]? = some raw)
    (hi : memory.instruction layout addr = .error fault) :
    memory.row? layout addr = some (Row.ofByte addr raw) := by
  rw [row?, read_of_getElem? (UInt32.toNat_toUInt64 addr) hb]
  simp only [hi]

theorem row?_of_ok (hi : memory.instruction layout addr = .ok i) :
    memory.row? layout addr =
      some (Row.ofInstruction addr (memory.slice addr.toNat i.length.toNat) i) := by
  obtain ⟨d, hd, -⟩ := exists_decode_of_instruction hi
  have hb := (getElem?_of_decode hd).1
  rw [row?, read_of_getElem? (UInt32.toNat_toUInt64 addr) hb]
  simp only [hi]
  rfl

theorem row?_eq_none_iff : memory.row? layout addr = none ↔ memory.size ≤ addr.toNat := by
  constructor
  · intro h
    refine Nat.le_of_not_lt fun hlt => ?_
    obtain ⟨b, hb⟩ := exists_getElem?_of_lt hlt
    cases hi : memory.instruction layout addr with
    | error fault => rw [row?_of_error hb hi] at h; cases h
    | ok i => rw [row?_of_ok hi] at h; cases h
  · exact row?_of_ge

theorem lt_size_of_row? (h : memory.row? layout addr = some row) : addr.toNat < memory.size := by
  refine Nat.lt_of_not_le fun hge => ?_
  rw [row?_of_ge hge] at h
  cases h

/-- A row is illegal if no instruction can be read from the bytes there. -/
theorem exists_isIllegalByte_iff : (∃ row, memory.row? layout addr = some row ∧ row.IsIllegalByte) ↔
    addr.toNat < memory.size ∧ ∃ fault, memory.instruction layout addr = .error fault := by
  constructor
  · rintro ⟨row, hrow, hill⟩
    refine ⟨lt_size_of_row? hrow, ?_⟩
    cases hi : memory.instruction layout addr with
    | error fault => exact ⟨fault, rfl⟩
    | ok i =>
      rw [row?_of_ok hi] at hrow
      cases hrow
      exact (Row.not_isIllegalByte_ofInstruction _ _ _ hill).elim
  · rintro ⟨hlt, fault, hi⟩
    obtain ⟨b, hb⟩ := exists_getElem?_of_lt hlt
    exact ⟨_, row?_of_error hb hi, Row.isIllegalByte_ofByte ..⟩

theorem exists_instruction_of_row? (hrow : memory.row? layout addr = some row)
    (hlegal : ¬ row.IsIllegalByte) : ∃ i, memory.instruction layout addr = .ok i ∧
      row = Row.ofInstruction addr (memory.slice addr.toNat i.length.toNat) i := by
  obtain ⟨b, hb⟩ := exists_getElem?_of_lt (lt_size_of_row? hrow)
  cases hi : memory.instruction layout addr with
  | error fault =>
    rw [row?_of_error hb hi] at hrow
    cases hrow
    exact absurd (Row.isIllegalByte_ofByte ..) hlegal
  | ok i =>
    rw [row?_of_ok hi] at hrow
    cases hrow
    exact ⟨i, rfl, rfl⟩

theorem length_slice_of_instruction (hi : memory.instruction layout addr = .ok i) :
    (memory.slice addr.toNat i.length.toNat).length = i.length.toNat := by
  have hle := add_length_le_of_instruction hi
  rw [slice, Array.length_toList, Array.size_extract]
  exact (congrArg (· - _) (Nat.min_eq_left hle)).trans (Nat.add_sub_cancel_left ..)

/-! ### Faults of bytes that are no instruction -/

/-- The fault says that the bytes at `addr` are no instruction. -/
inductive IllegalFault (memory : Memory) (addr : UInt32) : Fault → Prop
  | opcode (addr' : UInt32) (byte : UInt8) :
      IllegalFault memory addr (.unsupportedOpcode addr' byte)
  | register (family : RegisterFamily) (selector : UInt8) :
      IllegalFault memory addr (.registerOutOfBounds family selector)
  /-- The immediate is not all in memory. -/
  | immediate {fault : Fault} (h : memory.ReadFault addr 5 fault) : IllegalFault memory addr fault

theorem illegalFault_of_instruction_eq_error (hsize : memory.size < 2 ^ 32)
    (hlt : addr.toNat < memory.size) (hi : memory.instruction layout addr = .error fault) :
    memory.IllegalFault addr fault := by
  obtain ⟨rank, h, -⟩ := (instruction_eq_error_iff hsize).1 hi
  cases h with
  | fetch h => exact absurd hlt (Nat.not_lt.2 h)
  | opcode => exact .opcode _ _
  | byteDest => exact .register _ _
  | wideDest => exact .register _ _
  | wideSrc => exact .register _ _
  | byteImmediate hb himm h => exact .immediate (.byteImmediate hb himm h)
  | wordImmediate hb himm h => exact .immediate (.wordImmediate hb himm h)

theorem ReadFault.lt_size {rank : Nat} (h : memory.ReadFault addr rank fault) (hrank : rank ≠ 1) :
    addr.toNat < memory.size := by
  cases h with
  | fetch h => exact absurd rfl hrank
  | opcode hb | byteDest hb | wideDest hb | wideSrc hb | byteImmediate hb | wordImmediate hb =>
    exact lt_size_of_getElem? hb

theorem lt_size_of_illegalFault (hi : memory.instruction layout addr = .error fault)
    (h : memory.IllegalFault addr fault) : addr.toNat < memory.size := by
  refine Nat.lt_of_not_le fun hge => ?_
  have hfetch : memory.instruction layout addr =
      .error (.memoryOutOfBounds addr.toUInt64 memory.length) :=
    instruction_of_decode_eq_error (decode_of_ge hge)
  rw [hi, Except.error.injEq] at hfetch
  cases h with
  | opcode => cases hfetch
  | register => cases hfetch
  | immediate h => exact Nat.not_lt.2 hge (h.lt_size (by decide))

theorem not_readFault_of_instruction (hsize : memory.size < 2 ^ 32)
    (hi : memory.instruction layout addr = .ok i) (rank : Nat) :
    ¬ memory.ReadFault addr rank fault := by
  intro h
  obtain ⟨first, hfirst⟩ := exists_firstFault ⟨rank, fault, h⟩
  rw [(instruction_eq_error_iff hsize).2 hfirst] at hi
  cases hi

end Memory

/-! ### The text of an instruction -/

theorem Instruction.mnemonic_eq_halt_iff (i : Instruction) : i.mnemonic = "HALT" ↔ i = .halt := by
  cases i <;> simp [mnemonic, opcode, Opcode.mnemonic]

theorem Hex.exists_digitChar_of_mem {width n : Nat} {c : Char} (h : c ∈ Hex.digits width n) :
    ∃ k < 16, c = Nat.digitChar k := by
  induction width generalizing n with
  | zero => cases h
  | succ width ih =>
    rcases List.mem_append.1 h with h | h
    · exact ih h
    · exact ⟨n % 16, Nat.mod_lt _ (by decide), List.mem_singleton.1 h⟩

theorem Hex.paren_notMem_digits (width n : Nat) : '(' ∉ Hex.digits width n := by
  intro h
  obtain ⟨k, hk, he⟩ := Hex.exists_digitChar_of_mem h
  have hdigit : ∀ k < 16, '(' ≠ Nat.digitChar k := by decide
  exact hdigit k hk he

theorem Hex.newline_notMem_digits (width n : Nat) : '\n' ∉ Hex.digits width n := by
  intro h
  obtain ⟨d, hd, he⟩ := Hex.exists_digitChar_of_mem h
  have hdigit : ∀ d < 16, '\n' ≠ Nat.digitChar d := by decide
  exact hdigit d hd he

theorem ByteOperand.paren_mem_name_iff (operand : ByteOperand) :
    '(' ∈ operand.name.toList ↔ operand = .cell := by
  rcases operand with r | _
  · cases r <;> decide
  · decide

theorem WideRegister.paren_notMem_name (r : WideRegister) : '(' ∉ r.name.toList := by
  cases r <;> decide

theorem Instruction.paren_mem_operands_iff (i : Instruction) :
    '(' ∈ i.operands.toList ↔ i.UsesCell := by
  have hdigits := Hex.paren_notMem_digits
  cases i with
  | mv dest src => simp [operands, UsesCell, ByteOperand.paren_mem_name_iff]
  | mvi dest imm =>
    simp [operands, UsesCell, ByteOperand.paren_mem_name_iff, Hex.byte, Hex.padded, hdigits]
  | mv32 dest src => simp [operands, UsesCell, WideRegister.paren_notMem_name]
  | mvi32 dest imm =>
    simp [operands, UsesCell, WideRegister.paren_notMem_name, Hex.word, Hex.padded, hdigits]
  | aptr imm => simp [operands, UsesCell, Hex.byte, Hex.padded, hdigits]
  | jez target => simp [operands, UsesCell, Hex.word, Hex.padded, hdigits]
  | jnz target => simp [operands, UsesCell, Hex.word, Hex.padded, hdigits]
  | _ => simp [operands, UsesCell]

theorem Instruction.cell_infix_operands_iff (i : Instruction) :
    "(ptr+c)".toList <:+: i.operands.toList ↔ i.UsesCell := by
  constructor
  · intro h
    exact i.paren_mem_operands_iff.1 (h.subset (by decide))
  · intro h
    cases i with
    | mv dest src =>
      rcases h with rfl | rfl
      · exact ⟨[], (" <- " ++ src.name).toList, by simp [operands, ByteOperand.name]⟩
      · exact ⟨(dest.name ++ " <- ").toList, [], by simp [operands, ByteOperand.name]⟩
    | mvi dest imm =>
      obtain rfl : dest = .cell := h
      exact ⟨[], (" <- 0x" ++ Hex.byte imm).toList, by simp [operands, ByteOperand.name]⟩
    | _ => exact h.elim

/-! ### The step at a row -/

namespace Machine

variable {m : Machine} {i : Instruction} {fault : Fault}

theorem upcoming_error_iff_firstFault (hsize : m.memory.size < 2 ^ 32) :
    m.upcoming = .error fault ↔ FirstFault m.FaultCause fault :=
  error_iff_firstFault (fun _ _ h hfirst => h.upcoming_eq hsize hfirst) (exists_upcoming hsize) fault

/-- No fault but that of the fetch names `pc`. -/
theorem step_error_fetch_iff (hm : m.state = .running) (hsize : m.memory.size < 2 ^ 32) :
    m.step.outcome = .error (.memoryOutOfBounds m.pc.toUInt64 m.memory.length) ↔
      m.memory.size ≤ m.pc.toNat := by
  rw [step_error_iff hm]
  constructor
  · intro h
    obtain ⟨rank, hcause, -⟩ := (upcoming_error_iff_firstFault hsize).1 h
    have hge := (hcause.bearsOut hsize).2
    rwa [UInt32.toNat_toUInt64] at hge
  · intro h
    exact upcoming_of_instruction_error
      (Memory.instruction_of_decode_eq_error (Memory.decode_of_ge h))

theorem step_error_illegal_iff (hm : m.state = .running) (hsize : m.memory.size < 2 ^ 32) :
    (∃ fault, m.step.outcome = .error fault ∧ m.memory.IllegalFault m.pc fault) ↔
      m.pc.toNat < m.memory.size ∧
        ∃ fault, m.memory.instruction m.config.layout m.pc = .error fault := by
  constructor
  · rintro ⟨fault, hstep, hill⟩
    rcases upcoming_eq_error_iff.1 ((step_error_iff hm).1 hstep) with hi | ⟨i, hi, he⟩
    · exact ⟨Memory.lt_size_of_illegalFault hi hill, fault, hi⟩
    · -- the instruction was read, so only its memory cell can be missing
      obtain ⟨-, -, rfl⟩ := Instruction.effect_eq_error_iff.1 he
      cases hill with
      | immediate h => exact absurd h (Memory.not_readFault_of_instruction hsize hi 5)
  · rintro ⟨hlt, fault, hi⟩
    exact ⟨fault, (step_error_iff hm).2 (upcoming_of_instruction_error hi),
      Memory.illegalFault_of_instruction_eq_error hsize hlt hi⟩

theorem step_error_of_instruction_iff (hm : m.state = .running)
    (hi : m.memory.instruction m.config.layout m.pc = .ok i) :
    m.step.outcome = .error fault ↔ i.UsesCell ∧
      m.memory.size ≤ m.regs.ptr.toNat + m.regs.c.toNat ∧ fault = m.regs.cellFault m.memory := by
  have hregs : i.effect (m.past i).regs m.memory = .error fault ↔ i.UsesCell ∧
      m.memory.size ≤ m.regs.ptr.toNat + m.regs.c.toNat ∧ fault = m.regs.cellFault m.memory :=
    Instruction.effect_eq_error_iff
  rw [step_error_iff hm, upcoming_eq_error_iff, ← hregs]
  constructor
  · rintro (h | ⟨j, hj, he⟩)
    · rw [hi] at h; cases h
    · rw [hi] at hj; cases hj
      exact he
  · exact fun he => .inr ⟨i, hi, he⟩

theorem step_ok_of_instruction {outcome : StepOutcome} (hm : m.state = .running)
    (hi : m.memory.instruction m.config.layout m.pc = .ok i) (h : m.step.outcome = .ok outcome) :
    outcome = if i = .halt then .halted else .retired i.length := by
  obtain ⟨j, effect, hu, rfl⟩ := (step_ok_iff hm).1 h
  obtain ⟨hj, he⟩ := upcoming_eq_ok_iff.1 hu
  rw [hi] at hj
  cases hj
  exact outcome_of_effect he

theorem executing_mem_entries (hm : m.state = .running)
    (hi : m.memory.instruction m.config.layout m.pc = .ok i) :
    .message (.executing m.pc i) ∈ m.step.entries := by
  have hmem : .message (.executing m.pc i) ∈ m.announcement := by
    rw [announcement, hi]
    exact List.mem_append_right _ (List.mem_singleton_self _)
  cases h : m.upcoming with
  | error fault =>
    rw [step_of_upcoming_error hm h]
    exact List.mem_append_left _ hmem
  | ok next =>
    rw [step_of_upcoming_ok hm h]
    exact List.mem_append_left _ hmem

/-- The row at `pc` tells how the step from there ends. There is no row exactly if the fetch faults,
and an illegal one exactly if the bytes are no instruction. Any other row has the text of the
instruction that is executed: the step halts exactly if it is a `HALT`, it retires as many bytes as
the row has, or it faults, exactly if the row names `(ptr+c)` and there is no memory there. -/
theorem step_agrees_with_row (hm : m.state = .running) (hsize : m.memory.size < 2 ^ 32) :
    (m.memory.row? m.config.layout m.pc = none ↔
      m.step.outcome = .error (.memoryOutOfBounds m.pc.toUInt64 m.memory.length)) ∧
    ((∃ row, m.memory.row? m.config.layout m.pc = some row ∧ row.IsIllegalByte) ↔
      ∃ fault, m.step.outcome = .error fault ∧ m.memory.IllegalFault m.pc fault) ∧
    ∀ row, m.memory.row? m.config.layout m.pc = some row → ¬ row.IsIllegalByte →
      row.illegal = false ∧
      (∃ i, m.memory.instruction m.config.layout m.pc = .ok i ∧
        .message (.executing m.pc i) ∈ m.step.entries ∧
        i.text = if row.operands = "" then row.mnemonic else row.mnemonic ++ " " ++ row.operands) ∧
      (m.step.outcome = .ok .halted ↔ row.mnemonic = "HALT") ∧
      (∀ outcome, m.step.outcome = .ok outcome →
        outcome = .halted ∨ ∃ length, outcome = .retired length ∧ length.toNat = row.bytes.length) ∧
      ∀ fault, m.step.outcome = .error fault ↔
        "(ptr+c)".toList <:+: row.operands.toList ∧
        m.memory.size ≤ m.regs.ptr.toNat + m.regs.c.toNat ∧
        fault = .memoryOutOfBounds (.ofNat (m.regs.ptr.toNat + m.regs.c.toNat)) m.memory.length := by
  refine ⟨Memory.row?_eq_none_iff.trans (step_error_fetch_iff hm hsize).symm,
    Memory.exists_isIllegalByte_iff.trans (step_error_illegal_iff hm hsize).symm, ?_⟩
  intro row hrow hlegal
  obtain ⟨i, hi, rfl⟩ := Memory.exists_instruction_of_row? hrow hlegal
  have hlen := Memory.length_slice_of_instruction hi
  refine ⟨rfl, ⟨i, hi, executing_mem_entries hm hi, rfl⟩, ?_, ?_, ?_⟩
  · constructor
    · intro h
      refine i.mnemonic_eq_halt_iff.2 (Decidable.byContradiction fun hne => ?_)
      have ho := step_ok_of_instruction hm hi h
      rw [if_neg hne] at ho
      cases ho
    · intro h
      obtain rfl : i = .halt := i.mnemonic_eq_halt_iff.1 h
      cases ho : m.step.outcome with
      | error fault => exact ((step_error_of_instruction_iff hm hi).1 ho).1.elim
      | ok outcome => rw [step_ok_of_instruction hm hi ho, if_pos rfl]
  · intro outcome h
    rw [step_ok_of_instruction hm hi h]
    split_ifs with hh
    · exact .inl rfl
    · exact .inr ⟨i.length, rfl, hlen.symm⟩
  · intro fault
    rw [step_error_of_instruction_iff hm hi]
    exact and_congr_left fun _ => i.cell_infix_operands_iff.symm

/-- `MVI (ptr+c) <- 0x05`, all in memory, with `ptr + c` outside. -/
def storeOutside : Machine where
  regs := { c := 1, ptr := 10 }
  memory := ⟨#[0x78, 5]⟩

def storeOutsideRow : Row := ⟨0, [0x78, 5], "MVI", "(ptr+c) <- 0x05", false⟩

theorem step_agrees_with_row_storeOutside :
    storeOutside.state = .running ∧ storeOutside.memory.size < 2 ^ 32 ∧
      storeOutside.memory.row? storeOutside.config.layout storeOutside.pc = some storeOutsideRow ∧
      ¬ storeOutsideRow.IsIllegalByte ∧
      storeOutside.step.outcome = .error (.memoryOutOfBounds 11 2) ∧
      "(ptr+c)".toList <:+: storeOutsideRow.operands.toList ∧
      storeOutside.memory.size ≤ storeOutside.regs.ptr.toNat + storeOutside.regs.c.toNat := by
  have hrow : storeOutside.memory.row? storeOutside.config.layout storeOutside.pc =
      some storeOutsideRow := by decide
  have hlegal : ¬ storeOutsideRow.IsIllegalByte := fun h => Bool.false_ne_true h.1
  obtain ⟨-, -, hlegalRow⟩ := step_agrees_with_row (m := storeOutside) rfl (by decide)
  obtain ⟨-, -, -, -, hfault⟩ := hlegalRow _ hrow hlegal
  have hstep : storeOutside.step.outcome = .error (.memoryOutOfBounds 11 2) := rfl
  obtain ⟨hmention, hsize, -⟩ := (hfault _).1 hstep
  exact ⟨rfl, by decide, hrow, hlegal, hstep, hmention, hsize⟩

end Machine

end Tomtel
