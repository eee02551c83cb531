import Tomtel.Machine.Step
import Tomtel.Proofs.Decoding

/-!
# Effects of instructions

Only the memory cell at `ptr + c` can fail an instruction once it is read: `effect_eq_error_iff`.
-/

namespace Tomtel

namespace RegisterFile

/-- The address of the memory cell as a number, for it cannot wrap. -/
theorem ofNat_cellAddress (regs : RegisterFile) :
    UInt64.ofNat (regs.ptr.toNat + regs.c.toNat) = regs.cellAddress := by
  rw [← toNat_cellAddress, UInt64.ofNat_toNat]

end RegisterFile

namespace Memory

variable {memory : Memory} {addr : UInt64} {size : Nat}

theorem index_of_lt (h : addr.toNat < size) : index addr size = .ok ⟨addr.toNat, h⟩ := dif_pos h

theorem index_of_ge (h : size ≤ addr.toNat) :
    index addr size = .error (.memoryOutOfBounds addr size.toUInt64) := dif_neg (Nat.not_lt.2 h)

end Memory

/-- The fault of a memory cell at `ptr + c` that is not there. -/
def RegisterFile.cellFault (regs : RegisterFile) (memory : Memory) : Fault :=
  .memoryOutOfBounds (.ofNat (regs.ptr.toNat + regs.c.toNat)) memory.length

namespace ByteOperand

variable {operand : ByteOperand} {regs : RegisterFile} {memory : Memory} {v : UInt8} {fault : Fault}

theorem read_eq_error_iff :
    operand.read regs memory = .error fault ↔ operand = .cell ∧
      memory.size ≤ regs.ptr.toNat + regs.c.toNat ∧ fault = regs.cellFault memory := by
  cases operand with
  | register r =>
    constructor
    · intro h; cases h
    · rintro ⟨h, -⟩; cases h
  | cell =>
    rw [read, Memory.read_eq_error_iff, RegisterFile.toNat_cellAddress, RegisterFile.cellFault,
      RegisterFile.ofNat_cellAddress]
    exact ⟨fun h => ⟨rfl, h⟩, fun h => h.2⟩

theorem write_cell_of_lt (h : regs.cellAddress.toNat < memory.size) :
    write .cell v regs memory = .ok (.store regs.cellAddress v) := by
  rw [write, Memory.index_of_lt h]

theorem write_cell_of_ge (h : memory.size ≤ regs.cellAddress.toNat) :
    write .cell v regs memory = .error (regs.cellFault memory) := by
  rw [write, Memory.index_of_ge h, RegisterFile.cellFault, RegisterFile.ofNat_cellAddress]
  rfl

theorem write_eq_error_iff :
    operand.write v regs memory = .error fault ↔ operand = .cell ∧
      memory.size ≤ regs.ptr.toNat + regs.c.toNat ∧ fault = regs.cellFault memory := by
  cases operand with
  | register r =>
    constructor
    · intro h; cases h
    · rintro ⟨h, -⟩; cases h
  | cell =>
    rw [← RegisterFile.toNat_cellAddress]
    rcases Nat.lt_or_ge regs.cellAddress.toNat memory.size with hlt | hge
    · rw [write_cell_of_lt hlt]
      constructor
      · intro h; cases h
      · exact fun h => absurd hlt (Nat.not_lt.2 h.2.1)
    · rw [write_cell_of_ge hge]
      constructor
      · intro h; cases h; exact ⟨rfl, hge, rfl⟩
      · rintro ⟨-, -, rfl⟩; rfl

theorem write_cell_eq_ok {effect : Effect} (h : write .cell v regs memory = .ok effect) :
    regs.cellAddress.toNat < memory.size ∧ effect = .store regs.cellAddress v := by
  rcases Nat.lt_or_ge regs.cellAddress.toNat memory.size with hlt | hge
  · rw [write_cell_of_lt hlt] at h
    cases h
    exact ⟨hlt, rfl⟩
  · rw [write_cell_of_ge hge] at h
    cases h

theorem ne_halt_of_write {effect : Effect} (h : operand.write v regs memory = .ok effect) :
    effect ≠ .halt := by
  cases operand with
  | register r =>
    cases h
    intro he; cases he
  | cell =>
    rw [(write_cell_eq_ok h).2]
    intro he; cases he

theorem lt_size_of_write {w : UInt8} {addr : UInt64}
    (h : operand.write v regs memory = .ok (.store addr w)) : addr.toNat < memory.size := by
  cases operand with
  | register r => cases h
  | cell =>
    obtain ⟨hlt, he⟩ := write_cell_eq_ok h
    cases he
    exact hlt

end ByteOperand

namespace Instruction

variable {i : Instruction} {regs : RegisterFile} {memory : Memory} {fault : Fault}

def UsesCell : Instruction → Prop
  | .mv dest src => dest = .cell ∨ src = .cell
  | .mvi dest _ => dest = .cell
  | _ => False

/-- An instruction fails if it uses the memory cell and there is none, and only then. -/
theorem effect_eq_error_iff :
    i.effect regs memory = .error fault ↔ i.UsesCell ∧
      memory.size ≤ regs.ptr.toNat + regs.c.toNat ∧ fault = regs.cellFault memory := by
  cases i with
  | mv dest src =>
    rw [effect, UsesCell]
    cases hr : src.read regs memory with
    | error fault' =>
      obtain ⟨hs, hsize, hf⟩ := ByteOperand.read_eq_error_iff.1 hr
      rw [Except.error.injEq, hf]
      exact ⟨fun h => ⟨.inr hs, hsize, h.symm⟩, fun h => h.2.2.symm⟩
    | ok v =>
      rw [ByteOperand.write_eq_error_iff]
      constructor
      · exact fun h => ⟨.inl h.1, h.2⟩
      · rintro ⟨hd | hs, hsize, hf⟩
        · exact ⟨hd, hsize, hf⟩
        · rw [ByteOperand.read_eq_error_iff.2 ⟨hs, hsize, rfl⟩] at hr; cases hr
  | mvi dest imm => exact ByteOperand.write_eq_error_iff
  | _ =>
    constructor
    · intro h; cases h
    · rintro ⟨h, -⟩; exact h.elim

/-- Stores are inside memory. -/
theorem lt_size_of_effect {addr : UInt64} {v : UInt8}
    (h : i.effect regs memory = .ok (.store addr v)) : addr.toNat < memory.size := by
  cases i with
  | mv dest src =>
    rw [effect] at h
    cases hr : src.read regs memory with
    | error fault => rw [hr] at h; cases h
    | ok w =>
      rw [hr] at h
      exact ByteOperand.lt_size_of_write h
  | mvi dest imm => exact ByteOperand.lt_size_of_write h
  | jez target =>
    rw [effect] at h
    split_ifs at h <;> cases h
  | jnz target =>
    rw [effect] at h
    split_ifs at h <;> cases h
  | _ => cases h

end Instruction

end Tomtel
