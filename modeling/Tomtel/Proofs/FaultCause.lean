import Mathlib.Data.Nat.Find
import Tomtel.Proofs.Effects
import Tomtel.Proofs.Stepping

/-!
# Which fault a step meets

A step can fail for six reasons, and reports the first that applies: the fetch, the opcode, the
destination selector, the source selector, the immediate and the memory cell. `Memory.ReadFault` and
`Machine.FaultCause` say when each applies on its own, in terms of the bytes of memory and of the
registers; `step_fault_iff` says that the machine decides by them.
-/

namespace Tomtel

/-- The first in rank of the faults that apply. -/
def FirstFault (cause : Nat → Fault → Prop) (fault : Fault) : Prop :=
  ∃ rank, cause rank fault ∧ ∀ earlier < rank, ∀ other, ¬ cause earlier other

theorem exists_firstFault {cause : Nat → Fault → Prop} (h : ∃ rank fault, cause rank fault) :
    ∃ fault, FirstFault cause fault := by
  classical
  obtain ⟨fault, hfault⟩ := Nat.find_spec h
  exact ⟨fault, _, hfault, fun earlier hlt other hother => Nat.find_min h hlt ⟨other, hother⟩⟩

/-- A result is the first fault that applies if each fault shows once no earlier one applies, and
there is no fault where none applies. -/
theorem error_iff_firstFault {α : Type} {cause : Nat → Fault → Prop} {result : Except Fault α}
    (hfault : ∀ rank fault, cause rank fault →
      (∀ earlier < rank, ∀ other, ¬ cause earlier other) → result = .error fault)
    (hok : (∀ rank fault, ¬ cause rank fault) → ∃ v, result = .ok v) (fault : Fault) :
    result = .error fault ↔ FirstFault cause fault := by
  constructor
  · intro h
    by_cases hex : ∃ rank fault, cause rank fault
    · obtain ⟨first, rank, hc, hleast⟩ := exists_firstFault hex
      have hr := hfault rank first hc hleast
      rw [h] at hr; cases hr
      exact ⟨rank, hc, hleast⟩
    · obtain ⟨v, hv⟩ := hok fun rank fault hc => hex ⟨rank, fault, hc⟩
      rw [h] at hv; cases hv
  · rintro ⟨rank, hc, hleast⟩
    exact hfault rank fault hc hleast

/-! ### Reading an instruction -/

namespace Opcode

/-- The operation that the byte starts has a one-byte immediate. -/
def TakesByte (b : UInt8) : Prop := b = 0xe1 ∨ IsByteMove b ∧ srcSelector b = 0

/-- The operation that the byte starts has a four-byte immediate. -/
def TakesWord (b : UInt8) : Prop := b = 0x21 ∨ b = 0x22 ∨ IsWideMove b ∧ srcSelector b = 0

/-- The operation that the byte starts reads or writes the memory cell at `ptr + c`. -/
def UsesCell (b : UInt8) : Prop := IsByteMove b ∧ (destSelector b = 7 ∨ srcSelector b = 7)

end Opcode

open Opcode

/-- Why the instruction at `addr` cannot be read, with the rank of the reason. -/
inductive Memory.ReadFault (memory : Memory) (addr : UInt32) : Nat → Fault → Prop
  /-- `addr` is outside memory. -/
  | fetch (h : memory.size ≤ addr.toNat) :
      ReadFault memory addr 1 (.memoryOutOfBounds addr.toUInt64 memory.length)
  /-- The byte is neither a move nor in the fixed table. -/
  | opcode {b : UInt8} (hb : memory.bytes[addr.toNat]? = some b) (hm : ¬ IsByteMove b)
      (hw : ¬ IsWideMove b) (ht : b ∉ fixedBytes) :
      ReadFault memory addr 2 (.unsupportedOpcode addr b)
  /-- The destination of a byte move names no byte operand. -/
  | byteDest {b : UInt8} (hb : memory.bytes[addr.toNat]? = some b) (hm : IsByteMove b)
      (hs : destSelector b = 0) : ReadFault memory addr 3 (.registerOutOfBounds .byte 0)
  /-- The destination of a wide move names no wide register. -/
  | wideDest {b : UInt8} (hb : memory.bytes[addr.toNat]? = some b) (hw : IsWideMove b)
      (hs : destSelector b = 0 ∨ destSelector b = 7) :
      ReadFault memory addr 3 (.registerOutOfBounds .wide (destSelector b))
  /-- The source of a wide move names no wide register; a zero source is no register at all. -/
  | wideSrc {b : UInt8} (hb : memory.bytes[addr.toNat]? = some b) (hw : IsWideMove b)
      (hs : srcSelector b = 7) : ReadFault memory addr 4 (.registerOutOfBounds .wide 7)
  /-- The one byte of immediate is outside memory. -/
  | byteImmediate {b : UInt8} (hb : memory.bytes[addr.toNat]? = some b) (hi : TakesByte b)
      (h : memory.size ≤ addr.toNat + 1) :
      ReadFault memory addr 5 (.memoryOutOfBounds (.ofNat (addr.toNat + 1)) memory.length)
  /-- The last of four bytes of immediate is outside memory. -/
  | wordImmediate {b : UInt8} (hb : memory.bytes[addr.toNat]? = some b) (hi : TakesWord b)
      (h : memory.size ≤ addr.toNat + 4) :
      ReadFault memory addr 5 (.memoryOutOfBounds (.ofNat (addr.toNat + 4)) memory.length)

namespace Memory

variable {memory : Memory} {layout : ImmediateLayout} {addr : UInt32} {b : UInt8}

/-- What is left of an instruction with a one-byte immediate, its destination looked up. -/
theorem instruction_of_takesByte (layout : ImmediateLayout)
    (hb : memory.bytes[addr.toNat]? = some b) (hi : TakesByte b)
    (hdest : IsByteMove b → destSelector b ≠ 0) :
    ∃ (d : Decoded) (make : UInt8 → Instruction), d.addr = addr ∧
      memory.instruction layout addr = d.byteImmediate memory >>= fun imm => .ok (make imm) := by
  rcases hi with rfl | ⟨hm, hs⟩
  · exact ⟨⟨addr, 0xe1, .aptr, 0, 0⟩, .aptr, rfl, instruction_of_opcode hb rfl⟩
  · obtain ⟨dest, hd⟩ := ByteOperand.exists_select (destSelector_le b) (hdest hm)
    refine ⟨⟨addr, b, .mvi, destSelector b, 0⟩, .mvi dest, rfl, ?_⟩
    rw [instruction_of_isByteMove hb hm, hd, hs]
    rfl

/-- What is left of an instruction with a four-byte immediate, its destination looked up. -/
theorem instruction_of_takesWord (layout : ImmediateLayout)
    (hb : memory.bytes[addr.toNat]? = some b) (hi : TakesWord b)
    (hdest : IsWideMove b → destSelector b ≠ 0 ∧ destSelector b ≠ 7) :
    ∃ (d : Decoded) (make : UInt32 → Instruction), d.addr = addr ∧
      memory.instruction layout addr =
        d.wordImmediate memory layout >>= fun imm => .ok (make imm) := by
  rcases hi with rfl | rfl | ⟨hw, hs⟩
  · exact ⟨⟨addr, 0x21, .jez, 0, 0⟩, .jez, rfl, instruction_of_opcode hb rfl⟩
  · exact ⟨⟨addr, 0x22, .jnz, 0, 0⟩, .jnz, rfl, instruction_of_opcode hb rfl⟩
  · obtain ⟨h₀, h₇⟩ := hdest hw
    obtain ⟨dest, hd⟩ := WideRegister.exists_select (destSelector_le b) h₀ h₇
    refine ⟨⟨addr, b, .mvi32, destSelector b, 0⟩, .mvi32 dest, rfl, ?_⟩
    rw [instruction_of_isWideMove hb hw, hd, hs]
    rfl

theorem ReadFault.instruction_eq {rank : Nat} {fault : Fault} (hsize : memory.size < 2 ^ 32)
    (h : memory.ReadFault addr rank fault)
    (hfirst : ∀ earlier < rank, ∀ other, ¬ memory.ReadFault addr earlier other) :
    memory.instruction layout addr = .error fault := by
  cases h with
  | fetch h => exact instruction_of_decode_eq_error (decode_of_ge h)
  | opcode hb hm hw ht => exact instruction_of_not_opcode hb (ofByte?_eq_none hm hw ht)
  | byteDest hb hm hs =>
    rw [instruction_of_isByteMove hb hm, hs]
    rfl
  | wideDest hb hw hs =>
    rw [instruction_of_isWideMove hb hw]
    rcases hs with hs | hs <;> rw [hs] <;> rfl
  | @wideSrc b hb hw hs =>
    have h₀ : destSelector b ≠ 0 := fun h => hfirst 3 (by decide) _ (.wideDest hb hw (.inl h))
    have h₇ : destSelector b ≠ 7 := fun h => hfirst 3 (by decide) _ (.wideDest hb hw (.inr h))
    obtain ⟨dest, hd⟩ := WideRegister.exists_select (destSelector_le b) h₀ h₇
    rw [instruction_of_isWideMove hb hw, hd, hs]
    rfl
  | byteImmediate hb hi h =>
    obtain ⟨d, make, rfl, he⟩ := instruction_of_takesByte layout hb hi fun hm h₀ =>
      hfirst 3 (by decide) _ (.byteDest hb hm h₀)
    rw [he, Decoded.byteImmediate_of_ge h]
    rfl
  | wordImmediate hb hi h =>
    have hlt : addr.toNat < memory.size := (Array.getElem?_eq_some_iff.1 hb).1
    obtain ⟨d, make, rfl, he⟩ := instruction_of_takesWord layout hb hi fun hw =>
      ⟨fun h₀ => hfirst 3 (by decide) _ (.wideDest hb hw (.inl h₀)),
        fun h₇ => hfirst 3 (by decide) _ (.wideDest hb hw (.inr h₇))⟩
    rw [he, Decoded.wordImmediate_of_ge (by omega) h]
    rfl

section

variable (layout) (hnone : ∀ rank fault, ¬ memory.ReadFault addr rank fault)
include hnone

theorem byteDest_ne_zero (hb : memory.bytes[addr.toNat]? = some b) (hm : IsByteMove b) :
    destSelector b ≠ 0 := fun h => hnone _ _ (.byteDest hb hm h)

theorem wideDest_ne (hb : memory.bytes[addr.toNat]? = some b) (hw : IsWideMove b) :
    destSelector b ≠ 0 ∧ destSelector b ≠ 7 :=
  ⟨fun h => hnone _ _ (.wideDest hb hw (.inl h)), fun h => hnone _ _ (.wideDest hb hw (.inr h))⟩

theorem exists_instruction_of_takesByte (hb : memory.bytes[addr.toNat]? = some b)
    (hi : TakesByte b) : ∃ i, memory.instruction layout addr = .ok i := by
  obtain ⟨d, make, rfl, he⟩ := instruction_of_takesByte layout hb hi (byteDest_ne_zero hnone hb)
  have h : d.addr.toNat + 1 < memory.bytes.size :=
    Nat.lt_of_not_le fun h => hnone _ _ (.byteImmediate hb hi h)
  rw [he, Decoded.byteImmediate_of_getElem? (Array.getElem?_eq_getElem h)]
  exact ⟨_, rfl⟩

theorem exists_instruction_of_takesWord (hsize : memory.size < 2 ^ 32)
    (hb : memory.bytes[addr.toNat]? = some b) (hi : TakesWord b) :
    ∃ i, memory.instruction layout addr = .ok i := by
  obtain ⟨d, make, rfl, he⟩ := instruction_of_takesWord layout hb hi (wideDest_ne hnone hb)
  have h : d.addr.toNat + 4 < memory.size :=
    Nat.lt_of_not_le fun h => hnone _ _ (.wordImmediate hb hi h)
  obtain ⟨v, hv⟩ := Decoded.wordImmediate_of_lt layout hsize h
  rw [he, hv]
  exact ⟨_, rfl⟩

theorem exists_instruction_of_isByteMove (hb : memory.bytes[addr.toNat]? = some b)
    (hm : IsByteMove b) (hs : srcSelector b ≠ 0) :
    ∃ i, memory.instruction layout addr = .ok i := by
  obtain ⟨dest, hd⟩ :=
    ByteOperand.exists_select (destSelector_le b) (byteDest_ne_zero hnone hb hm)
  obtain ⟨src, hsrc⟩ := ByteOperand.exists_select (srcSelector_le b) hs
  rw [instruction_of_isByteMove hb hm, hd, hsrc]
  exact ⟨.mv dest src, if_neg hs⟩

theorem exists_instruction_of_isWideMove (hb : memory.bytes[addr.toNat]? = some b)
    (hw : IsWideMove b) (hs : srcSelector b ≠ 0) :
    ∃ i, memory.instruction layout addr = .ok i := by
  obtain ⟨h₀, h₇⟩ := wideDest_ne hnone hb hw
  obtain ⟨dest, hd⟩ := WideRegister.exists_select (destSelector_le b) h₀ h₇
  obtain ⟨src, hsrc⟩ := WideRegister.exists_select (srcSelector_le b) hs
    fun h => hnone _ _ (.wideSrc hb hw h)
  rw [instruction_of_isWideMove hb hw, hd, hsrc]
  exact ⟨.mv32 dest src, if_neg hs⟩

end

theorem exists_instruction_of_mem_fixedBytes (layout : ImmediateLayout)
    (hb : memory.bytes[addr.toNat]? = some b) (ht : b ∈ fixedBytes) (hib : ¬ TakesByte b)
    (hiw : ¬ TakesWord b) : ∃ i, memory.instruction layout addr = .ok i := by
  simp only [fixedBytes, fixedTable, List.map_cons, List.map_nil, List.mem_cons, List.not_mem_nil,
    or_false] at ht
  rcases ht with rfl | rfl | rfl | rfl | rfl | rfl | rfl | rfl | rfl
  · exact ⟨_, instruction_of_opcode hb rfl⟩
  · exact absurd (.inl rfl) hib
  · exact ⟨_, instruction_of_opcode hb rfl⟩
  · exact ⟨_, instruction_of_opcode hb rfl⟩
  · exact absurd (.inl rfl) hiw
  · exact absurd (.inr (.inl rfl)) hiw
  · exact ⟨_, instruction_of_opcode hb rfl⟩
  · exact ⟨_, instruction_of_opcode hb rfl⟩
  · exact ⟨_, instruction_of_opcode hb rfl⟩

theorem exists_instruction (layout : ImmediateLayout) (hsize : memory.size < 2 ^ 32)
    (hnone : ∀ rank fault, ¬ memory.ReadFault addr rank fault) :
    ∃ i, memory.instruction layout addr = .ok i := by
  have hlt : addr.toNat < memory.bytes.size := Nat.lt_of_not_le fun h => hnone _ _ (.fetch h)
  obtain ⟨b, hb⟩ : ∃ b, memory.bytes[addr.toNat]? = some b := ⟨_, Array.getElem?_eq_getElem hlt⟩
  by_cases hib : TakesByte b
  · exact exists_instruction_of_takesByte layout hnone hb hib
  by_cases hiw : TakesWord b
  · exact exists_instruction_of_takesWord layout hnone hsize hb hiw
  by_cases hm : IsByteMove b
  · exact exists_instruction_of_isByteMove layout hnone hb hm fun hs => hib (.inr ⟨hm, hs⟩)
  by_cases hw : IsWideMove b
  · exact exists_instruction_of_isWideMove layout hnone hb hw fun hs =>
      hiw (.inr (.inr ⟨hw, hs⟩))
  have ht : b ∈ fixedBytes := Decidable.byContradiction fun ht => hnone _ _ (.opcode hb hm hw ht)
  exact exists_instruction_of_mem_fixedBytes layout hb ht hib hiw

/-- Reading an instruction fails with the first fault that applies, and only so. The layout has no
say in it. -/
theorem instruction_eq_error_iff {fault : Fault} (hsize : memory.size < 2 ^ 32) :
    memory.instruction layout addr = .error fault ↔ FirstFault (memory.ReadFault addr) fault :=
  error_iff_firstFault (fun _ _ h hfirst => h.instruction_eq hsize hfirst)
    (exists_instruction layout hsize) fault

theorem ReadFault.rank_le {rank : Nat} {fault : Fault} (h : memory.ReadFault addr rank fault) :
    rank ≤ 5 := by
  cases h <;> decide

theorem usesCell_iff {i : Instruction} (hb : memory.bytes[addr.toNat]? = some b)
    (hi : memory.instruction layout addr = .ok i) : i.UsesCell ↔ UsesCell b := by
  by_cases hm : IsByteMove b
  · rw [instruction_of_isByteMove hb hm] at hi
    obtain ⟨dest, hd, hi⟩ := bind_eq_ok.1 hi
    have hcell := ByteOperand.eq_cell_iff_of_select hd
    split_ifs at hi with hs
    · obtain ⟨imm, -, hi⟩ := bind_eq_ok.1 hi
      cases hi
      simp [Instruction.UsesCell, UsesCell, hm, hcell, hs]
    · obtain ⟨src, hsrc, hi⟩ := bind_eq_ok.1 hi
      cases hi
      simp [Instruction.UsesCell, UsesCell, hm, hcell, ByteOperand.eq_cell_iff_of_select hsrc]
  · have ho := ofByte?_of_instruction hb hi
    constructor
    · intro h
      refine absurd (isByteMove_of_ofByte? ho ?_) hm
      cases i with
      | mv dest src => exact .inl rfl
      | mvi dest imm => exact .inr rfl
      | _ => exact h.elim
    · exact fun h => absurd h.1 hm

end Memory

/-! ### Carrying an instruction out -/

namespace Machine

/-- Why the instruction at `pc` faults, with the rank of the reason. -/
inductive FaultCause (m : Machine) : Nat → Fault → Prop
  /-- It cannot be read. -/
  | read {rank : Nat} {fault : Fault} (h : m.memory.ReadFault m.pc rank fault) :
      FaultCause m rank fault
  /-- The memory cell that it reads or writes is outside memory. -/
  | cell {b : UInt8} (hb : m.memory.bytes[m.pc.toNat]? = some b) (hu : UsesCell b)
      (h : m.memory.size ≤ m.regs.ptr.toNat + m.regs.c.toNat) :
      FaultCause m 6
        (.memoryOutOfBounds (.ofNat (m.regs.ptr.toNat + m.regs.c.toNat)) m.memory.length)

variable {m : Machine} {fault : Fault}

theorem FaultCause.upcoming_eq {rank : Nat} (hsize : m.memory.size < 2 ^ 32)
    (h : m.FaultCause rank fault)
    (hfirst : ∀ earlier < rank, ∀ other, ¬ m.FaultCause earlier other) :
    m.upcoming = .error fault := by
  cases h with
  | read h =>
    exact upcoming_of_instruction_error (h.instruction_eq hsize fun earlier hlt other h =>
      hfirst earlier hlt other (.read h))
  | cell hb hu h =>
    obtain ⟨i, hi⟩ := Memory.exists_instruction m.config.layout hsize
      fun rank fault h => hfirst rank (Nat.lt_succ_of_le h.rank_le) fault (.read h)
    exact upcoming_eq_error_iff.2 (.inr ⟨i, hi, Instruction.effect_eq_error_iff.2
      ⟨(Memory.usesCell_iff hb hi).2 hu, h, rfl⟩⟩)

theorem exists_upcoming (hsize : m.memory.size < 2 ^ 32)
    (hnone : ∀ rank fault, ¬ m.FaultCause rank fault) : ∃ next, m.upcoming = .ok next := by
  obtain ⟨i, hi⟩ := Memory.exists_instruction m.config.layout hsize
    fun rank fault h => hnone rank fault (.read h)
  have hlt : m.pc.toNat < m.memory.bytes.size :=
    Nat.lt_of_not_le fun h => hnone _ _ (.read (.fetch h))
  have hb := Array.getElem?_eq_getElem hlt
  cases he : i.effect (m.past i).regs m.memory with
  | ok effect => exact ⟨(i, effect), upcoming_eq_ok_iff.2 ⟨hi, he⟩⟩
  | error fault =>
    obtain ⟨hu, h, -⟩ := Instruction.effect_eq_error_iff.1 he
    exact absurd (.cell hb ((Memory.usesCell_iff hb hi).1 hu) h) (hnone _ _)

/-- What the fault says of the machine is so. -/
def BearsOut (m : Machine) : Fault → Prop
  | .unsupportedOpcode addr byte =>
    addr = m.pc ∧ m.memory.bytes[m.pc.toNat]? = some byte ∧ ofByte? byte = none
  | .memoryOutOfBounds addr size => size.toNat = m.memory.size ∧ m.memory.size ≤ addr.toNat
  | .registerOutOfBounds .byte selector =>
    ByteOperand.ofSelector? selector = none ∧
      ∃ b, m.memory.bytes[m.pc.toNat]? = some b ∧ IsByteMove b ∧ selector = destSelector b
  | .registerOutOfBounds .wide selector =>
    WideRegister.ofSelector? selector = none ∧
      ∃ b, m.memory.bytes[m.pc.toNat]? = some b ∧ IsWideMove b ∧
        (selector = destSelector b ∨ selector = srcSelector b)

theorem bearsOut_memoryOutOfBounds {k : Nat} (hsize : m.memory.size < 2 ^ 32) (hk : k < 2 ^ 64)
    (h : m.memory.size ≤ k) : m.BearsOut (.memoryOutOfBounds (.ofNat k) m.memory.length) := by
  refine ⟨UInt64.toNat_ofNat_of_lt' (Nat.lt_trans hsize (by decide)), ?_⟩
  rw [UInt64.toNat_ofNat_of_lt' hk]
  exact h

theorem FaultCause.bearsOut {rank : Nat} (hsize : m.memory.size < 2 ^ 32)
    (h : m.FaultCause rank fault) : m.BearsOut fault := by
  have hpc := m.pc.toNat_lt
  cases h with
  | read h =>
    cases h with
    | fetch h =>
      have hsum := bearsOut_memoryOutOfBounds hsize (by omega) h
      rwa [← UInt32.toNat_toUInt64, UInt64.ofNat_toNat] at hsum
    | opcode hb hm hw ht => exact ⟨rfl, hb, ofByte?_eq_none hm hw ht⟩
    | byteDest hb hm hs => exact ⟨rfl, _, hb, hm, hs.symm⟩
    | wideDest hb hw hs =>
      refine ⟨?_, _, hb, hw, .inl rfl⟩
      rcases hs with hs | hs <;> rw [hs] <;> rfl
    | wideSrc hb hw hs => exact ⟨rfl, _, hb, hw, .inr hs.symm⟩
    | byteImmediate hb hi h => exact bearsOut_memoryOutOfBounds hsize (by omega) h
    | wordImmediate hb hi h => exact bearsOut_memoryOutOfBounds hsize (by omega) h
  | cell hb hu h =>
    have hptr := m.regs.ptr.toNat_lt
    have hc := m.regs.c.toNat_lt
    exact bearsOut_memoryOutOfBounds hsize (by omega) h

/-- A step faults with the first cause that applies; it goes through if there is none, and only
then; and what the fault says is so. -/
theorem step_fault_iff (hm : m.state = .running) (hsize : m.memory.size < 2 ^ 32) :
    (∀ fault, m.step.outcome = .error fault ↔ FirstFault m.FaultCause fault) ∧
    ((∃ outcome, m.step.outcome = .ok outcome) ↔ ∀ rank fault, ¬ m.FaultCause rank fault) ∧
    ∀ fault, m.step.outcome = .error fault → m.BearsOut fault := by
  have hfault : ∀ fault, m.step.outcome = .error fault ↔ FirstFault m.FaultCause fault := by
    intro fault
    rw [step_error_iff hm]
    exact error_iff_firstFault (fun _ _ h hfirst => h.upcoming_eq hsize hfirst)
      (exists_upcoming hsize) fault
  refine ⟨hfault, ⟨?_, fun hnone => ?_⟩, ?_⟩
  · rintro ⟨outcome, ho⟩ rank fault hc
    obtain ⟨first, hfirst⟩ := exists_firstFault ⟨rank, fault, hc⟩
    rw [(hfault first).2 hfirst] at ho
    cases ho
  · obtain ⟨⟨i, effect⟩, h⟩ := exists_upcoming hsize hnone
    exact ⟨_, (step_ok_iff hm).2 ⟨i, effect, h, rfl⟩⟩
  · intro fault h
    obtain ⟨rank, hc, -⟩ := (hfault fault).1 h
    exact hc.bearsOut hsize

/-- `MVI (ptr+c)` as the last byte of memory, with `ptr + c` outside: the immediate and the memory
cell are both missing, and the immediate is reported. -/
theorem step_fault_iff_lone_mvi :
    let m : Machine := { regs := { ptr := 10 }, memory := ⟨#[0x78]⟩ }
    m.state = .running ∧ m.memory.size < 2 ^ 32 ∧
      FirstFault m.FaultCause (.memoryOutOfBounds 1 1) ∧ m.BearsOut (.memoryOutOfBounds 1 1) :=
  ⟨rfl, by decide, ((step_fault_iff rfl (by decide)).1 _).1 rfl,
    (step_fault_iff rfl (by decide)).2.2 _ rfl⟩

end Machine

end Tomtel
