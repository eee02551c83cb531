import Mathlib.Algebra.Group.Nat.Defs
import Mathlib.Tactic.SplitIfs
import Tomtel.Instruction.Decode

/-!
# Decoding by the first byte

`Opcode.ofByte?` by the class of the byte: the two move families (`IsByteMove`, `IsWideMove`) and
the fixed table. `Memory.instruction_of_opcode` then reads an instruction as the resolution of its
first byte, and the immediates are bytes of memory behind it (`wordImmediate_of_bytes`).
-/

namespace Tomtel

theorem bind_eq_ok {ε α β : Type} {x : Except ε α} {f : α → Except ε β} {v : β} :
    x >>= f = .ok v ↔ ∃ a, x = .ok a ∧ f a = .ok v := by
  cases x with
  | error e =>
    constructor
    · intro h; cases h
    · rintro ⟨a, h, -⟩; cases h
  | ok a =>
    constructor
    · exact fun h => ⟨a, rfl, h⟩
    · rintro ⟨a', h, hf⟩; cases h; exact hf

/-! ### First bytes -/

namespace Opcode

/-- The byte starts a move between byte operands. -/
def IsByteMove (b : UInt8) : Prop := b &&& familyMask = byteMove
  deriving Decidable

/-- The byte starts a move between wide registers. -/
def IsWideMove (b : UInt8) : Prop := b &&& familyMask = wideMove
  deriving Decidable

def fixedBytes : List UInt8 := fixedTable.map Prod.fst

variable {b : UInt8} {opcode : Opcode}

theorem moveCode?_of_isByteMove (h : IsByteMove b) :
    moveCode? b = some (if srcSelector b = 0 then 0x40 else 0x41) := by
  rw [IsByteMove] at h
  simp only [moveCode?, h, true_or, if_true]
  rfl

theorem moveCode?_of_isWideMove (h : IsWideMove b) :
    moveCode? b = some (if srcSelector b = 0 then 0x80 else 0x81) := by
  rw [IsWideMove] at h
  simp only [moveCode?, h, or_true, if_true]
  rfl

theorem ofByte?_of_isByteMove (h : IsByteMove b) :
    ofByte? b = some (if srcSelector b = 0 then .mvi else .mv) := by
  rw [ofByte?, moveCode?_of_isByteMove h]
  split_ifs <;> rfl

theorem ofByte?_of_isWideMove (h : IsWideMove b) :
    ofByte? b = some (if srcSelector b = 0 then .mvi32 else .mv32) := by
  rw [ofByte?, moveCode?_of_isWideMove h]
  split_ifs <;> rfl

theorem ofByte?_of_not_isMove (hb : ¬ IsByteMove b) (hw : ¬ IsWideMove b) :
    ofByte? b = (fixedTable.find? fun entry => entry.1 = b).map Prod.snd := by
  rw [IsByteMove] at hb; rw [IsWideMove] at hw
  simp only [ofByte?, moveCode?, hb, hw, or_self, if_false]

theorem ofByte?_eq_none (hb : ¬ IsByteMove b) (hw : ¬ IsWideMove b) (ht : b ∉ fixedBytes) :
    ofByte? b = none := by
  rw [ofByte?_of_not_isMove hb hw, Option.map_eq_none_iff, List.find?_eq_none]
  intro entry hentry heq
  refine ht (List.mem_map.2 ⟨entry, hentry, ?_⟩)
  simpa using heq

theorem isMove_of_not_isMove (hb : ¬ IsByteMove b) (hw : ¬ IsWideMove b)
    (h : ofByte? b = some opcode) : opcode.isMove = false := by
  rw [ofByte?_of_not_isMove hb hw, Option.map_eq_some_iff] at h
  obtain ⟨entry, hentry, rfl⟩ := h
  have htable : ∀ entry ∈ fixedTable, entry.2.isMove = false := by decide
  exact htable entry (List.mem_of_find?_eq_some hentry)

theorem isByteMove_of_ofByte? (h : ofByte? b = some opcode) (ho : opcode = .mv ∨ opcode = .mvi) :
    IsByteMove b := by
  refine Decidable.byContradiction fun hb => ?_
  by_cases hw : IsWideMove b
  · rw [ofByte?_of_isWideMove hw, Option.some.injEq] at h
    rcases ho with rfl | rfl <;> split_ifs at h
  · have hm := isMove_of_not_isMove hb hw h
    rcases ho with rfl | rfl <;> cases hm

theorem destSelector_le (b : UInt8) : destSelector b ≤ 7 := UInt8.and_le_right

theorem srcSelector_le (b : UInt8) : srcSelector b ≤ 7 := UInt8.and_le_right

end Opcode

/-! ### Selectors -/

/-- All selectors but zero name a byte operand. -/
theorem ByteOperand.exists_select {s : UInt8} (h : s ≤ 7) (h₀ : s ≠ 0) :
    ∃ operand, ByteOperand.select s = .ok operand := by
  have h' : s.toNat ≤ 7 := h
  unfold ByteOperand.select ByteOperand.ofSelector?
  split
  · exact ⟨_, rfl⟩
  · split at * <;> grind

theorem ByteOperand.eq_cell_iff_of_select {s : UInt8} {operand : ByteOperand}
    (h : ByteOperand.select s = .ok operand) : operand = .cell ↔ s = 7 := by
  unfold ByteOperand.select at h
  split at h
  · rename_i operand' ho
    cases h
    constructor
    · rintro rfl; exact (ByteOperand.selector_of_ofSelector? ho).symm
    · rintro rfl; cases ho; rfl
  · cases h

/-- All selectors but zero and seven name a wide register. -/
theorem WideRegister.exists_select {s : UInt8} (h : s ≤ 7) (h₀ : s ≠ 0) (h₇ : s ≠ 7) :
    ∃ r, WideRegister.select s = .ok r := by
  have h' : s.toNat ≤ 7 := h
  unfold WideRegister.select WideRegister.ofSelector?
  split
  · exact ⟨_, rfl⟩
  · split at * <;> grind

/-! ### Bytes of memory -/

namespace Memory

variable {memory : Memory} {addr : UInt64} {k : Nat} {v : UInt8}

theorem read_of_getElem? (ha : addr.toNat = k) (hv : memory.bytes[k]? = some v) :
    memory.read addr = .ok v := by
  subst ha
  obtain ⟨hlt, rfl⟩ := Array.getElem?_eq_some_iff.1 hv
  exact read_of_lt hlt

theorem getElem?_of_read (h : memory.read addr = .ok v) : memory.bytes[addr.toNat]? = some v := by
  rcases Nat.lt_or_ge addr.toNat memory.bytes.size with hlt | hge
  · rw [read_of_lt hlt] at h
    cases h
    exact Array.getElem?_eq_getElem hlt
  · rw [read_of_ge hge] at h; cases h

theorem read_eq_error_iff {fault : Fault} :
    memory.read addr = .error fault ↔
      memory.size ≤ addr.toNat ∧ fault = .memoryOutOfBounds addr memory.length := by
  rcases Nat.lt_or_ge addr.toNat memory.bytes.size with hlt | hge
  · rw [read_of_lt hlt]
    constructor
    · intro h; cases h
    · exact fun h => absurd h.1 (Nat.not_le.2 hlt)
  · rw [read_of_ge hge]
    constructor
    · intro h; cases h; exact ⟨hge, rfl⟩
    · rintro ⟨-, rfl⟩; rfl

end Memory

/-! ### Resolving -/

namespace Decoded

variable {d : Decoded} {memory : Memory} {layout : ImmediateLayout}

theorem opcode_of_resolve {i : Instruction} (h : d.resolve memory layout = .ok i) :
    i.opcode = d.opcode := by
  unfold resolve at h
  split at h <;> simp only [bind_eq_ok, pure, Except.pure, Except.ok.injEq] at h <;>
    grind [Instruction.opcode]

theorem toNat_immediateAddress : d.immediateAddress.toNat = d.addr.toNat + 1 := by
  have h := d.addr.toNat_lt
  rw [immediateAddress, UInt64.toNat_add, UInt32.toNat_toUInt64]
  show (d.addr.toNat + 1) % _ = _
  omega

theorem toNat_immediateAddress_add {k : UInt64} (hk : k ≤ 3) :
    (d.immediateAddress + k).toNat = d.addr.toNat + 1 + k.toNat := by
  have h := d.addr.toNat_lt
  have hk : k.toNat ≤ 3 := hk
  rw [UInt64.toNat_add, toNat_immediateAddress]
  omega

theorem immediateAddress_lt (h : d.addr.toNat + 1 < 2 ^ 32) : d.immediateAddress < 0x100000000 := by
  rw [UInt64.lt_iff_toNat_lt, toNat_immediateAddress]
  exact h

theorem byteImmediate_of_getElem? {v : UInt8} (hv : memory.bytes[d.addr.toNat + 1]? = some v) :
    d.byteImmediate memory = .ok v :=
  Memory.read_of_getElem? toNat_immediateAddress hv

theorem byteImmediate_of_ge (h : memory.size ≤ d.addr.toNat + 1) :
    d.byteImmediate memory =
      .error (.memoryOutOfBounds (UInt64.ofNat (d.addr.toNat + 1)) memory.length) := by
  rw [byteImmediate, Memory.read_of_ge (by rw [toNat_immediateAddress]; exact h)]
  rw [← toNat_immediateAddress, UInt64.ofNat_toNat]

theorem wordImmediate_of_bytes {b₀ b₁ b₂ b₃ : UInt8} (h : d.addr.toNat + 1 < 2 ^ 32)
    (h₀ : memory.bytes[d.addr.toNat + 1]? = some b₀)
    (h₁ : memory.bytes[d.addr.toNat + 2]? = some b₁)
    (h₂ : memory.bytes[d.addr.toNat + 3]? = some b₂)
    (h₃ : memory.bytes[d.addr.toNat + 4]? = some b₃) :
    d.wordImmediate memory layout = .ok (layout.assemble b₀ b₁ b₂ b₃) := by
  have e₀ := Memory.read_of_getElem? (d.toNat_immediateAddress) h₀
  have e₁ := Memory.read_of_getElem? (d.toNat_immediateAddress_add (k := 1) (by decide)) h₁
  have e₂ := Memory.read_of_getElem? (d.toNat_immediateAddress_add (k := 2) (by decide)) h₂
  have e₃ := Memory.read_of_getElem? (d.toNat_immediateAddress_add (k := 3) (by decide)) h₃
  rw [wordImmediate, if_pos (immediateAddress_lt h), Memory.readWord, e₃, e₀, e₁, e₂]
  rfl

/-- Whether four bytes of immediate are there is decided by the last of them. -/
theorem wordImmediate_of_lt (layout : ImmediateLayout) (hsize : memory.size < 2 ^ 32)
    (h : d.addr.toNat + 4 < memory.size) : ∃ v, d.wordImmediate memory layout = .ok v := by
  have hk : ∀ k, k ≤ d.addr.toNat + 4 → ∃ v, memory.bytes[k]? = some v := fun k hk =>
    ⟨_, Array.getElem?_eq_getElem (Nat.lt_of_le_of_lt hk h)⟩
  obtain ⟨b₀, h₀⟩ := hk (d.addr.toNat + 1) (by omega)
  obtain ⟨b₁, h₁⟩ := hk (d.addr.toNat + 2) (by omega)
  obtain ⟨b₂, h₂⟩ := hk (d.addr.toNat + 3) (by omega)
  obtain ⟨b₃, h₃⟩ := hk (d.addr.toNat + 4) (by omega)
  exact ⟨_, wordImmediate_of_bytes (by omega) h₀ h₁ h₂ h₃⟩

theorem wordImmediate_of_ge (haddr : d.addr.toNat + 1 < 2 ^ 32)
    (h : memory.size ≤ d.addr.toNat + 4) :
    d.wordImmediate memory layout =
      .error (.memoryOutOfBounds (UInt64.ofNat (d.addr.toNat + 4)) memory.length) := by
  have e₃ := d.toNat_immediateAddress_add (k := 3) (by decide)
  rw [wordImmediate, if_pos (immediateAddress_lt haddr), Memory.readWord,
    Memory.read_of_ge (by rw [e₃]; exact h)]
  show Except.error _ = _
  rw [← UInt64.ofNat_toNat (x := d.immediateAddress + 3), e₃]
  rfl

end Decoded

/-! ### Instructions -/

namespace Memory

variable {memory : Memory} {layout : ImmediateLayout} {addr : UInt32} {b : UInt8} {opcode : Opcode}

theorem decode_of_getElem? (hb : memory.bytes[addr.toNat]? = some b) :
    memory.decode addr = Decoded.ofByte addr b := by
  rw [decode, read_of_getElem? (by rw [UInt32.toNat_toUInt64]) hb]

theorem decode_of_ge (h : memory.size ≤ addr.toNat) :
    memory.decode addr = .error (.memoryOutOfBounds addr.toUInt64 memory.length) := by
  rw [decode, read_of_ge (by rw [UInt32.toNat_toUInt64]; exact h)]

theorem getElem?_of_decode {d : Decoded} (h : memory.decode addr = .ok d) :
    memory.bytes[addr.toNat]? = some d.raw ∧ d.addr = addr := by
  unfold decode at h
  split at h
  · rename_i raw hraw
    have hb := getElem?_of_read hraw
    rw [UInt32.toNat_toUInt64] at hb
    unfold Decoded.ofByte at h
    split at h
    · cases h
    · split_ifs at h <;> cases h <;> exact ⟨hb, rfl⟩
  · cases h

theorem instruction_of_opcode (hb : memory.bytes[addr.toNat]? = some b)
    (ho : Opcode.ofByte? b = some opcode) :
    memory.instruction layout addr =
      Decoded.resolve ⟨addr, b, opcode, if opcode.isMove then Opcode.destSelector b else 0,
        if opcode.isMove then Opcode.srcSelector b else 0⟩ memory layout := by
  rw [instruction, decode_of_getElem? hb, Decoded.ofByte, ho]
  by_cases hm : opcode.isMove = true
  · simp only [hm, if_true]
  · simp only [hm, if_false, Bool.false_eq_true]

theorem instruction_of_decode {d : Decoded} (h : memory.decode addr = .ok d) :
    memory.instruction layout addr = d.resolve memory layout := by
  rw [instruction, h]

theorem instruction_of_decode_eq_error {fault : Fault} (h : memory.decode addr = .error fault) :
    memory.instruction layout addr = .error fault := by
  rw [instruction, h]

theorem instruction_of_not_opcode (hb : memory.bytes[addr.toNat]? = some b)
    (ho : Opcode.ofByte? b = none) :
    memory.instruction layout addr = .error (.unsupportedOpcode addr b) := by
  refine instruction_of_decode_eq_error ?_
  rw [decode_of_getElem? hb, Decoded.ofByte, ho]

theorem ofByte?_of_instruction {i : Instruction} (hb : memory.bytes[addr.toNat]? = some b)
    (hi : memory.instruction layout addr = .ok i) : Opcode.ofByte? b = some i.opcode := by
  cases ho : Opcode.ofByte? b with
  | none => rw [instruction_of_not_opcode hb ho] at hi; cases hi
  | some opcode =>
    rw [instruction_of_opcode hb ho] at hi
    rw [Decoded.opcode_of_resolve hi]

theorem instruction_of_isByteMove (hb : memory.bytes[addr.toNat]? = some b)
    (hm : Opcode.IsByteMove b) :
    memory.instruction layout addr = (do
      let dest ← ByteOperand.select (Opcode.destSelector b)
      if Opcode.srcSelector b = 0 then
        return .mvi dest (← Decoded.byteImmediate ⟨addr, b, .mvi, Opcode.destSelector b, 0⟩ memory)
      else return .mv dest (← ByteOperand.select (Opcode.srcSelector b))) := by
  have ho := Opcode.ofByte?_of_isByteMove hm
  by_cases hs : Opcode.srcSelector b = 0
  · rw [if_pos hs] at ho
    rw [instruction_of_opcode hb ho]
    simp only [hs, if_true]
    rfl
  · rw [if_neg hs] at ho
    rw [instruction_of_opcode hb ho]
    simp only [hs, if_false]
    rfl

theorem instruction_of_isWideMove (hb : memory.bytes[addr.toNat]? = some b)
    (hw : Opcode.IsWideMove b) :
    memory.instruction layout addr = (do
      let dest ← WideRegister.select (Opcode.destSelector b)
      if Opcode.srcSelector b = 0 then
        return .mvi32 dest
          (← Decoded.wordImmediate ⟨addr, b, .mvi32, Opcode.destSelector b, 0⟩ memory layout)
      else return .mv32 dest (← WideRegister.select (Opcode.srcSelector b))) := by
  have ho := Opcode.ofByte?_of_isWideMove hw
  by_cases hs : Opcode.srcSelector b = 0
  · rw [if_pos hs] at ho
    rw [instruction_of_opcode hb ho]
    simp only [hs, if_true]
    rfl
  · rw [if_neg hs] at ho
    rw [instruction_of_opcode hb ho]
    simp only [hs, if_false]
    rfl

end Memory

end Tomtel
