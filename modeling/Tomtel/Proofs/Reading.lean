import Mathlib.Tactic.IntervalCases
import Mathlib.Tactic.SplitIfs
import Tomtel.Instruction.Encode
import Tomtel.Proofs.Decoding

/-!
# What is read from bytes

`memory.Contains addr bytes` says that the bytes stand in memory at `addr`. An instruction is read
exactly where an encoding stands (`Memory.instruction_eq_ok_iff`), in either layout. The layout has
its say in the value of a 32-bit immediate only: `ImmediateLayout.view` is the word that it reads
where another one stands.
-/

namespace Tomtel

/-! ### Words in the two layouts -/

namespace Word

/-- The word with bits 24 to 31 also in place of bits 16 to 23. -/
def repeatHighByte (w : UInt32) : UInt32 :=
  (w &&& (0xff00ffff : UInt32)) ||| ((w >>> 8) &&& (0x00ff0000 : UInt32))

section

variable (v w : UInt32) (k : Nat)

theorem byte_and : byte (v &&& w) k = byte v k &&& byte w k := by
  simp only [byte, UInt32.toNat_and, Nat.shiftRight_and_distrib, UInt8.ofNat_and]

theorem byte_or : byte (v ||| w) k = byte v k ||| byte w k := by
  simp only [byte, UInt32.toNat_or, Nat.shiftRight_or_distrib, UInt8.ofNat_or]

theorem byte_shiftRight : byte (w >>> 8) k = byte w (k + 1) := by
  have h : (w >>> 8).toNat = w.toNat >>> 8 := rfl
  rw [byte, byte, h, ← Nat.shiftRight_add, Nat.mul_succ, Nat.add_comm]

theorem bytes_repeatHighByte :
    bytes (repeatHighByte w) = [byte w 0, byte w 1, byte w 3, byte w 3] := by
  have hand : ∀ b : UInt8, b &&& 0xff = b := fun _ => UInt8.and_neg_one
  -- the two masks, byte by byte
  have h₀ : byte 0xff00ffff 0 = 0xff ∧ byte 0x00ff0000 0 = 0 := by decide
  have h₁ : byte 0xff00ffff 1 = 0xff ∧ byte 0x00ff0000 1 = 0 := by decide
  have h₂ : byte 0xff00ffff 2 = 0 ∧ byte 0x00ff0000 2 = 0xff := by decide
  have h₃ : byte 0xff00ffff 3 = 0xff ∧ byte 0x00ff0000 3 = 0 := by decide
  simp [bytes, repeatHighByte, byte_and, byte_or, byte_shiftRight, hand, h₀, h₁, h₂, h₃]

end

theorem bytes_injective {v w : UInt32} (h : bytes v = bytes w) : v = w := by
  simp only [bytes, List.cons.injEq, and_true] at h
  obtain ⟨h₀, h₁, h₂, h₃⟩ := h
  rw [← ofBytes_bytes v, ← ofBytes_bytes w, h₀, h₁, h₂, h₃]

theorem repeatHighByte_eq_self_iff {w : UInt32} : repeatHighByte w = w ↔ byte w 2 = byte w 3 := by
  constructor
  · intro h
    have hb := bytes_repeatHighByte w
    rw [h] at hb
    simp only [bytes, List.cons.injEq, and_true, true_and] at hb
    exact hb
  · intro h
    apply bytes_injective
    rw [bytes_repeatHighByte, bytes, h]

end Word

namespace ImmediateLayout

/-- What the layout reads where the word `w` stands in memory. -/
def view (layout : ImmediateLayout) (w : UInt32) : UInt32 :=
  match layout with
  | .littleEndian => w
  | .legacyDuplicatedHighByte => Word.repeatHighByte w

theorem assemble_byte (layout : ImmediateLayout) (w : UInt32) :
    layout.assemble (Word.byte w 0) (Word.byte w 1) (Word.byte w 2) (Word.byte w 3) =
      layout.view w := by
  cases layout with
  | littleEndian => exact Word.ofBytes_bytes w
  | legacyDuplicatedHighByte =>
    apply Word.bytes_injective
    rw [assemble, Word.bytes_ofBytes, view, Word.bytes_repeatHighByte]

end ImmediateLayout

namespace Instruction

/-- The 32-bit immediate, if there is one. -/
def word? : Instruction → Option UInt32
  | .jez target | .jnz target => some target
  | .mvi32 _ imm => some imm
  | _ => none

/-- The instruction with `f` applied to its 32-bit immediate, if it has one. -/
def mapWord (f : UInt32 → UInt32) : Instruction → Instruction
  | .jez target => .jez (f target)
  | .jnz target => .jnz (f target)
  | .mvi32 dest imm => .mvi32 dest (f imm)
  | i => i

section

variable (f : UInt32 → UInt32) (i : Instruction)

@[simp] theorem opcode_mapWord : (i.mapWord f).opcode = i.opcode := by
  cases i <;> rfl

@[simp] theorem length_mapWord : (i.mapWord f).length = i.length := by
  rw [length, opcode_mapWord, length]

@[simp] theorem lead_mapWord : (i.mapWord f).lead = i.lead := by
  cases i <;> rfl

theorem mapWord_eq_self_iff : i.mapWord f = i ↔ ∀ w, i.word? = some w → f w = w := by
  cases i <;> simp [mapWord, word?]

end

@[simp] theorem mapWord_view_littleEndian (i : Instruction) :
    i.mapWord ImmediateLayout.littleEndian.view = i :=
  (mapWord_eq_self_iff _ i).2 fun _ _ => rfl

end Instruction

/-! ### Bytes at an address -/

namespace Memory

/-- The bytes stand in memory from `addr` on. -/
def Contains (memory : Memory) (addr : Nat) (bytes : List UInt8) : Prop :=
  bytes <+: memory.bytes.toList.drop addr

/-- Up to `length` bytes from `addr` on. -/
def slice (memory : Memory) (addr length : Nat) : List UInt8 :=
  (memory.bytes.extract addr (addr + length)).toList

variable {memory : Memory} {addr : Nat} {b : UInt8} {bytes : List UInt8}

theorem lt_size_of_getElem? (h : memory.bytes[addr]? = some b) : addr < memory.size :=
  (Array.getElem?_eq_some_iff.1 h).1

theorem exists_getElem?_of_lt (h : addr < memory.size) : ∃ b, memory.bytes[addr]? = some b :=
  ⟨_, Array.getElem?_eq_getElem h⟩

theorem contains_nil : memory.Contains addr [] := List.nil_prefix

theorem contains_cons : memory.Contains addr (b :: bytes) ↔
    memory.bytes[addr]? = some b ∧ memory.Contains (addr + 1) bytes := by
  unfold Contains
  rcases Nat.lt_or_ge addr memory.bytes.size with hlt | hge
  · rw [List.drop_eq_getElem_cons (by simpa using hlt), List.cons_prefix_cons,
      Array.getElem?_eq_getElem hlt, Option.some.injEq, Array.getElem_toList, eq_comm]
  · have hdrop : memory.bytes.toList.drop addr = [] := by simpa using hge
    have hnone : memory.bytes[addr]? = none := by simpa using hge
    rw [hdrop, hnone]
    simp

theorem contains_bytes_iff {w : UInt32} : memory.Contains addr (Word.bytes w) ↔
    memory.bytes[addr]? = some (Word.byte w 0) ∧ memory.bytes[addr + 1]? = some (Word.byte w 1) ∧
      memory.bytes[addr + 2]? = some (Word.byte w 2) ∧
        memory.bytes[addr + 3]? = some (Word.byte w 3) := by
  simp only [Word.bytes, contains_cons, contains_nil, and_true]

theorem contains_of_toList_eq {before after : List UInt8}
    (h : memory.bytes.toList = before ++ bytes ++ after) : memory.Contains before.length bytes := by
  rw [Contains, h, List.append_assoc, List.drop_left]
  exact List.prefix_append bytes after

theorem Contains.getElem? (h : memory.Contains addr bytes) {k : Nat} (hk : k < bytes.length) :
    memory.bytes[addr + k]? = bytes[k]? := by
  rw [List.getElem?_eq_getElem hk, h.getElem hk, List.getElem_drop, Array.getElem_toList]
  exact Array.getElem?_eq_getElem _

theorem Contains.slice_eq (h : memory.Contains addr bytes) :
    memory.slice addr bytes.length = bytes := by
  rw [slice, Array.toList_extract, List.extract_eq_take_drop, Nat.add_sub_cancel_left]
  exact (List.prefix_iff_eq_take.1 h).symm

theorem Contains.add_length_le (h : memory.Contains addr (b :: bytes)) :
    addr + (b :: bytes).length ≤ memory.size := by
  have hlt := lt_size_of_getElem? (contains_cons.1 h).1
  have hle : (b :: bytes).length ≤ memory.size - addr := by
    have h' := h.length_le
    rwa [List.length_drop] at h'
  omega

end Memory

/-! ### First bytes -/

namespace Opcode

variable {b family : UInt8} {opcode : Opcode}

/-- A byte is its family bits and its two selectors. -/
theorem encodeMove_self (b : UInt8) : encodeMove b (destSelector b) (srcSelector b) = b := by
  apply UInt8.toBitVec_inj.1
  apply BitVec.eq_of_getLsbD_eq
  intro k hk
  interval_cases k <;> simp [encodeMove, destSelector, srcSelector, selectorMask, familyMask]

theorem encodeMove_selectors (h : b &&& familyMask = family &&& familyMask) :
    encodeMove family (destSelector b) (srcSelector b) = b := by
  have hb := encodeMove_self b
  rwa [encodeMove, h] at hb

theorem destSelector_encodeMove (family dest src : UInt8) :
    destSelector (encodeMove family dest src) = dest &&& selectorMask := by
  apply UInt8.toBitVec_inj.1
  apply BitVec.eq_of_getLsbD_eq
  intro k hk
  interval_cases k <;> simp [destSelector, encodeMove, selectorMask, familyMask]

theorem srcSelector_encodeMove (family dest src : UInt8) :
    srcSelector (encodeMove family dest src) = src &&& selectorMask := by
  apply UInt8.toBitVec_inj.1
  apply BitVec.eq_of_getLsbD_eq
  intro k hk
  interval_cases k <;> simp [srcSelector, encodeMove, selectorMask, familyMask]

theorem isWideMove_of_ofByte? (h : ofByte? b = some opcode)
    (ho : opcode = .mv32 ∨ opcode = .mvi32) : IsWideMove b := by
  refine Decidable.byContradiction fun hw => ?_
  by_cases hb : IsByteMove b
  · rw [ofByte?_of_isByteMove hb, Option.some.injEq] at h
    rcases ho with rfl | rfl <;> split_ifs at h
  · have hm := isMove_of_not_isMove hb hw h
    rcases ho with rfl | rfl <;> cases hm

theorem srcSelector_eq_zero (h : ofByte? b = some opcode)
    (ho : opcode = .mvi ∨ opcode = .mvi32) : srcSelector b = 0 := by
  rcases ho with rfl | rfl
  · rw [ofByte?_of_isByteMove (isByteMove_of_ofByte? h (.inr rfl)), Option.some.injEq] at h
    split_ifs at h with hs
    exact hs
  · rw [ofByte?_of_isWideMove (isWideMove_of_ofByte? h (.inr rfl)), Option.some.injEq] at h
    split_ifs at h with hs
    exact hs

theorem fixedByte?_of_ofByte? (h : ofByte? b = some opcode) (hm : opcode.isMove = false) :
    opcode.fixedByte? = some b := by
  have hb : ¬ IsByteMove b := by
    intro hb
    rw [ofByte?_of_isByteMove hb, Option.some.injEq] at h
    subst h
    split_ifs at hm <;> cases hm
  have hw : ¬ IsWideMove b := by
    intro hw
    rw [ofByte?_of_isWideMove hw, Option.some.injEq] at h
    subst h
    split_ifs at hm <;> cases hm
  rw [ofByte?_of_not_isMove hb hw, Option.map_eq_some_iff] at h
  obtain ⟨entry, hentry, rfl⟩ := h
  obtain rfl : entry.1 = b := by simpa using List.find?_some hentry
  -- no operation stands twice in the table
  have htable : ∀ entry ∈ fixedTable, entry.2.fixedByte? = some entry.1 := by decide
  exact htable entry (List.mem_of_find?_eq_some hentry)

end Opcode

namespace ByteOperand

theorem select_eq_ok_iff {s : UInt8} {operand : ByteOperand} :
    select s = .ok operand ↔ operand.selector = s := by
  unfold select
  constructor
  · intro h
    split at h
    · rename_i operand' ho
      cases h
      exact selector_of_ofSelector? ho
    · cases h
  · rintro rfl
    rw [ofSelector?_selector]

theorem selector_and_selectorMask (operand : ByteOperand) :
    operand.selector &&& Opcode.selectorMask = operand.selector := by
  rcases operand with r | _
  · cases r <;> rfl
  · rfl

theorem select_dest (operand : ByteOperand) (family src : UInt8) :
    select (Opcode.destSelector (Opcode.encodeMove family operand.selector src)) = .ok operand := by
  rw [select_eq_ok_iff, Opcode.destSelector_encodeMove, selector_and_selectorMask]

theorem select_src (operand : ByteOperand) (family dest : UInt8) :
    select (Opcode.srcSelector (Opcode.encodeMove family dest operand.selector)) = .ok operand := by
  rw [select_eq_ok_iff, Opcode.srcSelector_encodeMove, selector_and_selectorMask]

end ByteOperand

namespace WideRegister

theorem select_eq_ok_iff {s : UInt8} {r : WideRegister} : select s = .ok r ↔ r.selector = s := by
  unfold select
  constructor
  · intro h
    split at h
    · rename_i r' hr
      cases h
      exact selector_of_ofSelector? hr
    · cases h
  · rintro rfl
    rw [ofSelector?_selector]

theorem selector_and_selectorMask (r : WideRegister) :
    r.selector &&& Opcode.selectorMask = r.selector := by
  cases r <;> rfl

theorem select_dest (r : WideRegister) (family src : UInt8) :
    select (Opcode.destSelector (Opcode.encodeMove family r.selector src)) = .ok r := by
  rw [select_eq_ok_iff, Opcode.destSelector_encodeMove, selector_and_selectorMask]

theorem select_src (r : WideRegister) (family dest : UInt8) :
    select (Opcode.srcSelector (Opcode.encodeMove family dest r.selector)) = .ok r := by
  rw [select_eq_ok_iff, Opcode.srcSelector_encodeMove, selector_and_selectorMask]

end WideRegister

/-! ### Immediates -/

namespace Decoded

variable {d : Decoded} {memory : Memory} {layout : ImmediateLayout}

theorem byteImmediate_eq_ok_iff {v : UInt8} :
    d.byteImmediate memory = .ok v ↔ memory.Contains (d.addr.toNat + 1) [v] := by
  rw [Memory.contains_cons, and_iff_left Memory.contains_nil]
  constructor
  · intro h
    have hv := Memory.getElem?_of_read h
    rwa [toNat_immediateAddress] at hv
  · exact byteImmediate_of_getElem?

theorem wordImmediate_eq_ok_iff {v : UInt32} (haddr : d.addr.toNat + 1 < 2 ^ 32) :
    d.wordImmediate memory layout = .ok v ↔
      ∃ w, memory.Contains (d.addr.toNat + 1) (Word.bytes w) ∧ layout.view w = v := by
  constructor
  · intro h
    rcases Nat.lt_or_ge (d.addr.toNat + 4) memory.size with hlt | hge
    · obtain ⟨b₀, h₀⟩ := Memory.exists_getElem?_of_lt (show d.addr.toNat + 1 < memory.size by omega)
      obtain ⟨b₁, h₁⟩ := Memory.exists_getElem?_of_lt (show d.addr.toNat + 2 < memory.size by omega)
      obtain ⟨b₂, h₂⟩ := Memory.exists_getElem?_of_lt (show d.addr.toNat + 3 < memory.size by omega)
      obtain ⟨b₃, h₃⟩ := Memory.exists_getElem?_of_lt hlt
      rw [wordImmediate_of_bytes haddr h₀ h₁ h₂ h₃] at h
      cases h
      -- the word that stands there, whatever the layout makes of it
      have hbytes := Word.bytes_ofBytes b₀ b₁ b₂ b₃
      refine ⟨Word.ofBytes b₀ b₁ b₂ b₃, ?_, ?_⟩
      · rw [hbytes]
        simp only [Memory.contains_cons, Memory.contains_nil, and_true]
        exact ⟨h₀, h₁, h₂, h₃⟩
      · simp only [Word.bytes, List.cons.injEq, and_true] at hbytes
        obtain ⟨e₀, e₁, e₂, e₃⟩ := hbytes
        rw [← ImmediateLayout.assemble_byte, e₀, e₁, e₂, e₃]
    · rw [wordImmediate_of_ge haddr hge] at h
      cases h
  · rintro ⟨w, hw, rfl⟩
    obtain ⟨h₀, h₁, h₂, h₃⟩ := Memory.contains_bytes_iff.1 hw
    rw [wordImmediate_of_bytes haddr h₀ h₁ h₂ h₃, ImmediateLayout.assemble_byte]

/-- What is read is a word in memory as the layout sees it. An immediate behind the last address
would have been a fault. -/
theorem exists_contains_of_wordImmediate {v : UInt32} (h : d.wordImmediate memory layout = .ok v) :
    ∃ w, memory.Contains (d.addr.toNat + 1) (Word.bytes w) ∧ layout.view w = v := by
  have haddr : d.addr.toNat + 1 < 2 ^ 32 := by
    unfold wordImmediate at h
    split_ifs at h with hlt
    rwa [UInt64.lt_iff_toNat_lt, toNat_immediateAddress] at hlt
  exact (wordImmediate_eq_ok_iff haddr).1 h

end Decoded

/-! ### Instructions -/

namespace Memory

variable {memory : Memory} {layout : ImmediateLayout} {addr : UInt32} {i j : Instruction}

theorem exists_decode_of_instruction (h : memory.instruction layout addr = .ok i) :
    ∃ d, memory.decode addr = .ok d ∧ d.resolve memory layout = .ok i := by
  unfold instruction at h
  split at h
  · exact ⟨_, ‹_›, h⟩
  · cases h

/-- An encoding in memory is read as its instruction, with the immediate that the layout makes of
it. -/
theorem instruction_of_contains (hsize : memory.size < 2 ^ 32)
    (h : memory.Contains addr.toNat j.encode) :
    memory.instruction layout addr = .ok (j.mapWord layout.view) := by
  obtain ⟨hb, himm⟩ := contains_cons.1 h
  have hlt := lt_size_of_getElem? hb
  have haddr : addr.toNat + 1 < 2 ^ 32 := by omega
  rw [instruction_of_opcode hb j.ofByte?_lead]
  cases j with
  | aptr imm => exact bind_eq_ok.2 ⟨imm, Decoded.byteImmediate_eq_ok_iff.2 himm, rfl⟩
  | jez target =>
    exact bind_eq_ok.2 ⟨_, (Decoded.wordImmediate_eq_ok_iff haddr).2 ⟨target, himm, rfl⟩, rfl⟩
  | jnz target =>
    exact bind_eq_ok.2 ⟨_, (Decoded.wordImmediate_eq_ok_iff haddr).2 ⟨target, himm, rfl⟩, rfl⟩
  | mv dest src =>
    exact bind_eq_ok.2 ⟨dest, dest.select_dest .., bind_eq_ok.2 ⟨src, src.select_src .., rfl⟩⟩
  | mv32 dest src =>
    exact bind_eq_ok.2 ⟨dest, dest.select_dest .., bind_eq_ok.2 ⟨src, src.select_src .., rfl⟩⟩
  | mvi dest imm =>
    exact bind_eq_ok.2 ⟨dest, dest.select_dest .., bind_eq_ok.2
      ⟨imm, Decoded.byteImmediate_eq_ok_iff.2 himm, rfl⟩⟩
  | mvi32 dest imm =>
    exact bind_eq_ok.2 ⟨dest, dest.select_dest .., bind_eq_ok.2
      ⟨_, (Decoded.wordImmediate_eq_ok_iff haddr).2 ⟨imm, himm, rfl⟩, rfl⟩⟩
  | _ => rfl

theorem lead_of_instruction {b : UInt8} (hb : memory.bytes[addr.toNat]? = some b)
    (h : memory.instruction layout addr = .ok i) : i.lead = b := by
  have ho := ofByte?_of_instruction hb h
  rw [instruction_of_opcode hb ho] at h
  cases i with
  | mv dest src =>
    obtain ⟨dest', hdest, h⟩ := bind_eq_ok.1 h
    obtain ⟨src', hsrc, h⟩ := bind_eq_ok.1 h
    cases h
    have hm : Opcode.IsByteMove b := Opcode.isByteMove_of_ofByte? ho (.inl rfl)
    have hd : dest.selector = Opcode.destSelector b := ByteOperand.select_eq_ok_iff.1 hdest
    have hs : src.selector = Opcode.srcSelector b := ByteOperand.select_eq_ok_iff.1 hsrc
    rw [Instruction.lead, hd, hs]
    exact Opcode.encodeMove_selectors hm
  | mvi dest imm =>
    obtain ⟨dest', hdest, h⟩ := bind_eq_ok.1 h
    obtain ⟨imm', -, h⟩ := bind_eq_ok.1 h
    cases h
    have hm : Opcode.IsByteMove b := Opcode.isByteMove_of_ofByte? ho (.inr rfl)
    have hd : dest.selector = Opcode.destSelector b := ByteOperand.select_eq_ok_iff.1 hdest
    have hs := Opcode.srcSelector_eq_zero ho (.inl rfl)
    rw [Instruction.lead, hd, ← hs]
    exact Opcode.encodeMove_selectors hm
  | mv32 dest src =>
    obtain ⟨dest', hdest, h⟩ := bind_eq_ok.1 h
    obtain ⟨src', hsrc, h⟩ := bind_eq_ok.1 h
    cases h
    have hw : Opcode.IsWideMove b := Opcode.isWideMove_of_ofByte? ho (.inl rfl)
    have hd : dest.selector = Opcode.destSelector b := WideRegister.select_eq_ok_iff.1 hdest
    have hs : src.selector = Opcode.srcSelector b := WideRegister.select_eq_ok_iff.1 hsrc
    rw [Instruction.lead, hd, hs]
    exact Opcode.encodeMove_selectors hw
  | mvi32 dest imm =>
    obtain ⟨dest', hdest, h⟩ := bind_eq_ok.1 h
    obtain ⟨imm', -, h⟩ := bind_eq_ok.1 h
    cases h
    have hw : Opcode.IsWideMove b := Opcode.isWideMove_of_ofByte? ho (.inr rfl)
    have hd : dest.selector = Opcode.destSelector b := WideRegister.select_eq_ok_iff.1 hdest
    have hs := Opcode.srcSelector_eq_zero ho (.inr rfl)
    rw [Instruction.lead, hd, ← hs]
    exact Opcode.encodeMove_selectors hw
  | _ => exact congrArg (Option.getD · 0) (Opcode.fixedByte?_of_ofByte? ho rfl)

theorem exists_immediate_of_resolve {d : Decoded} (h : d.resolve memory layout = .ok i) :
    ∃ j : Instruction,
      memory.Contains (d.addr.toNat + 1) j.immediate ∧ j.mapWord layout.view = i := by
  have ho := Decoded.opcode_of_resolve h
  obtain ⟨addr, raw, opcode, dest, src⟩ := d
  obtain rfl : i.opcode = opcode := ho
  cases i with
  | aptr imm =>
    obtain ⟨imm', himm, h⟩ := bind_eq_ok.1 h
    cases h
    exact ⟨.aptr imm, Decoded.byteImmediate_eq_ok_iff.1 himm, rfl⟩
  | mvi dest imm =>
    obtain ⟨dest', -, h⟩ := bind_eq_ok.1 h
    obtain ⟨imm', himm, h⟩ := bind_eq_ok.1 h
    cases h
    exact ⟨.mvi dest imm, Decoded.byteImmediate_eq_ok_iff.1 himm, rfl⟩
  | jez target =>
    obtain ⟨target', himm, h⟩ := bind_eq_ok.1 h
    cases h
    obtain ⟨w, hw, rfl⟩ := Decoded.exists_contains_of_wordImmediate himm
    exact ⟨.jez w, hw, rfl⟩
  | jnz target =>
    obtain ⟨target', himm, h⟩ := bind_eq_ok.1 h
    cases h
    obtain ⟨w, hw, rfl⟩ := Decoded.exists_contains_of_wordImmediate himm
    exact ⟨.jnz w, hw, rfl⟩
  | mvi32 dest imm =>
    obtain ⟨dest', -, h⟩ := bind_eq_ok.1 h
    obtain ⟨imm', himm, h⟩ := bind_eq_ok.1 h
    cases h
    obtain ⟨w, hw, rfl⟩ := Decoded.exists_contains_of_wordImmediate himm
    exact ⟨.mvi32 dest w, hw, rfl⟩
  -- the others have no immediate
  | mv dest src => exact ⟨.mv dest src, contains_nil, rfl⟩
  | mv32 dest src => exact ⟨.mv32 dest src, contains_nil, rfl⟩
  | add => exact ⟨.add, contains_nil, rfl⟩
  | cmp => exact ⟨.cmp, contains_nil, rfl⟩
  | halt => exact ⟨.halt, contains_nil, rfl⟩
  | out => exact ⟨.out, contains_nil, rfl⟩
  | sub => exact ⟨.sub, contains_nil, rfl⟩
  | xor => exact ⟨.xor, contains_nil, rfl⟩

/-- Where an instruction is read, an encoding stands, however large memory is. -/
theorem exists_encode_of_instruction (h : memory.instruction layout addr = .ok i) :
    ∃ j : Instruction, memory.Contains addr.toNat j.encode ∧ j.mapWord layout.view = i := by
  obtain ⟨d, hd, hr⟩ := exists_decode_of_instruction h
  obtain ⟨hb, rfl⟩ := getElem?_of_decode hd
  obtain ⟨j, himm, rfl⟩ := exists_immediate_of_resolve hr
  refine ⟨j, contains_cons.2 ⟨?_, himm⟩, rfl⟩
  rw [hb, ← lead_of_instruction hb h, Instruction.lead_mapWord]

/-- An instruction is read where an encoding stands, and only there. It is the encoded one but for
what the layout makes of its immediate. -/
theorem instruction_eq_ok_iff (hsize : memory.size < 2 ^ 32) :
    memory.instruction layout addr = .ok i ↔
      ∃ j : Instruction, memory.Contains addr.toNat j.encode ∧ j.mapWord layout.view = i := by
  constructor
  · exact exists_encode_of_instruction
  · rintro ⟨j, hj, rfl⟩
    exact instruction_of_contains hsize hj

/-- What is read lies within memory. -/
theorem add_length_le_of_instruction (h : memory.instruction layout addr = .ok i) :
    addr.toNat + i.length.toNat ≤ memory.size := by
  obtain ⟨j, hj, rfl⟩ := exists_encode_of_instruction h
  have hle := hj.add_length_le
  rwa [← Instruction.encode, Instruction.length_encode, ← j.length_mapWord layout.view] at hle

end Memory

end Tomtel
