import Tomtel.Proofs.Reading

/-!
# Encodings are canonical

Decoding undoes encoding wherever the encoding stands (`Instruction.decode_encode`), and encoding
undoes decoding (`Memory.encode_decode`): an instruction has one form in bytes, and each byte of it
counts. The legacy layout changes 32-bit immediates and nothing else.
-/

namespace Tomtel

namespace Instruction

/-- The encoding of an instruction decodes to the instruction wherever it stands, and the next
address is the one behind it. The legacy layout repeats the high byte of a 32-bit immediate, so it
gives the same instruction only if that changes nothing. -/
theorem decode_encode (i : Instruction) {memory : Memory} {addr : UInt32}
    {before after : List UInt8} (hsize : memory.size < 2 ^ 32)
    (hbytes : memory.bytes.toList = before ++ i.encode ++ after)
    (haddr : addr.toNat = before.length) :
    ∃ d, memory.decode addr = .ok d ∧
      d.resolve memory .littleEndian = .ok i ∧
      i.encode.length = d.length.toNat ∧
      d.next.toNat = addr.toNat + i.encode.length ∧
      d.resolve memory .legacyDuplicatedHighByte = .ok (i.mapWord Word.repeatHighByte) ∧
      (i.mapWord Word.repeatHighByte).encode.length = i.encode.length ∧
      (d.resolve memory .legacyDuplicatedHighByte = .ok i ↔
        ∀ w, i.word? = some w → Word.byte w 2 = Word.byte w 3) := by
  have hc : memory.Contains addr.toNat i.encode := by
    rw [haddr]
    exact Memory.contains_of_toList_eq hbytes
  have hle : addr.toNat + i.encode.length ≤ memory.size := hc.add_length_le
  have hlittle : memory.instruction .littleEndian addr = .ok i := by
    rw [Memory.instruction_of_contains hsize hc, mapWord_view_littleEndian]
  obtain ⟨d, hd, hr⟩ := Memory.exists_decode_of_instruction hlittle
  have hlegacy : d.resolve memory .legacyDuplicatedHighByte =
      .ok (i.mapWord Word.repeatHighByte) := by
    rw [← Memory.instruction_of_decode hd, Memory.instruction_of_contains hsize hc]
    rfl
  have hlen : i.encode.length = d.length.toNat := by
    rw [length_encode, length, Decoded.opcode_of_resolve hr, Decoded.length]
  refine ⟨d, hd, hr, hlen, ?_, hlegacy, ?_, ?_⟩
  · -- the encoding ends within memory, so the next address does not wrap around
    rw [Decoded.next, UInt32.toNat_add, UInt8.toNat_toUInt32, (Memory.getElem?_of_decode hd).2,
      ← hlen]
    exact Nat.mod_eq_of_lt (Nat.lt_of_le_of_lt hle hsize)
  · rw [length_encode, length_mapWord, length_encode]
  · rw [hlegacy, Except.ok.injEq, mapWord_eq_self_iff]
    exact forall₂_congr fun w _ => Word.repeatHighByte_eq_self_iff

/-- `MVI32 ptr <- 0x12345678` between two bytes of data, where the layouts differ. -/
theorem decode_encode_mvi32 :
    let i : Instruction := .mvi32 .ptr 0x12345678
    let memory : Memory := ⟨#[0xff, 0xa8, 0x78, 0x56, 0x34, 0x12, 0xff]⟩
    memory.size < 2 ^ 32 ∧ memory.bytes.toList = [0xff] ++ i.encode ++ [0xff] ∧
      (1 : UInt32).toNat = [(0xff : UInt8)].length ∧
      i.mapWord Word.repeatHighByte = .mvi32 .ptr 0x12125678 ∧
      ∃ d, memory.decode 1 = .ok d ∧
        d.resolve memory .littleEndian = .ok i ∧
        i.encode.length = d.length.toNat ∧
        d.next.toNat = (1 : UInt32).toNat + i.encode.length ∧
        d.resolve memory .legacyDuplicatedHighByte = .ok (i.mapWord Word.repeatHighByte) ∧
        (i.mapWord Word.repeatHighByte).encode.length = i.encode.length ∧
        (d.resolve memory .legacyDuplicatedHighByte = .ok i ↔
          ∀ w, i.word? = some w → Word.byte w 2 = Word.byte w 3) :=
  ⟨by decide, rfl, rfl, rfl,
    @decode_encode (.mvi32 .ptr 0x12345678) _ 1 [0xff] [0xff] (by decide) rfl rfl⟩

end Instruction

namespace Memory

variable {memory : Memory} {addr : UInt32} {d : Decoded} {i : Instruction}

theorem contains_of_instruction (hsize : memory.size < 2 ^ 32)
    (h : memory.instruction .littleEndian addr = .ok i) :
    memory.Contains addr.toNat i.encode := by
  obtain ⟨j, hj, rfl⟩ := (instruction_eq_ok_iff hsize).1 h
  rwa [Instruction.mapWord_view_littleEndian]

theorem slice_eq_encode (hsize : memory.size < 2 ^ 32) (hd : memory.decode addr = .ok d)
    (hr : d.resolve memory .littleEndian = .ok i) :
    memory.slice addr.toNat d.length.toNat = i.encode := by
  have hi : memory.instruction .littleEndian addr = .ok i := (instruction_of_decode hd).trans hr
  have hlen : i.encode.length = d.length.toNat := by
    rw [Instruction.length_encode, Instruction.length, Decoded.opcode_of_resolve hr, Decoded.length]
  rw [← hlen]
  exact (contains_of_instruction hsize hi).slice_eq

/-- Another value in place of any byte of an instruction gives another instruction, or none. -/
theorem instruction_set_ne (hsize : memory.size < 2 ^ 32)
    (h : memory.instruction .littleEndian addr = .ok i) {k : Nat} (hk : k < i.length.toNat)
    {v : UInt8} (hv : memory.bytes[addr.toNat + k]? ≠ some v) :
    instruction ⟨memory.bytes.setIfInBounds (addr.toNat + k) v⟩ .littleEndian addr ≠ .ok i := by
  intro h'
  have hlt : addr.toNat + k < memory.bytes.size :=
    Nat.lt_of_lt_of_le (Nat.add_lt_add_left hk _) (add_length_le_of_instruction h)
  have hsize' : (Memory.mk (memory.bytes.setIfInBounds (addr.toNat + k) v)).size < 2 ^ 32 := by
    rw [size, Array.size_setIfInBounds]
    exact hsize
  rw [← Instruction.length_encode] at hk
  have hold := (contains_of_instruction hsize h).getElem? hk
  have hnew := (contains_of_instruction hsize' h').getElem? hk
  rw [Array.getElem?_setIfInBounds_self_of_lt hlt] at hnew
  exact hv (hold.trans hnew.symm)

/-- What decodes to an instruction is its encoding, byte for byte. So it is the same bytes wherever
the instruction stands, and none of them can be changed without a change of the instruction. -/
theorem encode_decode (hsize : memory.size < 2 ^ 32) (hd : memory.decode addr = .ok d)
    (hr : d.resolve memory .littleEndian = .ok i) :
    i.encode = memory.slice addr.toNat d.length.toNat ∧
    (memory.slice addr.toNat d.length.toNat).length = d.length.toNat ∧
    (∀ (memory' : Memory) (addr' : UInt32) (d' : Decoded), memory'.size < 2 ^ 32 →
      memory'.decode addr' = .ok d' → d'.resolve memory' .littleEndian = .ok i →
      memory'.slice addr'.toNat d'.length.toNat = memory.slice addr.toNat d.length.toNat) ∧
    ∀ k < d.length.toNat, ∀ v, memory.bytes[addr.toNat + k]? ≠ some v →
      instruction ⟨memory.bytes.setIfInBounds (addr.toNat + k) v⟩ .littleEndian addr ≠ .ok i := by
  have hslice := slice_eq_encode hsize hd hr
  have hlen : i.length = d.length := by
    rw [Instruction.length, Decoded.opcode_of_resolve hr, Decoded.length]
  refine ⟨hslice.symm, ?_, fun memory' addr' d' hsize' hd' hr' => ?_, fun k hk v hv => ?_⟩
  · rw [hslice, Instruction.length_encode, hlen]
  · rw [slice_eq_encode hsize' hd' hr', hslice]
  · rw [← hlen] at hk
    exact instruction_set_ne hsize ((instruction_of_decode hd).trans hr) hk hv

/-- `JEZ 0x04030201` as the end of one memory and at the start of another. -/
theorem encode_decode_jez :
    let memory : Memory := ⟨#[0xff, 0x21, 1, 2, 3, 4]⟩
    let memory' : Memory := ⟨#[0x21, 1, 2, 3, 4, 0x01]⟩
    let d : Decoded := ⟨1, 0x21, .jez, 0, 0⟩
    let d' : Decoded := ⟨0, 0x21, .jez, 0, 0⟩
    let i : Instruction := .jez 0x04030201
    memory.size < 2 ^ 32 ∧ memory.decode 1 = .ok d ∧ d.resolve memory .littleEndian = .ok i ∧
      memory'.size < 2 ^ 32 ∧ memory'.decode 0 = .ok d' ∧
      d'.resolve memory' .littleEndian = .ok i ∧
      i.encode = memory.slice 1 5 ∧ memory'.slice 0 5 = memory.slice 1 5 ∧
      memory.bytes[3]? ≠ some 9 ∧
      instruction ⟨memory.bytes.setIfInBounds 3 9⟩ .littleEndian 1 ≠ .ok i :=
  have h := @encode_decode ⟨#[0xff, 0x21, 1, 2, 3, 4]⟩ 1 ⟨1, 0x21, .jez, 0, 0⟩ (.jez 0x04030201)
    (by decide) rfl rfl
  ⟨by decide, rfl, rfl, by decide, rfl, rfl, h.1,
    h.2.2.1 ⟨#[0x21, 1, 2, 3, 4, 0x01]⟩ 0 ⟨0, 0x21, .jez, 0, 0⟩ (by decide) rfl rfl, by decide,
    h.2.2.2 2 (by decide) 9 (by decide)⟩

end Memory

end Tomtel
