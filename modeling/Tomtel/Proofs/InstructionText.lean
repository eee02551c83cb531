import Tomtel.Proofs.Layouts
import Tomtel.Proofs.Lossless

/-!
# The text of instructions

The mnemonic ends with the first space of the text and names the operation; the operands of one
operation have one form each. So two instructions never have the same text, and a row of a listing
tells by its text which instruction it shows: `Instruction.text_unambiguous`.
-/

namespace Tomtel

/-! ### Names and numerals -/

namespace Hex

theorem padded_inj {width m n : Nat} (hm : m < 16 ^ width) (hn : n < 16 ^ width) :
    padded width m = padded width n ↔ m = n := by
  constructor
  · intro h
    have hvalue := congrArg (fun s => value s.toList) h
    simp only [padded, String.toList_ofList, value_digits] at hvalue
    rwa [Nat.mod_eq_of_lt hm, Nat.mod_eq_of_lt hn] at hvalue
  · rintro rfl
    rfl

theorem byte_inj {b c : UInt8} : byte b = byte c ↔ b = c := by
  rw [byte, byte, padded_inj b.toNat_lt c.toNat_lt, UInt8.toNat_inj]

theorem word_inj {v w : UInt32} : word v = word w ↔ v = w := by
  rw [word, word, padded_inj v.toNat_lt w.toNat_lt, UInt32.toNat_inj]

end Hex

theorem Opcode.mnemonic_inj {o o' : Opcode} : o.mnemonic = o'.mnemonic ↔ o = o' := by
  cases o <;> cases o' <;> decide

theorem WideRegister.name_inj {r s : WideRegister} : r.name = s.name ↔ r = s := by
  cases r <;> cases s <;> decide

theorem WideRegister.space_notMem_name (r : WideRegister) : ' ' ∉ r.name.toList := by
  cases r <;> decide

theorem ByteOperand.name_inj {x y : ByteOperand} : x.name = y.name ↔ x = y := by
  rcases x with r | _ <;> rcases y with s | _
  · cases r <;> cases s <;> decide
  · cases r <;> decide
  · cases s <;> decide
  · decide

theorem ByteOperand.space_notMem_name (x : ByteOperand) : ' ' ∉ x.name.toList := by
  rcases x with r | _
  · cases r <;> decide
  · decide

namespace Instruction

variable {i j : Instruction} {dest dest' src src' mnemonic operands : String}

/-! ### The text cut at its first space -/

/-- The text in front of the first space and behind it. There is nothing behind if there is no
space. -/
def cut (text : String) : String × String :=
  let front := text.toList.takeWhile (· ≠ ' ')
  (.ofList front, .ofList (text.toList.drop (front.length + 1)))

theorem cut_line (h : ' ' ∉ mnemonic.toList) (operands : String) :
    cut (line mnemonic operands) = (mnemonic, operands) := by
  simp only [cut, takeWhile_line h, drop_line, String.ofList_toList]

theorem cut_text (i : Instruction) : cut i.text = (i.opcode.mnemonic, i.operands) :=
  cut_line i.opcode.space_notMem_mnemonic i.operands

theorem operands_eq_empty_iff (i : Instruction) : i.operands = "" ↔ i = .cmp ∨ i = .halt := by
  cases i <;> simp [operands]

/-! ### Operands -/

/-- A destination ends with the first space, as a mnemonic does. -/
theorem cut_arrow (h : ' ' ∉ dest.toList) (src : String) :
    cut (dest ++ " <- " ++ src) = (dest, "<- " ++ src) := by
  have hline : dest ++ " <- " ++ src = line dest ("<- " ++ src) := by
    apply String.toList_inj.1
    simp [line]
  rw [hline, cut_line h]

theorem arrow_inj (h : ' ' ∉ dest.toList) (h' : ' ' ∉ dest'.toList)
    (he : dest ++ " <- " ++ src = dest' ++ " <- " ++ src') : dest = dest' ∧ src = src' := by
  have hcut := congrArg cut he
  rw [cut_arrow h, cut_arrow h', Prod.mk.injEq] at hcut
  simpa using hcut

theorem arrow_hex_inj (h : ' ' ∉ dest.toList) (h' : ' ' ∉ dest'.toList)
    (he : dest ++ " <- 0x" ++ src = dest' ++ " <- 0x" ++ src') : dest = dest' ∧ src = src' := by
  have harrow : ∀ x y : String, x ++ " <- 0x" ++ y = x ++ " <- " ++ ("0x" ++ y) := by
    intro x y
    apply String.toList_inj.1
    simp
  rw [harrow, harrow] at he
  simpa using arrow_inj h h' he

/-- The operands tell two instructions of one operation apart. -/
theorem eq_of_operands (ho : i.opcode = j.opcode) (h : i.operands = j.operands) : i = j := by
  -- the same constructor on both sides; one without operands leaves nothing to show
  cases i <;> cases j <;> cases ho <;> try rfl
  case aptr.aptr.refl imm imm' => simpa [operands, Hex.byte_inj] using h
  case jez.jez.refl target target' | jnz.jnz.refl target target' =>
    simpa [operands, Hex.word_inj] using h
  case mv.mv.refl dest src dest' src' =>
    obtain ⟨hdest, hsrc⟩ := arrow_inj dest.space_notMem_name dest'.space_notMem_name h
    rw [ByteOperand.name_inj.1 hdest, ByteOperand.name_inj.1 hsrc]
  case mv32.mv32.refl dest src dest' src' =>
    obtain ⟨hdest, hsrc⟩ := arrow_inj dest.space_notMem_name dest'.space_notMem_name h
    rw [WideRegister.name_inj.1 hdest, WideRegister.name_inj.1 hsrc]
  case mvi.mvi.refl dest imm dest' imm' =>
    obtain ⟨hdest, himm⟩ := arrow_hex_inj dest.space_notMem_name dest'.space_notMem_name h
    rw [ByteOperand.name_inj.1 hdest, Hex.byte_inj.1 himm]
  case mvi32.mvi32.refl dest imm dest' imm' =>
    obtain ⟨hdest, himm⟩ := arrow_hex_inj dest.space_notMem_name dest'.space_notMem_name h
    rw [WideRegister.name_inj.1 hdest, Hex.word_inj.1 himm]

theorem eq_of_mnemonic_operands (hm : i.mnemonic = j.mnemonic) (ho : i.operands = j.operands) :
    i = j :=
  eq_of_operands (Opcode.mnemonic_inj.1 hm) ho

theorem eq_of_text (h : i.text = j.text) : i = j := by
  have hcut := congrArg cut h
  rw [cut_text, cut_text, Prod.mk.injEq] at hcut
  exact eq_of_mnemonic_operands hcut.1 hcut.2

end Instruction

/-! ### Rows -/

namespace Memory

variable {memory : Memory} {layout : ImmediateLayout} {addr : UInt32} {i : Instruction} {row : Row}

theorem slice_encode (h : memory.instruction .littleEndian addr = .ok i) :
    memory.slice addr.toNat i.length.toNat = i.encode := by
  obtain ⟨j, hj, rfl⟩ := exists_encode_of_instruction h
  rw [Instruction.mapWord_view_littleEndian, ← j.length_encode]
  exact hj.slice_eq

/-- A legal row shows an instruction. -/
theorem exists_instruction_of_legal (hrow : memory.row? layout addr = some row)
    (hlegal : row.illegal = false) : ∃ i, memory.instruction layout addr = .ok i ∧
      row = Row.ofInstruction addr (memory.slice addr.toNat i.length.toNat) i :=
  exists_instruction_of_row? hrow fun hbyte => Bool.false_ne_true (hlegal.symm.trans hbyte.1)

end Memory

theorem Row.Legible.cut_text {row : Row} (h : row.Legible) :
    Instruction.cut row.text = (row.mnemonic, row.operands) :=
  Instruction.cut_line h.mnemonic row.operands

/-- Whether a row is illegal shows in its text. -/
theorem Row.Legible.illegal_congr {row row' : Row} (h : row.Legible) (h' : row'.Legible)
    (htext : row.text = row'.text) : row.illegal = row'.illegal := by
  have hcut := congrArg Instruction.cut htext
  rw [h.cut_text, h'.cut_text, Prod.mk.injEq] at hcut
  rw [h.illegal, h'.illegal, hcut.1]

namespace Instruction

/-- Two instructions with the same text are the same. Cut at its first space, a text falls into the
mnemonic of the operation and the operands, which are empty for `CMP` and `HALT` alone. So the
mnemonic and the operands of a legal row are those of one instruction only, which stands at its
address, and little-endian bytes are its encoding. No legal row has the text of an illegal one. -/
theorem text_unambiguous :
    (∀ i j : Instruction, i.text = j.text → i = j) ∧
    (∀ i : Instruction, cut i.text = (i.opcode.mnemonic, i.operands) ∧
      (i.operands = "" ↔ i = .cmp ∨ i = .halt)) ∧
    (∀ (memory : Memory) (layout : ImmediateLayout) (addr : UInt32) (row : Row),
      memory.row? layout addr = some row → row.illegal = false →
        ∃ i, memory.instruction layout addr = .ok i ∧
          (∀ j : Instruction, j.mnemonic = row.mnemonic ∧ j.operands = row.operands ↔ j = i) ∧
          (layout = .littleEndian → row.bytes = i.encode)) ∧
    ∀ (memory memory' : Memory) (layout layout' : ImmediateLayout) (addr addr' : UInt32)
      (row row' : Row), memory.row? layout addr = some row → memory'.row? layout' addr' = some row' →
        row.illegal = false → row'.illegal = true → row.text ≠ row'.text := by
  refine ⟨fun i j => eq_of_text, fun i => ⟨cut_text i, operands_eq_empty_iff i⟩, ?_, ?_⟩
  · intro memory layout addr row hrow hlegal
    obtain ⟨i, hi, rfl⟩ := Memory.exists_instruction_of_legal hrow hlegal
    refine ⟨i, hi, fun j => ⟨fun h => eq_of_mnemonic_operands h.1 h.2, ?_⟩, ?_⟩
    · rintro rfl
      exact ⟨rfl, rfl⟩
    · rintro rfl
      exact Memory.slice_encode hi
  · intro memory memory' layout layout' addr addr' row row' hrow hrow' hlegal hillegal htext
    have hsame := (Memory.legible_of_row? hrow).illegal_congr (Memory.legible_of_row? hrow') htext
    rw [hlegal, hillegal] at hsame
    exact Bool.false_ne_true hsame

/-- `MVI (ptr+c) <- 0x05` in front of a byte that is none. -/
theorem text_unambiguous_store :
    let memory : Memory := ⟨#[0x78, 0x05, 0xff]⟩
    let i : Instruction := .mvi .cell 0x05
    let row := Row.ofInstruction 0 [0x78, 0x05] i
    let row' := Row.ofByte 2 0xff
    memory.row? .littleEndian 0 = some row ∧ memory.row? .littleEndian 2 = some row' ∧
      row.illegal = false ∧ row'.illegal = true ∧
      cut i.text = ("MVI", "(ptr+c) <- 0x05") ∧ row.bytes = i.encode ∧ row.text ≠ row'.text ∧
      ∀ j : Instruction, j.text = "MVI (ptr+c) <- 0x05" → j = i := by
  intro memory i row row'
  obtain ⟨htext, hcut, hlegal, hillegal⟩ := text_unambiguous
  have hrow : memory.row? .littleEndian 0 = some row := by decide
  have hrow' : memory.row? .littleEndian 2 = some row' := by decide
  obtain ⟨j, hj, -, hbytes⟩ := hlegal _ _ _ _ hrow rfl
  obtain rfl : j = i := by
    have hi : memory.instruction .littleEndian 0 = .ok i := by decide
    rw [hi] at hj
    cases hj
    rfl
  exact ⟨hrow, hrow', rfl, rfl, (hcut _).1, hbytes rfl,
    hillegal _ _ _ _ _ _ _ _ hrow hrow' rfl rfl, fun j h => htext j _ h⟩

end Instruction

end Tomtel
