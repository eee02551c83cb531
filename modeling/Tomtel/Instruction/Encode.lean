import Tomtel.Instruction
import Tomtel.Word

/-!
# Encoding

An instruction is written as its lead byte and then its immediate, least significant byte first.
`length_encode` says that this takes as many bytes as the opcode announces.
-/

namespace Tomtel.Instruction

/-- The first byte: the opcode, with the selectors in a move. -/
def lead : Instruction → UInt8
  | .mv dest src => Opcode.encodeMove Opcode.byteMove dest.selector src.selector
  | .mvi dest _ => Opcode.encodeMove Opcode.byteMove dest.selector 0
  | .mv32 dest src => Opcode.encodeMove Opcode.wideMove dest.selector src.selector
  | .mvi32 dest _ => Opcode.encodeMove Opcode.wideMove dest.selector 0
  | i => i.opcode.fixedByte?.getD 0

/-- The bytes after the first. -/
def immediate : Instruction → List UInt8
  | .aptr imm | .mvi _ imm => [imm]
  | .jez target | .jnz target => Word.bytes target
  | .mvi32 _ imm => Word.bytes imm
  | _ => []

def encode (i : Instruction) : List UInt8 := i.lead :: i.immediate

theorem length_encode (i : Instruction) : i.encode.length = i.length.toNat := by
  cases i <;> rfl

theorem ofByte?_byteMove (dest src : ByteOperand) :
    Opcode.ofByte? (Opcode.encodeMove Opcode.byteMove dest.selector src.selector) = some .mv := by
  rcases dest with x | _ <;> rcases src with y | _ <;> try cases x
  all_goals try cases y
  all_goals rfl

theorem ofByte?_byteMove_zero (dest : ByteOperand) :
    Opcode.ofByte? (Opcode.encodeMove Opcode.byteMove dest.selector 0) = some .mvi := by
  rcases dest with x | _ <;> try cases x
  all_goals rfl

theorem ofByte?_wideMove (dest src : WideRegister) :
    Opcode.ofByte? (Opcode.encodeMove Opcode.wideMove dest.selector src.selector) =
      some .mv32 := by
  cases dest <;> cases src <;> rfl

theorem ofByte?_wideMove_zero (dest : WideRegister) :
    Opcode.ofByte? (Opcode.encodeMove Opcode.wideMove dest.selector 0) = some .mvi32 := by
  cases dest <;> rfl

/-- The lead byte announces the operation. -/
theorem ofByte?_lead (i : Instruction) : Opcode.ofByte? i.lead = some i.opcode := by
  cases i with
  | mv dest src => exact ofByte?_byteMove dest src
  | mvi dest imm => exact ofByte?_byteMove_zero dest
  | mv32 dest src => exact ofByte?_wideMove dest src
  | mvi32 dest imm => exact ofByte?_wideMove_zero dest
  | _ => exact Opcode.ofByte?_fixedByte? rfl

end Tomtel.Instruction
