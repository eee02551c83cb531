import Tomtel.Opcode
import Tomtel.Register
import Tomtel.Text.Hex

/-!
# Instructions

An instruction is an operation with its operands. Its text is the mnemonic and, after a space, the
operands, if it has any.
-/

namespace Tomtel

inductive Instruction where
  /-- `a ← a + b` -/
  | add
  /-- `ptr ← ptr + imm` -/
  | aptr (imm : UInt8)
  /-- `f ← 0` if `a = b`, else `f ← 1` -/
  | cmp
  | halt
  /-- `pc ← target` if `f = 0` -/
  | jez (target : UInt32)
  /-- `pc ← target` if `f ≠ 0` -/
  | jnz (target : UInt32)
  | mv (dest src : ByteOperand)
  | mv32 (dest src : WideRegister)
  | mvi (dest : ByteOperand) (imm : UInt8)
  | mvi32 (dest : WideRegister) (imm : UInt32)
  /-- Appends `a` to the output. -/
  | out
  /-- `a ← a - b` -/
  | sub
  /-- `a ← a xor b` -/
  | xor
  deriving DecidableEq, Repr

namespace Instruction

def opcode : Instruction → Opcode
  | .add => .add
  | .aptr _ => .aptr
  | .cmp => .cmp
  | .halt => .halt
  | .jez _ => .jez
  | .jnz _ => .jnz
  | .mv .. => .mv
  | .mv32 .. => .mv32
  | .mvi .. => .mvi
  | .mvi32 .. => .mvi32
  | .out => .out
  | .sub => .sub
  | .xor => .xor

/-- The encoded length in bytes. -/
def length (i : Instruction) : UInt8 := i.opcode.length

def mnemonic (i : Instruction) : String := i.opcode.mnemonic

/-- Empty for an operation that takes none. -/
def operands : Instruction → String
  | .add | .sub | .xor => "a <- b"
  | .cmp | .halt => ""
  | .out => "a"
  | .aptr imm => "0x" ++ Hex.byte imm
  | .jez target | .jnz target => "0x" ++ Hex.word target
  | .mv dest src => dest.name ++ " <- " ++ src.name
  | .mv32 dest src => dest.name ++ " <- " ++ src.name
  | .mvi dest imm => dest.name ++ " <- 0x" ++ Hex.byte imm
  | .mvi32 dest imm => dest.name ++ " <- 0x" ++ Hex.word imm

/-- A mnemonic with its operands, or alone if there are none. -/
def line (mnemonic operands : String) : String :=
  if operands = "" then mnemonic else mnemonic ++ " " ++ operands

def text (i : Instruction) : String := line i.mnemonic i.operands

end Instruction

end Tomtel
