import Tomtel.Instruction
import Tomtel.Memory

/-!
# Decoding

Decoding has two steps. `Memory.decode` looks at the first byte alone and finds the operation and
the two selectors (`Decoded`). `Decoded.resolve` then looks the selectors up and reads the
immediate, the destination first, then the source, then the immediate, and the first that fails is
the fault.
-/

namespace Tomtel

/-- Looks a selector up in the byte family. -/
def ByteOperand.select (selector : UInt8) : Except Fault ByteOperand :=
  match ByteOperand.ofSelector? selector with
  | some operand => .ok operand
  | none => .error (.registerOutOfBounds .byte selector)

/-- Looks a selector up in the wide family. -/
def WideRegister.select (selector : UInt8) : Except Fault WideRegister :=
  match WideRegister.ofSelector? selector with
  | some register => .ok register
  | none => .error (.registerOutOfBounds .wide selector)

/-- What the first byte of an instruction says. -/
structure Decoded where
  /-- Where the byte stands. -/
  addr : UInt32
  raw : UInt8
  opcode : Opcode
  /-- The destination selector of a move, else zero. -/
  dest : UInt8
  /-- The source selector of a move, else zero. -/
  src : UInt8
  deriving DecidableEq, Repr

namespace Decoded

def ofByte (addr : UInt32) (raw : UInt8) : Except Fault Decoded :=
  match Opcode.ofByte? raw with
  | none => .error (.unsupportedOpcode addr raw)
  | some opcode =>
    if opcode.isMove then
      .ok ⟨addr, raw, opcode, Opcode.destSelector raw, Opcode.srcSelector raw⟩
    else .ok ⟨addr, raw, opcode, 0, 0⟩

/-- The encoded length in bytes. -/
def length (d : Decoded) : UInt8 := d.opcode.length

/-- The address behind the instruction, modulo `2 ^ 32`. -/
def next (d : Decoded) : UInt32 := d.addr + d.length.toUInt32

/-- Where the immediate stands, in 64 bits so that it does not wrap. -/
def immediateAddress (d : Decoded) : UInt64 := d.addr.toUInt64 + 1

def byteImmediate (d : Decoded) (memory : Memory) : Except Fault UInt8 :=
  memory.read d.immediateAddress

/-- An immediate that would start behind the last 32-bit address is a fault at that place. -/
def wordImmediate (d : Decoded) (memory : Memory) (layout : ImmediateLayout) :
    Except Fault UInt32 :=
  if d.immediateAddress < 0x100000000 then memory.readWord layout d.immediateAddress
  else .error (.memoryOutOfBounds d.immediateAddress memory.length)

/-- The instruction with its operands looked up and its immediate read. -/
def resolve (d : Decoded) (memory : Memory) (layout : ImmediateLayout) :
    Except Fault Instruction :=
  match d.opcode with
  | .add => return .add
  | .aptr => return .aptr (← d.byteImmediate memory)
  | .cmp => return .cmp
  | .halt => return .halt
  | .jez => return .jez (← d.wordImmediate memory layout)
  | .jnz => return .jnz (← d.wordImmediate memory layout)
  | .mv => return .mv (← ByteOperand.select d.dest) (← ByteOperand.select d.src)
  | .mv32 => return .mv32 (← WideRegister.select d.dest) (← WideRegister.select d.src)
  | .mvi => return .mvi (← ByteOperand.select d.dest) (← d.byteImmediate memory)
  | .mvi32 => return .mvi32 (← WideRegister.select d.dest) (← d.wordImmediate memory layout)
  | .out => return .out
  | .sub => return .sub
  | .xor => return .xor

end Decoded

namespace Memory

def decode (memory : Memory) (addr : UInt32) : Except Fault Decoded :=
  match memory.read addr.toUInt64 with
  | .ok raw => Decoded.ofByte addr raw
  | .error fault => .error fault

/-- The instruction that starts at `addr`. -/
def instruction (memory : Memory) (layout : ImmediateLayout) (addr : UInt32) :
    Except Fault Instruction :=
  match memory.decode addr with
  | .ok decoded => decoded.resolve memory layout
  | .error fault => .error fault

end Memory

end Tomtel
