import Tomtel.Register
import Tomtel.Text.Hex

/-!
# Faults

A fault says why an instruction could not be carried out. It ends a run and stays with the machine
until a reset.
-/

namespace Tomtel

inductive Fault where
  /-- The byte at `addr` starts no instruction. -/
  | unsupportedOpcode (addr : UInt32) (byte : UInt8)
  /-- There is no cell at `addr` in an image of `size` bytes. -/
  | memoryOutOfBounds (addr size : UInt64)
  /-- The selector names no register of its family. -/
  | registerOutOfBounds (family : RegisterFamily) (selector : UInt8)
  deriving DecidableEq, Repr

/-- The two kinds of fault that a host tells apart. -/
inductive FaultClass where
  | unsupportedOpcode | outOfBounds
  deriving DecidableEq, Repr

namespace Fault

def kind : Fault → FaultClass
  | .unsupportedOpcode .. => .unsupportedOpcode
  | .memoryOutOfBounds .. => .outOfBounds
  | .registerOutOfBounds .. => .outOfBounds

def message : Fault → String
  | .unsupportedOpcode addr byte =>
    "unsupported opcode 0x" ++ Hex.byte byte ++ " at address 0x" ++ Hex.word addr
  | .memoryOutOfBounds addr size =>
    "memory access at 0x" ++ Hex.minimal addr.toNat ++ " outside " ++ size.toNat.repr ++
      "-byte image"
  | .registerOutOfBounds family selector =>
    "register selector " ++ selector.toNat.repr ++ " is invalid for " ++ family.name ++
      " registers"

end Fault

end Tomtel
