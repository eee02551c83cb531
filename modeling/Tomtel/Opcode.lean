/-!
# Opcodes

The first byte of an instruction says which of the thirteen operations it is. A byte whose top two
bits are `01` or `10` is a move: bits 3 to 5 select the destination and bits 0 to 2 the source, and
a zero source marks the immediate form. Every other operation has one byte of its own, listed in
`Opcode.fixedTable`; the bytes outside both sets start no instruction.
-/

namespace Tomtel

inductive Opcode where
  | add | aptr | cmp | halt | jez | jnz | mv | mv32 | mvi | mvi32 | out | sub | xor
  deriving DecidableEq, Repr

namespace Opcode

/-- The bytes of an instruction, its immediate included. -/
def length : Opcode → UInt8
  | .aptr | .mvi => 2
  | .jez | .jnz | .mvi32 => 5
  | _ => 1

def mnemonic : Opcode → String
  | .add => "ADD"
  | .aptr => "APTR"
  | .cmp => "CMP"
  | .halt => "HALT"
  | .jez => "JEZ"
  | .jnz => "JNZ"
  | .mv => "MV"
  | .mv32 => "MV32"
  | .mvi => "MVI"
  | .mvi32 => "MVI32"
  | .out => "OUT"
  | .sub => "SUB"
  | .xor => "XOR"

def isMove : Opcode → Bool
  | .mv | .mv32 | .mvi | .mvi32 => true
  | _ => false

/-! ### Moves -/

/-- The bits that hold the family of a move. -/
def familyMask : UInt8 := 0xc0

def byteMove : UInt8 := 0x40

def wideMove : UInt8 := 0x80

/-- The bits of one selector. -/
def selectorMask : UInt8 := 7

def destSelector (byte : UInt8) : UInt8 := (byte >>> 3) &&& selectorMask

def srcSelector (byte : UInt8) : UInt8 := byte &&& selectorMask

/-- The family bits of a move with bit 0 set for the register form. -/
def moveCode? (byte : UInt8) : Option UInt8 :=
  let family := byte &&& familyMask
  if family = byteMove ∨ family = wideMove then
    some (if srcSelector byte = 0 then family else family ||| 1)
  else none

def encodeMove (family dest src : UInt8) : UInt8 :=
  (family &&& familyMask) ||| ((dest &&& selectorMask) <<< 3) ||| (src &&& selectorMask)

/-! ### Operations with a byte of their own -/

def fixedTable : List (UInt8 × Opcode) :=
  [(0xc2, .add), (0xe1, .aptr), (0xc1, .cmp), (0x01, .halt), (0x21, .jez), (0x22, .jnz),
    (0x02, .out), (0xc3, .sub), (0xc4, .xor)]

def fixedByte? (opcode : Opcode) : Option UInt8 :=
  (fixedTable.find? fun entry => entry.2 = opcode).map Prod.fst

def ofByte? (byte : UInt8) : Option Opcode :=
  match moveCode? byte with
  | some 0x41 => some .mv
  | some 0x40 => some .mvi
  | some 0x81 => some .mv32
  | some 0x80 => some .mvi32
  | some _ => none
  | none => (fixedTable.find? fun entry => entry.1 = byte).map Prod.snd

/-- Exactly the moves have no byte of their own. -/
theorem fixedByte?_eq_none_iff (opcode : Opcode) :
    opcode.fixedByte? = none ↔ opcode.isMove = true := by
  cases opcode <;> decide

theorem ofByte?_fixedByte? {opcode : Opcode} {byte : UInt8} (h : opcode.fixedByte? = some byte) :
    ofByte? byte = some opcode := by
  cases opcode <;> simp [fixedByte?, fixedTable] at h <;> subst h <;> rfl

end Opcode

end Tomtel
