import Tomtel.Instruction.Encode

/-!
# Building programs

A program grows at its end by instructions and data. A forward jump is put down with target 0 and
leaves a `JumpSlot`, the place of its target, for `Program.patch?` to fill in when the target is
known.
-/

namespace Tomtel

structure Program where
  bytes : Array UInt8 := #[]
  deriving DecidableEq, Repr

/-- Where the target of a forward jump stands. -/
structure JumpSlot where
  offset : Nat
  deriving DecidableEq, Repr

namespace Program

/-- The address of the next byte, or the last address if that is too large for 32 bits. -/
def here (program : Program) : UInt32 :=
  if program.bytes.size < UInt32.size then UInt32.ofNat program.bytes.size else 0xffffffff

def data (program : Program) (bytes : List UInt8) : Program :=
  ⟨program.bytes ++ bytes⟩

def emit (program : Program) (i : Instruction) : Program :=
  program.data i.encode

/-- The last four bytes. -/
def lastWord (program : Program) : JumpSlot := ⟨program.bytes.size - 4⟩

/-- A `JEZ` whose target is not known yet. -/
def jezForward (program : Program) : Program × JumpSlot :=
  let program := program.emit (.jez 0)
  (program, program.lastWord)

/-- A `JNZ` whose target is not known yet. -/
def jnzForward (program : Program) : Program × JumpSlot :=
  let program := program.emit (.jnz 0)
  (program, program.lastWord)

/-- Writes a target into a slot. A slot that does not lie within the program is refused. -/
def patch? (program : Program) (slot : JumpSlot) (target : UInt32) : Option Program :=
  if slot.offset + 4 ≤ program.bytes.size then
    some ⟨program.bytes.take slot.offset ++ Word.bytes target ++
      program.bytes.drop (slot.offset + 4)⟩
  else none

end Program

end Tomtel
