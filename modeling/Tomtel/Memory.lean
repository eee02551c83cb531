import Tomtel.Fault
import Tomtel.Word

/-!
# Memory

One flat array of bytes holds code and data. Every access is checked: an address at or above the
size of the image is a fault, never a wrap-around.

A 32-bit immediate is four bytes, least significant first (`ImmediateLayout.littleEndian`). The
legacy layout takes bits 16 to 23 from the fourth byte, so the two agree exactly when the third and
the fourth byte are equal (`assemble_eq_assemble_iff`).
-/

namespace Tomtel

inductive ImmediateLayout where
  | littleEndian
  /-- The fourth byte also stands for the third. -/
  | legacyDuplicatedHighByte
  deriving DecidableEq, Repr

namespace ImmediateLayout

/-- How many bytes a 32-bit immediate takes. -/
def immediateSize : Nat := 4

/-- The value of an immediate with these bytes in memory order. -/
def assemble (layout : ImmediateLayout) (b₀ b₁ b₂ b₃ : UInt8) : UInt32 :=
  match layout with
  | .littleEndian => Word.ofBytes b₀ b₁ b₂ b₃
  | .legacyDuplicatedHighByte => Word.ofBytes b₀ b₁ b₃ b₃

theorem assemble_eq_assemble_iff {b₀ b₁ b₂ b₃ : UInt8} :
    littleEndian.assemble b₀ b₁ b₂ b₃ = legacyDuplicatedHighByte.assemble b₀ b₁ b₂ b₃ ↔
      b₂ = b₃ := by
  constructor
  · intro h
    have h' := congrArg Word.bytes h
    simp only [assemble, Word.bytes_ofBytes] at h'
    simp at h'
    exact h'
  · rintro rfl
    rfl

end ImmediateLayout

structure Memory where
  bytes : Array UInt8
  deriving DecidableEq, Repr

namespace Memory

def zeroed (size : Nat) : Memory := ⟨Array.replicate size 0⟩

def size (memory : Memory) : Nat := memory.bytes.size

/-- The size as it stands in faults and log lines. -/
def length (memory : Memory) : UInt64 := memory.size.toUInt64

/-- The position that an address names in an image of `size` bytes. -/
def index (addr : UInt64) (size : Nat) : Except Fault (Fin size) :=
  if h : addr.toNat < size then .ok ⟨addr.toNat, h⟩
  else .error (.memoryOutOfBounds addr size.toUInt64)

def read (memory : Memory) (addr : UInt64) : Except Fault UInt8 :=
  match index addr memory.bytes.size with
  | .ok i => .ok memory.bytes[i]
  | .error fault => .error fault

def write (memory : Memory) (addr : UInt64) (v : UInt8) : Except Fault Memory :=
  match index addr memory.bytes.size with
  | .ok i => .ok ⟨memory.bytes.set i v⟩
  | .error fault => .error fault

/-- The 32-bit immediate at `addr`. The last of its bytes is checked first, so a fault names that
byte. -/
def readWord (memory : Memory) (layout : ImmediateLayout) (addr : UInt64) :
    Except Fault UInt32 := do
  let b₃ ← memory.read (addr + 3)
  let b₀ ← memory.read addr
  let b₁ ← memory.read (addr + 1)
  let b₂ ← memory.read (addr + 2)
  return layout.assemble b₀ b₁ b₂ b₃

def fill (memory : Memory) (v : UInt8) : Memory :=
  ⟨memory.bytes.map fun _ => v⟩

theorem read_of_lt {memory : Memory} {addr : UInt64} (h : addr.toNat < memory.bytes.size) :
    memory.read addr = .ok memory.bytes[addr.toNat] := by
  simp [read, index, h]

theorem read_of_ge {memory : Memory} {addr : UInt64} (h : memory.bytes.size ≤ addr.toNat) :
    memory.read addr = .error (.memoryOutOfBounds addr memory.length) := by
  simp [read, index, Nat.not_lt.mpr h, length, size]

end Memory

end Tomtel
