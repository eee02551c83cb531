import Tomtel.Instruction.Decode

/-!
# Listings

A listing goes through memory from a start address, one row after the other without a gap. A row
shows one instruction; a byte that starts no complete valid instruction is a row of its own, marked
illegal, so code mixed with data is listed to its end.
-/

namespace Tomtel

structure Row where
  addr : UInt32
  bytes : List UInt8
  mnemonic : String
  operands : String
  illegal : Bool
  deriving DecidableEq, Repr

namespace Row

/-- The row of a byte that starts no instruction. -/
def ofByte (addr : UInt32) (raw : UInt8) : Row where
  addr := addr
  bytes := [raw]
  mnemonic := ".byte"
  operands := "0x" ++ Hex.byte raw ++ " ; ILLEGAL"
  illegal := true

/-- The row of an instruction with these bytes. -/
def ofInstruction (addr : UInt32) (bytes : List UInt8) (i : Instruction) : Row where
  addr := addr
  bytes := bytes
  mnemonic := i.mnemonic
  operands := i.operands
  illegal := false

/-- Mnemonic and operands as they stand in the listing. -/
def text (row : Row) : String := Instruction.line row.mnemonic row.operands

/-- The bytes as hexadecimal pairs with a space between. -/
def hex (row : Row) : String :=
  " ".intercalate (row.bytes.map Hex.byte)

/-- The width of the column of bytes; the longest instruction takes 14 characters of it. -/
def hexWidth : Nat := 15

/-- The bytes filled up with spaces to the width of their column. -/
def hexColumn (row : Row) : String :=
  String.ofList (row.hex.toList.rightpad hexWidth ' ')

/-- The address behind the row, if 32 bits hold it. -/
def next? (row : Row) : Option UInt32 :=
  let next := row.addr.toNat + row.bytes.length
  if next < UInt32.size then some (UInt32.ofNat next) else none

def render (row : Row) : String :=
  Hex.word row.addr ++ ": " ++ row.hexColumn ++ " " ++ row.text

end Row

namespace Memory

/-- The row at `addr`; there is none outside memory. -/
def row? (memory : Memory) (layout : ImmediateLayout) (addr : UInt32) : Option Row :=
  match memory.read addr.toUInt64 with
  | .error _ => none
  | .ok raw =>
    match memory.instruction layout addr with
    | .error _ => some (Row.ofByte addr raw)
    | .ok i =>
      let stop := addr.toNat + i.length.toNat
      some (Row.ofInstruction addr (memory.bytes.extract addr.toNat stop).toList i)

/-- Puts up to `count` rows from `addr` on behind `rows`. -/
def appendRows (memory : Memory) (layout : ImmediateLayout) (rows : Array Row) :
    (count : Nat) → (addr : UInt32) → Array Row
  | 0, _ => rows
  | count + 1, addr =>
    match memory.row? layout addr with
    | none => rows
    | some row =>
      match row.next? with
      | none => rows.push row
      | some next => memory.appendRows layout (rows.push row) count next

/-- Up to `count` rows from `start` on, ending with memory. -/
def listing (memory : Memory) (layout : ImmediateLayout) (start : UInt32) (count : Nat) :
    Array Row :=
  memory.appendRows layout #[] count start

section

variable (memory : Memory) (layout : ImmediateLayout)

theorem appendRows_eq (rows : Array Row) (count : Nat) (addr : UInt32) :
    memory.appendRows layout rows count addr = rows ++ memory.listing layout addr count := by
  induction count generalizing rows addr with
  | zero => simp [listing, appendRows]
  | succ count ih =>
    rw [listing, appendRows, appendRows]
    cases memory.row? layout addr with
    | none => simp
    | some row =>
      dsimp only
      cases row.next? with
      | none => simp
      | some next =>
        dsimp only
        rw [ih (rows.push row), ih (#[].push row)]
        simp

theorem listing_zero (start : UInt32) : memory.listing layout start 0 = #[] := rfl

theorem listing_succ (start : UInt32) (count : Nat) :
    memory.listing layout start (count + 1) =
      match memory.row? layout start with
      | none => #[]
      | some row =>
        match row.next? with
        | none => #[row]
        | some next => #[row] ++ memory.listing layout next count := by
  rw [listing, appendRows]
  cases memory.row? layout start with
  | none => rfl
  | some row =>
    dsimp only
    cases row.next? with
    | none => rfl
    | some next => exact memory.appendRows_eq layout #[row] count next

end

end Memory

end Tomtel
