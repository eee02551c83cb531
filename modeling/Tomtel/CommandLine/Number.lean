/-!
# Numbers on the command line

A number is decimal, or hexadecimal behind `0x` or `0X`. A plus sign may stand before the digits.
There is at least one digit, leading zeros are free, and the value is below `2 ^ 64`.
-/

namespace Tomtel.Number

/-- The value of a digit in a base up to 36, letters of either case standing for ten and up. -/
def digit? (base : Nat) (b : UInt8) : Option Nat :=
  let value? :=
    if 0x30 ≤ b ∧ b ≤ 0x39 then some (b.toNat - 0x30)
    else if 0x41 ≤ b ∧ b ≤ 0x5a then some (b.toNat - 0x41 + 10)
    else if 0x61 ≤ b ∧ b ≤ 0x7a then some (b.toNat - 0x61 + 10)
    else none
  value?.filter (· < base)

/-- Reads digits behind others that have the value `value`. -/
def digits? (base value : Nat) : List UInt8 → Option Nat
  | [] => some value
  | b :: rest =>
    match digit? base b with
    | some d => digits? base (value * base + d) rest
    | none => none

/-- The base that the start of a number names, and what follows. -/
def base : List UInt8 → Nat × List UInt8
  | 0x30 :: 0x78 :: rest => (16, rest)
  | 0x30 :: 0x58 :: rest => (16, rest)
  | bytes => (10, bytes)

def dropSign : List UInt8 → List UInt8
  | 0x2b :: rest => rest
  | bytes => bytes

def parse? (bytes : List UInt8) : Option UInt64 :=
  let (radix, rest) := base bytes
  match dropSign rest with
  | [] => none
  | digits =>
    match digits? radix 0 digits with
    | some value => if value < UInt64.size then some (UInt64.ofNat value) else none
    | none => none

end Tomtel.Number
