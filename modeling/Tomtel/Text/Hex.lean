/-!
# Hexadecimal numerals

`Hex.padded` writes a number with a fixed count of lower-case digits, `Hex.minimal` with as few as
it needs. A byte fits two digits and an address eight, so `Hex.byte` and `Hex.word` lose nothing.
-/

namespace Tomtel.Hex

/-- The last `width` hexadecimal digits of `n`, most significant first. -/
def digits : (width : Nat) → (n : Nat) → List Char
  | 0, _ => []
  | width + 1, n => digits width (n / 16) ++ [Nat.digitChar (n % 16)]

theorem length_digits (width n : Nat) : (digits width n).length = width := by
  induction width generalizing n with
  | zero => rfl
  | succ width ih => simp [digits, ih]

def padded (width n : Nat) : String :=
  String.ofList (digits width n)

/-- `n` with no leading zeros. -/
def minimal (n : Nat) : String :=
  String.ofList (Nat.toDigits 16 n)

def byte (b : UInt8) : String :=
  padded 2 b.toNat

def word (w : UInt32) : String :=
  padded 8 w.toNat

end Tomtel.Hex
