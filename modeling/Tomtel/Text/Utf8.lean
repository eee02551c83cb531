/-!
# Text from bytes that may not be UTF-8

`Utf8.decodeLossy` reads well-formed UTF-8 as it stands. Where a sequence breaks off, the bytes read
of it so far (at least its first) become one replacement character and reading goes on behind them.
-/

namespace Tomtel.Utf8

/-- What the first byte of a sequence says about the bytes after it. -/
structure Lead where
  /-- How many bytes follow. -/
  extra : Nat
  /-- The least value of the first of them, which rules out overlong forms. -/
  low : UInt8
  /-- The greatest value of the first of them, which rules out surrogates and the range above
  `0x10ffff`. -/
  high : UInt8
  /-- The part of the scalar value held by the first byte. -/
  bits : Nat

/-- A byte that can start no sequence has no lead. -/
def Lead.ofByte? (b : UInt8) : Option Lead :=
  if b < 0x80 then some ⟨0, 0x80, 0xbf, b.toNat⟩
  else if b < 0xc2 then none
  else if b < 0xe0 then some ⟨1, 0x80, 0xbf, b.toNat - 0xc0⟩
  else if b = 0xe0 then some ⟨2, 0xa0, 0xbf, 0⟩
  else if b = 0xed then some ⟨2, 0x80, 0x9f, 0xd⟩
  else if b < 0xf0 then some ⟨2, 0x80, 0xbf, b.toNat - 0xe0⟩
  else if b = 0xf0 then some ⟨3, 0x90, 0xbf, 0⟩
  else if b < 0xf4 then some ⟨3, 0x80, 0xbf, b.toNat - 0xf0⟩
  else if b = 0xf4 then some ⟨3, 0x80, 0x8f, 4⟩
  else none

/-- Reads `extra` following bytes into `value`, the first of them between `low` and `high`. The
answer is the value, or `none` if a byte is missing or out of range, and how many were read. -/
def follow : (extra : Nat) → (low high : UInt8) → (value : Nat) → List UInt8 → Option Nat × Nat
  | 0, _, _, value, _ => (some value, 0)
  | _ + 1, _, _, _, [] => (none, 0)
  | extra + 1, low, high, value, b :: rest =>
    if low ≤ b ∧ b ≤ high then
      let (result, read) := follow extra 0x80 0xbf (value * 64 + (b.toNat - 0x80)) rest
      (result, read + 1)
    else (none, 0)

def replacement : Char := '\uFFFD'

/-- The character that starts with `b`, and how many bytes of `rest` belong to it. -/
def next (b : UInt8) (rest : List UInt8) : Char × Nat :=
  match Lead.ofByte? b with
  | none => (replacement, 0)
  | some lead =>
    match follow lead.extra lead.low lead.high lead.bits rest with
    | (some value, read) => (Char.ofNat value, read)
    | (none, read) => (replacement, read)

def appendLossy (text : String) : List UInt8 → String
  | [] => text
  | b :: rest => appendLossy (text.push (next b rest).1) (rest.drop (next b rest).2)
termination_by bytes => bytes.length
decreasing_by
  rw [List.length_drop, List.length_cons]
  omega

def decodeLossy (bytes : List UInt8) : String :=
  appendLossy "" bytes

end Tomtel.Utf8
