/-!
# Words as bytes

A 32-bit word is the sum of its four bytes, least significant first. `Word.ofBytes` and `Word.bytes`
are inverse to each other.
-/

namespace Tomtel.Word

/-- The word with these bytes, least significant first. -/
def ofBytes (b₀ b₁ b₂ b₃ : UInt8) : UInt32 :=
  UInt32.ofNat (b₀.toNat + 256 * (b₁.toNat + 256 * (b₂.toNat + 256 * b₃.toNat)))

/-- The byte of weight `256 ^ k`. -/
def byte (w : UInt32) (k : Nat) : UInt8 :=
  UInt8.ofNat (w.toNat >>> (8 * k))

/-- The four bytes of a word, least significant first. -/
def bytes (w : UInt32) : List UInt8 :=
  [byte w 0, byte w 1, byte w 2, byte w 3]

theorem toNat_ofBytes (b₀ b₁ b₂ b₃ : UInt8) :
    (ofBytes b₀ b₁ b₂ b₃).toNat =
      b₀.toNat + 256 * (b₁.toNat + 256 * (b₂.toNat + 256 * b₃.toNat)) := by
  have h₀ := b₀.toNat_lt
  have h₁ := b₁.toNat_lt
  have h₂ := b₂.toNat_lt
  have h₃ := b₃.toNat_lt
  rw [ofBytes, UInt32.toNat_ofNat']
  exact Nat.mod_eq_of_lt (by omega)

theorem ofBytes_bytes (w : UInt32) :
    ofBytes (byte w 0) (byte w 1) (byte w 2) (byte w 3) = w := by
  apply UInt32.toNat_inj.mp
  have h := w.toNat_lt
  simp only [toNat_ofBytes, byte, UInt8.toNat_ofNat']
  omega

theorem bytes_ofBytes (b₀ b₁ b₂ b₃ : UInt8) :
    bytes (ofBytes b₀ b₁ b₂ b₃) = [b₀, b₁, b₂, b₃] := by
  have h₀ := b₀.toNat_lt
  have h₁ := b₁.toNat_lt
  have h₂ := b₂.toNat_lt
  have h₃ := b₃.toNat_lt
  simp only [bytes, byte, toNat_ofBytes, List.cons.injEq, and_true]
  refine ⟨?_, ?_, ?_, ?_⟩ <;>
    (apply UInt8.toNat_inj.mp; rw [UInt8.toNat_ofNat']; omega)

theorem length_bytes (w : UInt32) : (bytes w).length = 4 := rfl

end Tomtel.Word
