import Tomtel.Text.Utf8

/-!
# Output

The bytes that a program has written, in order. A program can add to them and do nothing else.
-/

namespace Tomtel

structure Output where
  bytes : Array UInt8 := #[]
  deriving DecidableEq, Repr

namespace Output

def push (output : Output) (b : UInt8) : Output := ⟨output.bytes.push b⟩

def size (output : Output) : Nat := output.bytes.size

/-- The output read as text, with a replacement character wherever it is not UTF-8. -/
def text (output : Output) : String := Utf8.decodeLossy output.bytes.toList

end Output

end Tomtel
