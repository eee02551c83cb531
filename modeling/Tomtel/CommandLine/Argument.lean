import Tomtel.Text.Utf8

/-!
# Command-line arguments

An argument is any string of bytes. It is compared byte for byte and shown as text, with a
replacement character where it is not UTF-8.
-/

namespace Tomtel

structure Argument where
  bytes : List UInt8
  deriving DecidableEq, Repr

namespace Argument

def ofString (s : String) : Argument := ⟨s.toUTF8.data.toList⟩

def text (arg : Argument) : String := Utf8.decodeLossy arg.bytes

/-- Whether the argument is one of these words. -/
def isAny (arg : Argument) (words : List String) : Bool :=
  words.any fun word => arg = ofString word

def startsWithDash (arg : Argument) : Bool := arg.bytes.head? = some 0x2d

end Argument

end Tomtel
