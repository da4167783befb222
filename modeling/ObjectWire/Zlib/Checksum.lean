import ObjectWire.Bytes

/-!
# The checksum of a compressed stream

Two sums modulo 65521, the largest prime below 2¹⁶: of the bytes, starting at one, and of the
first sum after each byte.
-/

namespace ObjectWire.Zlib

/-- The two running sums. -/
structure Checksum where
  bytes : Nat
  sums : Nat
  deriving Repr, DecidableEq

namespace Checksum

/-- The modulus of both sums. -/
def modulus : Nat := 65521

/-- The sums before any byte. -/
def start : Checksum := ⟨1, 0⟩

/-- The sums after one more byte. -/
def add (c : Checksum) (b : UInt8) : Checksum :=
  let bytes := (c.bytes + b.toNat) % modulus
  ⟨bytes, (c.sums + bytes) % modulus⟩

/-- The 32-bit word the sums are written as. -/
def value (c : Checksum) : Nat := c.sums * 65536 + c.bytes

end Checksum

/-- The checksum of a run of bytes. -/
def checksum (run : Bytes) : Nat := (run.foldl Checksum.add Checksum.start).value

end ObjectWire.Zlib
