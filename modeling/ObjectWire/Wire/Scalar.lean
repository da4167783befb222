import ObjectWire.Wire.Input
import ObjectWire.Wire.Output

/-!
# Scalars

The items of each fixed-width kind, their wire form and their default.  Floating-point numbers
are their bit patterns: nothing here computes with them, so every pattern survives as it is.
A character takes 16 bits and must therefore lie in the Basic Multilingual Plane.
-/

namespace ObjectWire

/-- A 32-bit floating-point number, as its bits. -/
structure Single where
  bits : UInt32
  deriving Repr, DecidableEq

/-- A 64-bit floating-point number, as its bits. -/
structure Double where
  bits : UInt64
  deriving Repr, DecidableEq

namespace ScalarKind

/-- The items of a scalar kind. -/
def Item : ScalarKind → Type
  | .byte => Int8
  | .bool => Bool
  | .char => Char
  | .short => Int16
  | .int => Int32
  | .long => Int64
  | .float => Single
  | .double => Double

instance : (kind : ScalarKind) → DecidableEq kind.Item
  | .byte => inferInstanceAs (DecidableEq Int8)
  | .bool => inferInstanceAs (DecidableEq Bool)
  | .char => inferInstanceAs (DecidableEq Char)
  | .short => inferInstanceAs (DecidableEq Int16)
  | .int => inferInstanceAs (DecidableEq Int32)
  | .long => inferInstanceAs (DecidableEq Int64)
  | .float => inferInstanceAs (DecidableEq Single)
  | .double => inferInstanceAs (DecidableEq Double)

/-- The item a field of this kind has when it was never written: zero in all its forms. -/
def default : (kind : ScalarKind) → kind.Item
  | .byte => (0 : Int8)
  | .bool => false
  | .char => '\x00'
  | .short => (0 : Int16)
  | .int => (0 : Int32)
  | .long => (0 : Int64)
  | .float => Single.mk 0
  | .double => Double.mk 0

/-- The wire form of an item. -/
def encode : (kind : ScalarKind) → kind.Item → Except Failure Bytes
  | .byte, n => .ok (Wire.byte n)
  | .bool, b => .ok (Wire.bool b)
  | .char, c => encodeChar c
  | .short, n => .ok (Wire.short n)
  | .int, n => .ok (Wire.int n)
  | .long, n => .ok (Wire.long n)
  | .float, x => .ok (BigEndian.encode 4 x.bits.toNat)
  | .double, x => .ok (BigEndian.encode 8 x.bits.toNat)
where
  /-- The 16 bits of a character. -/
  encodeChar (c : Char) : Except Failure Bytes :=
    if c.toNat < 0x10000 then .ok (BigEndian.encode 2 c.toNat) else .error (.charTooWide c)

/-- Reads an item. -/
def decode : (kind : ScalarKind) → Act Input kind.Item
  | .byte => Input.byte
  | .bool => Input.bool
  | .char => decodeChar
  | .short => Input.short
  | .int => Input.int
  | .long => Input.long
  | .float => (fun n => Single.mk (UInt32.ofNat n)) <$> Input.word 4
  | .double => (fun n => Double.mk (UInt64.ofNat n)) <$> Input.word 8
where
  /-- Reads 16 bits that must be a character. -/
  decodeChar : Act Input Char := do
    let code ← Input.word 2
    if code.isValidChar then pure (Char.ofNat code) else Act.fail (.invalidCharCode code)

end ScalarKind

end ObjectWire
