import ObjectWire.Bytes

/-!
# Bits to be written

Bits fill each byte from its low end upward, and the last byte is filled up with zeros.  Numbers of
several bits go with their lowest bit first, code words with their highest.
-/

namespace ObjectWire.Zlib.Bits

/-- The low bits of a number, the lowest first. -/
def lowestFirst : (count : Nat) → Nat → List Bool
  | 0, _ => []
  | count + 1, n => (n % 2 = 1) :: lowestFirst count (n / 2)

/-- The low bits of a number, the highest first. -/
def highestFirst (count n : Nat) : List Bool := (lowestFirst count n).reverse

/-- The number with these bits, the lowest first. -/
def number : List Bool → Nat
  | [] => 0
  | bit :: bits => bit.toNat + 2 * number bits

/-- Bits in bytes. -/
def toBytes (bits : List Bool) : Bytes :=
  match bits with
  | [] => []
  | bit :: bits => UInt8.ofNat (number (bit :: bits.take 7)) :: toBytes (bits.drop 7)
termination_by bits.length

end ObjectWire.Zlib.Bits
