import ObjectWire.Bytes

/-!
# Integers of any size

An integer is written as the shortest non-empty run of bytes that is its two's complement, most
significant byte first.  Longer runs are read as well; they stand for the same integers.
-/

namespace ObjectWire.TwosComplement

/-- The bits that matter beside the sign: those of `n`, or of its complement if `n` is negative. -/
def magnitude : Int → Nat
  | .ofNat n => n
  | .negSucc n => n

/-- The number of binary digits of a number, none for zero. -/
def digits (n : Nat) : Nat := if n = 0 then 0 else n.log2 + 1

/-- The number of bytes that hold an integer and its sign. -/
def width (n : Int) : Nat := digits (magnitude n) / 8 + 1

/-- The shortest two's complement of an integer. -/
def encode (n : Int) : Bytes := BigEndian.encode (width n) (n % BigEndian.words (width n)).toNat

/-- The integer whose two's complement a run of bytes is; the empty run counts as zero. -/
def decode (bytes : Bytes) : Int :=
  match bytes with
  | [] => 0
  | first :: _ =>
    if first < 0x80 then BigEndian.decode bytes
    else BigEndian.decode bytes - BigEndian.words bytes.length

end ObjectWire.TwosComplement
