import ObjectWire.Bytes

/-!
# Bits of a run of bytes

Bits are taken from the low end of each byte upward.  Numbers of several bits arrive with their
lowest bit first, and what counts whole bytes first drops the rest of a byte that is already begun.
-/

namespace ObjectWire.Zlib

/-- Unread bytes, of whose first one the lowest `used` bits are read. -/
structure BitSource where
  bytes : Bytes
  used : Fin 8
  deriving Repr, DecidableEq

namespace BitSource

/-- A source of which nothing is read yet. -/
def ofBytes (bytes : Bytes) : BitSource := ⟨bytes, 0⟩

/-- The number of unread bits, counting a begun byte as whole. -/
def size (source : BitSource) : Nat := 8 * source.bytes.length

/-- The next bit. -/
def bit? (source : BitSource) : Option (Nat × BitSource) :=
  match source.bytes with
  | [] => none
  | b :: rest =>
    let value := (b.toNat >>> source.used.val) % 2
    if source.used = 7 then some (value, ⟨rest, 0⟩)
    else some (value, ⟨b :: rest, source.used + 1⟩)

/-- The next `n` bits as a number, lowest bit first. -/
def bits? : (n : Nat) → BitSource → Option (Nat × BitSource)
  | 0, source => some (0, source)
  | n + 1, source => do
    let (low, source) ← source.bit?
    let (high, source) ← bits? n source
    pure (low + 2 * high, source)

/-- Drops the rest of a byte that is begun. -/
def align (source : BitSource) : BitSource :=
  if source.used = 0 then source else ⟨source.bytes.drop 1, 0⟩

/-- The next `n` whole bytes. -/
def bytes? (n : Nat) (source : BitSource) : Option (Bytes × BitSource) :=
  let aligned := source.align
  if n ≤ aligned.bytes.length then
    some (aligned.bytes.take n, ⟨aligned.bytes.drop n, 0⟩)
  else none

end BitSource

end ObjectWire.Zlib
