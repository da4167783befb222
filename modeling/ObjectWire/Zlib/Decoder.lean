import ObjectWire.Zlib.Checksum
import ObjectWire.Zlib.Inflate

/-!
# Reading a compressed stream in pieces

A decoder reads one block of a stream at a time and hands out what the blocks stand for in pieces, each
no longer than asked for.  A piece ends with the last block that was read at the latest, so pieces
may be short, but one that is empty means that the stream is at its end and its checksum is right.

Every block takes a bit at least, and no bit yields more than the longest repetition, which bounds
the number of blocks and of pieces; as with the blocks themselves, the bounds are passed along as
fuel.
-/

namespace ObjectWire.Zlib

/-- The rest of a source, if its next bytes are the checksum of a run. -/
def checked? (run : Bytes) (source : BitSource) : Option BitSource := do
  let (sum, rest) ← source.bytes? 4
  if BigEndian.decode sum = checksum run then some rest else none

/-- A stream of which some blocks are read. -/
structure Decoder where
  /-- What follows the blocks that are read. -/
  source : BitSource
  /-- What they stand for. -/
  out : Inflated
  /-- How much of that is handed out. -/
  given : Nat
  /-- The last block is read. -/
  ended : Bool

namespace Decoder

/-- A decoder at the first block of a stream. -/
def ofBytes (deflated : Bytes) : Decoder := ⟨.ofBytes deflated, #[], 0, false⟩

/-- The next piece, of `most` bytes at most, from what is out or else from the next blocks. -/
def pieceWithin? (most : Nat) : (fuel : Nat) → Decoder → Option (Inflated × Decoder)
  | 0, _ => none
  | fuel + 1, d =>
    if d.given < d.out.size then
      let reached := min (d.given + most) d.out.size
      some (d.out.extract d.given reached, { d with given := reached })
    else if d.ended then (checked? d.out.toList d.source).map fun _ => (#[], d)
    else do
      let (source, out, last) ← markedBlock? d.source d.out
      pieceWithin? most fuel ⟨source, out, d.given, last⟩

/-- The next piece, of `most` bytes at most. -/
def piece? (most : Nat) (d : Decoder) : Option (Inflated × Decoder) :=
  pieceWithin? most (d.source.size + 1) d

/-- What the decoder hands out in pieces of `most` bytes at most, up to one that is empty, behind
    `whole`. -/
def drainWithin? (most : Nat) : (fuel : Nat) → Decoder → (whole : Inflated) → Option Inflated
  | 0, _, _ => none
  | fuel + 1, d, whole => do
    let (piece, next) ← d.piece? most
    if piece.isEmpty then some whole else drainWithin? most fuel next (whole ++ piece)

/-- Everything that the decoder hands out in pieces of `most` bytes at most. -/
def drain? (most : Nat) (d : Decoder) : Option Inflated :=
  drainWithin? most (longestRepetition * d.source.size + 1) d #[]

end Decoder

end ObjectWire.Zlib
