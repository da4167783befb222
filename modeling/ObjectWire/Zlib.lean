import ObjectWire.Zlib.Decoder
import ObjectWire.Zlib.Deflate

/-!
# Compressed streams

A compressed stream is a two-byte header, a deflated stream and the checksum of what it stands
for.  Decompressing takes every kind of block, ignores whatever follows the checksum, and refuses
anything damaged or cut off.  Compressing deflates where that pays and frames the bytes in stored
blocks otherwise.
-/

namespace ObjectWire.Zlib

/-- The most bytes a stored block holds. -/
def storedLimit : Nat := 65535

/-- A number below 65536 in two bytes, low byte first. -/
def littleEndian (n : Nat) : Bytes := (BigEndian.encode 2 n).reverse

/-- One stored block. -/
def storedFrame (last : Bool) (run : Bytes) : Bytes :=
  [if last then 1 else 0] ++ littleEndian run.length ++ littleEndian (65535 - run.length) ++ run

/-- A run of bytes in stored blocks, each as full as possible. -/
def storedFrames (run : Bytes) : Bytes :=
  if run.length ≤ storedLimit then storedFrame true run
  else storedFrame false (run.take storedLimit) ++ storedFrames (run.drop storedLimit)
termination_by run.length
decreasing_by simp [storedLimit] at *; omega

/-- The header: deflated, a window of 32 KiB, no dictionary, as small as can be. -/
def header : Bytes := [0x78, 0xDA]

/-- Whether two bytes announce a deflated stream without a dictionary whose window is no larger
    than 32 KiB; together they are a multiple of 31. -/
def isHeader (first second : UInt8) : Bool :=
  (first.toNat * 256 + second.toNat) % 31 = 0 && first.toNat % 16 = 8 &&
    first.toNat / 16 ≤ 7 && second.toNat / 32 % 2 = 0

/-- The deflated part of a stream and what follows it, behind the header. -/
def behindHeader? : Bytes → Option Bytes
  | first :: second :: deflated => if isHeader first second then some deflated else none
  | _ => none

/-- The bytes that decompressing reads at a time. -/
def pieceLimit : Nat := 1024

/-- Decompresses a run of bytes in pieces of `most` bytes at most, up to one that is empty. -/
def decompressBy? (most : Nat) (stream : Bytes) : Option Bytes := do
  let whole ← (Decoder.ofBytes (← behindHeader? stream)).drain? most
  pure whole.toList

/-- Decompresses a run of bytes. -/
def decompress? (stream : Bytes) : Option Bytes := decompressBy? pieceLimit stream

/-- The stream around a deflated run. -/
def framed (run deflated : Bytes) : Bytes := header ++ deflated ++ BigEndian.encode 4 (checksum run)

/-- Compresses a run of bytes. -/
def compress (run : Bytes) : Bytes := framed run ((deflate? run).getD (storedFrames run))

end ObjectWire.Zlib
