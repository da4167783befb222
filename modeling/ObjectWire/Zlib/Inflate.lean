import ObjectWire.Zlib.Alphabet
import ObjectWire.Zlib.HuffmanCode

/-!
# Inflating

A deflated stream is a sequence of blocks, the last of which is marked.  A block holds its bytes
as they are, or codes them: every symbol is a byte, the end of the block, or a length that,
together with a distance, repeats bytes that are already out.

Every symbol takes a bit at least, so the number of unread bits bounds both loops; it is passed
along as fuel, and running out of it counts as damage.
-/

namespace ObjectWire.Zlib

/-- The bytes that are out so far. -/
abbrev Inflated : Type := Array UInt8

/-- Repeats `length` bytes that start `distance` bytes before the end.  What lies before the first
    byte counts as zeros: the window is blank at first. -/
def repeatBytes (distance : Nat) : (length : Nat) → Inflated → Inflated
  | 0, out => out
  | length + 1, out =>
    let b := if distance ≤ out.size then out.getD (out.size - distance) 0 else 0
    repeatBytes distance length (out.push b)

/-- A number given by a symbol of a table and the extra bits behind it. -/
def extended? (bases : List (Nat × Nat)) (symbol : Nat) (source : BitSource) :
    Option (Nat × BitSource) := do
  let (base, extra) ← bases[symbol]?
  let (more, source) ← source.bits? extra
  pure (base + more, source)

/-- Repeats bytes; the symbol of the length is read already. -/
def repetition? (distances : HuffmanCode) (symbol : Nat) (source : BitSource) (out : Inflated) :
    Option (BitSource × Inflated) := do
  let (length, source) ← extended? lengthBases (symbol - firstLength) source
  let (symbol, source) ← distances.symbol? source
  let (distance, source) ← extended? distanceBases symbol source
  pure (source, repeatBytes distance length out)

/-- The symbols of a coded block; those below its end are bytes. -/
def codedBlock (literals distances : HuffmanCode) :
    (fuel : Nat) → BitSource → Inflated → Option (BitSource × Inflated)
  | 0, _, _ => none
  | fuel + 1, source, out => do
    let (symbol, source) ← literals.symbol? source
    if symbol < endOfBlock then
      codedBlock literals distances fuel source (out.push (UInt8.ofNat symbol))
    else if symbol = endOfBlock then some (source, out)
    else
      let (source, out) ← repetition? distances symbol source out
      codedBlock literals distances fuel source out

/-- A block that holds its bytes as they are, behind their number and its complement. -/
def storedBlock (source : BitSource) (out : Inflated) : Option (BitSource × Inflated) := do
  let (head, source) ← source.bytes? 4
  let size := BigEndian.decode (head.take 2).reverse
  let complement := BigEndian.decode (head.drop 2).reverse
  if size + complement = 65535 then
    let (run, source) ← source.bytes? size
    pure (source, out ++ run)
  else none

/-- The literal and length code of blocks that bring no code of their own. -/
def fixedLiterals : Option HuffmanCode := HuffmanCode.ofLengths? fixedLiteralLengths

/-- The distance code of blocks that bring no code of their own. -/
def fixedDistances : Option HuffmanCode := HuffmanCode.ofLengths? fixedDistanceLengths

/-- Numbers of three bits, `count` of them. -/
def triples? : (count : Nat) → BitSource → Option (List Nat × BitSource)
  | 0, source => some ([], source)
  | count + 1, source => do
    let (first, source) ← source.bits? 3
    let (others, source) ← triples? count source
    pure (first :: others, source)

/-- Code lengths up to `count` of them, behind those in `done`, which are in reverse.  Symbols
    above 15 stand for runs: of the length before, or of zeros. -/
def codeLengths? (code : HuffmanCode) (count : Nat) :
    (fuel : Nat) → BitSource → (done : List Nat) → Option (List Nat × BitSource)
  | 0, source, done => if done.length = count then some (done.reverse, source) else none
  | fuel + 1, source, done =>
    if done.length = count then some (done.reverse, source)
    else if count < done.length then none
    else do
      let (symbol, source) ← code.symbol? source
      if symbol < 16 then codeLengths? code count fuel source (symbol :: done)
      else if symbol = 16 then
        let last ← done.head?
        let (more, source) ← source.bits? 2
        codeLengths? code count fuel source (List.replicate (3 + more) last ++ done)
      else if symbol = 17 then
        let (more, source) ← source.bits? 3
        codeLengths? code count fuel source (List.replicate (3 + more) 0 ++ done)
      else
        let (more, source) ← source.bits? 7
        codeLengths? code count fuel source (List.replicate (11 + more) 0 ++ done)

/-- The two codes that a block brings along. -/
def ownCodes? (source : BitSource) : Option (HuffmanCode × HuffmanCode × BitSource) := do
  let (literalCount, source) ← source.bits? 5
  let (distanceCount, source) ← source.bits? 5
  let (orderCount, source) ← source.bits? 4
  let (orderLengths, source) ← triples? (orderCount + 4) source
  let placed := lengthOrder.zip orderLengths
  let lengthCode ← HuffmanCode.ofLengths? <|
    (List.range lengthSymbols).map fun symbol => (placed.lookup symbol).getD 0
  let literals := literalCount + firstLength
  let distances := distanceCount + 1
  if literalSymbols < literals || distanceSymbols < distances then none
  let count := literals + distances
  let (lengths, source) ← codeLengths? lengthCode count count source []
  let literalCode ← HuffmanCode.ofLengths? (lengths.take literals)
  let distanceCode ← HuffmanCode.ofLengths? (lengths.drop literals)
  pure (literalCode, distanceCode, source)

/-- One block, behind the bit that marks the last one. -/
def block? (source : BitSource) (out : Inflated) : Option (BitSource × Inflated) := do
  let (kind, source) ← source.bits? 2
  if kind = 0 then storedBlock source out
  else if kind = 1 then
    codedBlock (← fixedLiterals) (← fixedDistances) source.size source out
  else if kind = 2 then
    let (literals, distances, source) ← ownCodes? source
    codedBlock literals distances source.size source out
  else none

/-- One block and the bit in front of it: what is left, what is out, and whether it is the last. -/
def markedBlock? (source : BitSource) (out : Inflated) : Option (BitSource × Inflated × Bool) := do
  let (last, source) ← source.bit?
  let (source, out) ← block? source out
  pure (source, out, last = 1)

/-- All blocks up to the marked one. -/
def blocks? : (fuel : Nat) → BitSource → Inflated → Option (BitSource × Inflated)
  | 0, _, _ => none
  | fuel + 1, source, out => do
    let (source, out, last) ← markedBlock? source out
    if last then some (source, out) else blocks? fuel source out

/-- What a deflated stream stands for, and the rest of the source behind it. -/
def inflate? (source : BitSource) : Option (Bytes × BitSource) := do
  let (rest, out) ← blocks? (source.size + 1) source #[]
  pure (out.toList, rest)

end ObjectWire.Zlib
