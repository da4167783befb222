import Std.Data.HashMap
import ObjectWire.Zlib.Alphabet
import ObjectWire.Zlib.CodeLengths
import ObjectWire.Zlib.HuffmanCode
import ObjectWire.Zlib.Repetition

/-!
# Deflating

A run of bytes is deflated into one coded block.  A short run uses the codes that every reader
knows; any other brings codes of its own that suit its pieces, and in front of them the lengths of
their words, in which a length that repeats is written once.
-/

namespace ObjectWire.Zlib

/-- The symbol for a number: the last one whose base is not larger. -/
def symbolOf (bases : List (Nat × Nat)) (n : Nat) : Nat :=
  (bases.takeWhile fun (base, _) => base ≤ n).length - 1

/-- The extra bits for a number. -/
def extraOf (bases : List (Nat × Nat)) (n : Nat) : List Bool :=
  match bases[symbolOf bases n]? with
  | some (base, extra) => Bits.lowestFirst extra (n - base)
  | none => []

namespace Piece

/-- The symbol for a byte or a length. -/
def symbol : Piece → Nat
  | .literal b => b.toNat
  | .repetition r => firstLength + symbolOf lengthBases r.length

/-- The symbol for a distance. -/
def distanceSymbol? : Piece → Option Nat
  | .literal _ => none
  | .repetition r => some (symbolOf distanceBases r.distance)

end Piece

/-- The words of a code by symbol. -/
abbrev Words : Type := Std.HashMap Nat (List Bool)

/-- The words of a code. -/
def HuffmanCode.toWords (code : HuffmanCode) : Words := .ofList code.words

/-- The bits of a piece. -/
def Piece.bits (literals distances : Words) (piece : Piece) : List Bool :=
  literals.getD piece.symbol [] ++
    match piece with
    | .literal _ => []
    | .repetition r =>
      extraOf lengthBases r.length ++ distances.getD (symbolOf distanceBases r.distance) [] ++
        extraOf distanceBases r.distance

/-- The bits of pieces and of the end of the block. -/
def codedBits (literals distances : HuffmanCode) (pieces : List Piece) : List Bool :=
  let literals := literals.toWords
  pieces.flatMap (Piece.bits literals distances.toWords) ++ literals.getD endOfBlock []

/-- A symbol of the code for lengths, with its extra bits. -/
structure SpelledLength where
  symbol : Nat
  extra : List Bool

namespace SpelledLength

/-- A length as it is. -/
def plain (length : Nat) : SpelledLength := ⟨length, []⟩

/-- A number in parts, each as large as may be. -/
def parts (most n : Nat) : List Nat :=
  List.replicate (n / most) most ++ if n % most = 0 then [] else [n % most]

/-- Up to six repeats of a length. -/
def repeats (length n : Nat) : List SpelledLength :=
  if n < 3 then List.replicate n (plain length) else [⟨16, Bits.lowestFirst 2 (n - 3)⟩]

/-- Up to 138 zeros. -/
def zeros (n : Nat) : List SpelledLength :=
  if n < 3 then List.replicate n (plain 0)
  else if n ≤ 10 then [⟨17, Bits.lowestFirst 3 (n - 3)⟩]
  else [⟨18, Bits.lowestFirst 7 (n - 11)⟩]

/-- A run of equal lengths. -/
def ofRun : List Nat → List SpelledLength
  | [] => []
  | 0 :: others => (parts 138 (others.length + 1)).flatMap zeros
  | length :: others => plain length :: (parts 6 others.length).flatMap (repeats length)

/-- Lengths of code words. -/
def ofLengths (lengths : List Nat) : List SpelledLength :=
  (lengths.splitBy (· == ·)).flatMap ofRun

end SpelledLength

/-- How often each symbol of an alphabet occurs. -/
def occurrences (size : Nat) (symbols : List Nat) : List Nat :=
  (List.range size).map fun symbol => symbols.count symbol

/-- Drops the zeros at the end of a list, of which the first `least` numbers stay. -/
def trimmed (least : Nat) (lengths : List Nat) : List Nat :=
  lengths.take (max least (lengths.reverse.dropWhile (· = 0)).length)

/-- A block in the codes that every reader knows. -/
def fixedBits? (pieces : List Piece) : Option (List Bool) := do
  let literals ← HuffmanCode.ofLengths? fixedLiteralLengths
  let distances ← HuffmanCode.ofLengths? fixedDistanceLengths
  pure (Bits.lowestFirst 2 1 ++ codedBits literals distances pieces)

/-- A block with codes of its own. -/
def ownBits? (pieces : List Piece) : Option (List Bool) := do
  let literalCounts := occurrences literalSymbols (endOfBlock :: pieces.map Piece.symbol)
  let distanceCounts := occurrences distanceSymbols (pieces.filterMap Piece.distanceSymbol?)
  let lengthsOf := CodeLengths.ofCounts HuffmanCode.maxLength
  let literalLengths := trimmed firstLength (lengthsOf literalCounts)
  let distanceLengths := trimmed 1 (lengthsOf distanceCounts)
  let spelled := SpelledLength.ofLengths (literalLengths ++ distanceLengths)
  let spelledCounts := occurrences lengthSymbols (spelled.map SpelledLength.symbol)
  let lengths := CodeLengths.ofCounts 7 spelledCounts
  let ordered := trimmed 4 (lengthOrder.map fun symbol => lengths.getD symbol 0)
  let lengthWords := (← HuffmanCode.ofLengths? lengths).toWords
  let literals ← HuffmanCode.ofLengths? literalLengths
  let distances ← HuffmanCode.ofLengths? distanceLengths
  pure (Bits.lowestFirst 2 2 ++ Bits.lowestFirst 5 (literalLengths.length - firstLength) ++
    Bits.lowestFirst 5 (distanceLengths.length - 1) ++ Bits.lowestFirst 4 (ordered.length - 4) ++
    ordered.flatMap (Bits.lowestFirst 3) ++
    (spelled.flatMap fun length => lengthWords.getD length.symbol [] ++ length.extra) ++
    codedBits literals distances pieces)

/-- The longest run that is deflated. -/
def deflatedLimit : Nat := 31 * 1024

/-- Runs shorter than this do not bring codes of their own. -/
def ownCodesFrom : Nat := 48

/-- Up to this length a run is deflated even if that makes it longer. -/
def alwaysDeflated : Nat := 32

/-- Deflates a run of bytes; `none` if it is too long or would not get shorter. -/
def deflate? (run : Bytes) : Option Bytes := do
  let size := run.length
  if size ≤ deflatedLimit then
    let pieces := pieces run
    let bits := true :: (← if size < ownCodesFrom then fixedBits? pieces else ownBits? pieces)
    if size ≤ alwaysDeflated || bits.length / 8 + 1 < size then some (Bits.toBytes bits) else none
  else none

end ObjectWire.Zlib
