import ObjectWire.Zlib.Bits
import ObjectWire.Zlib.BitSource

/-!
# Huffman codes

A code is given by the length of every symbol's code word.  Words of one length are consecutive
numbers in the order of their symbols, and shorter words come first.  A symbol is read bit by bit:
after each bit the word read so far is compared with the words of that length.
-/

namespace ObjectWire.Zlib

/-- A code: the symbols that have words of one, two, … bits. -/
structure HuffmanCode where
  byLength : List (List Nat)
  deriving Repr, DecidableEq

namespace HuffmanCode

/-- The longest code word. -/
def maxLength : Nat := 15

/-- The symbols whose code words have `length` bits, in order. -/
def symbolsOf (lengths : List Nat) (length : Nat) : List Nat :=
  (lengths.zipIdx.filter fun (l, _) => l = length).map Prod.snd

/-- The words left over when every symbol has its word; `none` if there are too few words. -/
def surplus : List (List Nat) → (free : Nat) → Option Nat
  | [], free => some free
  | symbols :: longer, free =>
    if symbols.length ≤ 2 * free then surplus longer (2 * free - symbols.length) else none

/-- The code with given lengths; zero means that a symbol has no word.  The words must be used
    up exactly, except that a code without words, or with a single word of one bit, may leave
    some over. -/
def ofLengths? (lengths : List Nat) : Option HuffmanCode :=
  let byLength := (List.range maxLength).map fun l => symbolsOf lengths (l + 1)
  match surplus byLength 1 with
  | none => none
  | some free => if free = 0 || lengths.foldr (· + ·) 0 ≤ 1 then some ⟨byLength⟩ else none

/-- Reads a symbol, given the word read so far and the first word of the next length. -/
def symbolFrom? : List (List Nat) → (word first : Nat) → BitSource → Option (Nat × BitSource)
  | [], _, _, _ => none
  | symbols :: longer, word, first, source =>
    match source.bit? with
    | none => none
    | some (bit, source) =>
      let word := 2 * word + bit
      let first := 2 * first
      match symbols[word - first]? with
      | some symbol => some (symbol, source)
      | none => symbolFrom? longer word (first + symbols.length) source

/-- Reads a symbol. -/
def symbol? (code : HuffmanCode) (source : BitSource) : Option (Nat × BitSource) :=
  symbolFrom? code.byLength 0 0 source

/-- The symbols with their words, given the first word of the next length. -/
def wordsFrom : List (List Nat) → (first length : Nat) → List (Nat × List Bool)
  | [], _, _ => []
  | symbols :: longer, first, length =>
    (symbols.zipIdx.map fun (symbol, i) => (symbol, Bits.highestFirst length (first + i))) ++
      wordsFrom longer (2 * (first + symbols.length)) (length + 1)

/-- The symbols with their words. -/
def words (code : HuffmanCode) : List (Nat × List Bool) := wordsFrom code.byLength 0 1

end HuffmanCode

end ObjectWire.Zlib
