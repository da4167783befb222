/-!
# The symbols of coded blocks

A coded block speaks two alphabets.  Of the first, the symbols below 256 are bytes, 256 ends the
block, and the others stand for lengths; the symbols of the second stand for distances.  A length
or distance is given by its symbol, which names the smallest of a range, and extra bits, which say
how far beyond it.  A block that brings codes of its own spells their lengths in a third alphabet.
-/

namespace ObjectWire.Zlib

/-- The symbol that ends a block. -/
def endOfBlock : Nat := 256

/-- The symbol of the shortest length. -/
def firstLength : Nat := 257

/-- The number of symbols for bytes, the end of a block and lengths. -/
def literalSymbols : Nat := 286

/-- The number of symbols for distances. -/
def distanceSymbols : Nat := 30

/-- The number of symbols of the code for lengths. -/
def lengthSymbols : Nat := 19

/-- The shortest length and the number of extra bits of each length symbol. -/
def lengthBases : List (Nat × Nat) :=
  [(3, 0), (4, 0), (5, 0), (6, 0), (7, 0), (8, 0), (9, 0), (10, 0), (11, 1), (13, 1), (15, 1),
   (17, 1), (19, 2), (23, 2), (27, 2), (31, 2), (35, 3), (43, 3), (51, 3), (59, 3), (67, 4),
   (83, 4), (99, 4), (115, 4), (131, 5), (163, 5), (195, 5), (227, 5), (258, 0)]

/-- The longest repetition. -/
def longestRepetition : Nat := 258

/-- The shortest distance and the number of extra bits of each distance symbol. -/
def distanceBases : List (Nat × Nat) :=
  [(1, 0), (2, 0), (3, 0), (4, 0), (5, 1), (7, 1), (9, 2), (13, 2), (17, 3), (25, 3), (33, 4),
   (49, 4), (65, 5), (97, 5), (129, 6), (193, 6), (257, 7), (385, 7), (513, 8), (769, 8),
   (1025, 9), (1537, 9), (2049, 10), (3073, 10), (4097, 11), (6145, 11), (8193, 12),
   (12289, 12), (16385, 13), (24577, 13)]

/-- The lengths of the code words for bytes and lengths in blocks without codes of their own. -/
def fixedLiteralLengths : List Nat :=
  List.replicate 144 8 ++ List.replicate 112 9 ++ List.replicate 24 7 ++ List.replicate 8 8

/-- The lengths of the code words for distances in blocks without codes of their own. -/
def fixedDistanceLengths : List Nat := List.replicate 32 5

/-- The order in which the lengths of the code for lengths are written. -/
def lengthOrder : List Nat := [16, 17, 18, 0, 8, 7, 9, 6, 10, 5, 11, 4, 12, 3, 13, 2, 14, 1, 15]

end ObjectWire.Zlib
