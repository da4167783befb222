import ObjectWire.Bytes

/-!
# The lengths of code words

How long the words of a code are follows from how often each symbol occurs: the two lightest trees
are joined until one is left, and a symbol's word is as long as its leaf is deep.  Words that come
out longer than the limit are cut to it, and shorter words are lengthened until there is room.
-/

namespace ObjectWire.Zlib.CodeLengths

/-- A tree over symbols: how often they occur together, and how deep each of them lies. -/
structure Tree where
  weight : Nat
  depths : List Nat

namespace Tree

/-- The tree of one symbol. -/
def leaf (weight : Nat) : Tree := ⟨weight, [0]⟩

/-- Two trees under one root. -/
def join (a b : Tree) : Tree := ⟨a.weight + b.weight, (a.depths ++ b.depths).map (· + 1)⟩

/-- The lightest of two sorted lists of trees, and what is left of them; a leaf goes before a
    joined tree of its weight. -/
def lightest? : (leaves joined : List Tree) → Option (Tree × List Tree × List Tree)
  | [], [] => none
  | leaf :: leaves, [] => some (leaf, leaves, [])
  | [], tree :: joined => some (tree, [], joined)
  | leaf :: leaves, tree :: joined =>
    if tree.weight < leaf.weight then some (tree, leaf :: leaves, joined)
    else some (leaf, leaves, tree :: joined)

/-- The depths of the symbols after so many joins. -/
def depthsAfter : (joins : Nat) → (leaves joined : List Tree) → List Nat
  | 0, leaves, joined => (leaves ++ joined).flatMap depths
  | joins + 1, leaves, joined =>
    match lightest? leaves joined with
    | none => []
    | some (first, leaves, joined) =>
      match lightest? leaves joined with
      | none => first.depths
      | some (second, leaves, joined) => depthsAfter joins leaves (joined ++ [first.join second])

end Tree

/-- The depths of symbols that occur so often, the rarest symbol first.  A symbol that is alone
    still has a word of one bit. -/
def depths : (weights : List Nat) → List Nat
  | [_] => [1]
  | weights => Tree.depthsAfter (weights.length - 1) (weights.map .leaf) []

/-- Lengthens one word of the greatest length that is below the limit; the numbers of words come
    by length, the limit first.  A second word takes the place that it leaves. -/
def lengthenOne : List Nat → List Nat
  | longer :: (n + 1) :: shorter => (longer + 2) :: n :: shorter
  | longer :: 0 :: shorter => longer :: lengthenOne (0 :: shorter)
  | short => short

/-- Moves one word from the limit to beside a shorter one. -/
def makeRoom : List Nat → List Nat
  | [] => []
  | longest :: shorter => lengthenOne ((longest - 1) :: shorter)

/-- The numbers of words by length, the limit first, with as many as there is room for. -/
def wordCounts (limit : Nat) (depths : List Nat) : List Nat :=
  let cut := depths.map (min limit)
  let counts := (List.range limit).map fun l => cut.count (limit - l)
  let taken := (counts.zipIdx.map fun (n, l) => n <<< l).foldr (· + ·) 0
  Nat.repeat makeRoom (taken - 1 <<< limit) counts

/-- The length of every symbol's word, given how often the symbols occur; zero for a symbol that
    does not.  The rarest symbols have the longest words. -/
def ofCounts (limit : Nat) (counts : List Nat) : List Nat :=
  let sorted := (counts.zipIdx.filter fun (n, _) => n ≠ 0).mergeSort fun a b => a.1 ≤ b.1
  let words := wordCounts limit (depths (sorted.map Prod.fst))
  let lengths := words.zipIdx.flatMap fun (n, l) => List.replicate n (limit - l)
  let placed := (sorted.map Prod.snd).zip lengths
  (List.range counts.length).map fun symbol => (placed.lookup symbol).getD 0

end ObjectWire.Zlib.CodeLengths
