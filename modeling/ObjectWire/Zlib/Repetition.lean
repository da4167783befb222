import Std.Data.HashMap
import ObjectWire.Zlib.Alphabet
import ObjectWire.Bytes

/-!
# Repetitions in a run of bytes

A run of bytes is cut into pieces: single bytes, and repetitions of bytes that came before.  At
each position the earlier positions that start like it are tried, the latest first and only so
many of them, for the longest repetition.  A repetition that is found is not taken at once: if the
next position has a longer one, the first byte stands alone and the longer one is kept instead.
Repetitions of 128 bytes and more are taken at once.

Nothing rests on which repetitions are found but the size of what is written.
-/

namespace ObjectWire.Zlib

/-- Bytes that are the same as those `distance` bytes before them. -/
structure Repetition where
  length : Nat
  distance : Nat
  deriving Repr, DecidableEq

/-- A piece of a run of bytes. -/
inductive Piece where
  | literal (b : UInt8)
  | repetition (r : Repetition)
  deriving Repr, DecidableEq

/-- Repetitions of this length and more are taken at once. -/
def longRepetition : Nat := 128

/-- A repetition of three bytes is worth its symbols only if it is nearer than this. -/
def nearDistance : Nat := 8192

namespace Repetition

/-- A number for the three bytes at a position: the same for the same bytes. -/
def startKey (run : Array UInt8) (position : Nat) : Nat :=
  let byte (i : Nat) := (run.getD (position + i) 0).toNat
  ((byte 0 <<< 10) ^^^ (byte 1 <<< 5) ^^^ byte 2) % 32768

/-- For every position with three bytes to go, the earlier positions with the same key, the latest
    first.  The very first position is never one of them. -/
def earlier (run : Array UInt8) : Array (List Nat) :=
  let step (state : Std.HashMap Nat (List Nat) × Array (List Nat)) (position : Nat) :=
    let (byKey, found) := state
    let key := startKey run position
    let positions := byKey.getD key []
    let byKey := if position = 0 then byKey else byKey.insert key (position :: positions)
    (byKey, found.push positions)
  ((List.range (run.size - 2)).foldl step (∅, #[])).2

/-- How many bytes at two positions agree, up to a limit. -/
def agreement (run : Array UInt8) (a b : Nat) : (limit : Nat) → Nat
  | 0 => 0
  | limit + 1 =>
    if run.getD a 0 = run.getD b 0 then agreement run (a + 1) (b + 1) limit + 1 else 0

/-- How much longer a search goes on.  It looks at its candidates in groups: a group ends with the
    first candidate that may be better, or with its third candidate. -/
structure Patience where
  groups : Nat
  candidates : Nat

namespace Patience

/-- The patience to beat a repetition of a length: a quarter of the whole for a good one. -/
def toBeat (length : Nat) : Patience := ⟨if 32 ≤ length then 64 else 256, 3⟩

/-- The next group. -/
def nextGroup? (patience : Patience) : Option Patience :=
  if patience.groups ≤ 1 then none else some ⟨patience.groups - 1, 3⟩

/-- The next candidate of the group, or the next group. -/
def next? (patience : Patience) : Option Patience :=
  if patience.candidates ≤ 1 then patience.nextGroup?
  else some ⟨patience.groups, patience.candidates - 1⟩

end Patience

/-- The longest repetition at a position that is longer than `beaten`, among the candidates, as
    far as the patience lasts; `best` is what was found before. -/
def search (run : Array UInt8) (position limit : Nat) :
    List Nat → Patience → (beaten : Nat) → (best : Option Repetition) → Option Repetition
  | [], _, _, best => best
  | candidate :: candidates, patience, beaten, best =>
    if agreement run (candidate + beaten - 1) (position + beaten - 1) 2 < 2 then
      match patience.next? with
      | none => best
      | some patience => search run position limit candidates patience beaten best
    else
      let length := agreement run candidate position limit
      let best := if beaten < length then some ⟨length, position - candidate⟩ else best
      if beaten < length && length = limit then best
      else
        match patience.nextGroup? with
        | none => best
        | some patience => search run position limit candidates patience (max beaten length) best

/-- The repetition at a position, if there is one that is longer than `beaten` and worth it. -/
def find? (run : Array UInt8) (candidates : Array (List Nat)) (position beaten : Nat) :
    Option Repetition :=
  let limit := min longestRepetition (run.size - position)
  if limit ≤ beaten then none
  else
    (search run position limit (candidates.getD position []) (.toBeat beaten) beaten none).filter
      fun r => r.length ≠ 3 || r.distance < nearDistance

end Repetition

/-- A repetition that waits for the next position, with the byte that stands alone if a longer
    one is found there. -/
structure Waiting where
  first : UInt8
  repetition : Repetition

/-- What is settled at a position: the pieces that are certain, what waits, and how many of the
    positions that follow are covered as well. -/
structure Choice where
  settled : List Piece
  waiting : Option Waiting
  covered : Nat

namespace Choice

/-- Takes a repetition that is long, and lets another one wait. -/
def take (b : UInt8) (r : Repetition) (before : List Piece) : Choice :=
  if longRepetition ≤ r.length then ⟨before ++ [.repetition r], none, r.length - 1⟩
  else ⟨before, some ⟨b, r⟩, 0⟩

/-- The choice at a byte, given the repetition that is found there; it is longer than the one
    that waits. -/
def make (b : UInt8) : (found : Option Repetition) → Option Waiting → Choice
  | none, none => ⟨[.literal b], none, 0⟩
  | some r, none => take b r []
  | some r, some waiting => take b r [.literal waiting.first]
  | none, some ⟨_, r⟩ => ⟨[.repetition r], none, r.length - 2⟩

end Choice

/-- The pieces of a run from a position on. -/
def piecesFrom (run : Array UInt8) (candidates : Array (List Nat)) (position : Nat)
    (waiting : Option Waiting) : List Piece :=
  if h : position < run.size then
    let beaten := (waiting.map (·.repetition.length)).getD 2
    let choice := Choice.make run[position] (Repetition.find? run candidates position beaten)
      waiting
    choice.settled ++ piecesFrom run candidates (position + 1 + choice.covered) choice.waiting
  else []
termination_by run.size - position

/-- The pieces of a run. -/
def pieces (run : Bytes) : List Piece :=
  let run := run.toArray
  piecesFrom run (Repetition.earlier run) 0 none

end ObjectWire.Zlib
