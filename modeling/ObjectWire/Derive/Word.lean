import ObjectWire.Text.Blank

/-!
# Words

What names are made of, and how words stand at the end of literals.  Beyond ASCII every character
but a blank counts as a letter: none that is not a letter occurs outside of quotations and
comments.
-/

namespace ObjectWire.Derive

/-- A character that a word may start with. -/
def startsWord (c : Char) : Bool :=
  c.isAlpha || c = '_' || (0x80 ≤ c.toNat && !Text.isBlank c)

/-- A character that a word may go on with. -/
def continuesWord (c : Char) : Bool := startsWord c || c.isDigit

/-- Splits off the word at the beginning, if there is one. -/
def takeWord? (input : List Char) : Option (List Char × List Char) :=
  if input.head?.any startsWord then
    some (input.takeWhile continuesWord, input.dropWhile continuesWord)
  else none

/-- The mark in front of a word that would mean something else without it. -/
def rawMark : List Char := ['r', '#']

/-- The words that cannot be marked. -/
def neverRaw : List String := ["_", "super", "self", "Self", "crate"]

/-- Splits off a word that may be marked. -/
def takeName? (input : List Char) : Option (List Char × List Char) :=
  if input.take 2 = rawMark then do
    let (name, rest) ← takeWord? (input.drop 2)
    if String.ofList name ∈ neverRaw then none else pure (rawMark ++ name, rest)
  else takeWord? input

/-- What follows the word behind a literal, if there is one. -/
def afterSuffix (input : List Char) : List Char :=
  match takeWord? input with
  | some (_, rest) => rest
  | none => input

end ObjectWire.Derive
