import ObjectWire.Derive.Word
import ObjectWire.Text.Hexadecimal

/-!
# Numerals

How numbers are spelled.  A numeral is split off with its spelling; whether it is an integer is
told from other numbers only where one is asked for.  A word may stand behind a numeral and does
not matter, except that digits behind an `e` make an exponent.
-/

namespace ObjectWire.Derive.Numeral

/-- A digit, or an underscore between digits. -/
def isDigitOrGap (c : Char) : Bool := c.isDigit || c = '_'

/-- A digit of a base. -/
def digit? (base : Nat) (c : Char) : Option Nat := do
  let d ← Hexadecimal.digit? c
  if d < base then some d else none

/-- The base a number is written in, and what stands behind the mark for it. -/
def baseOf : List Char → Nat × List Char
  | '0' :: 'x' :: digits => (16, digits)
  | '0' :: 'o' :: digits => (8, digits)
  | '0' :: 'b' :: digits => (2, digits)
  | digits => (10, digits)

/-- What follows an exponent, whose letter is gone: a sign, or none, and a digit at least. -/
def afterExponent? (input : List Char) : Option (List Char) :=
  let signed := input.dropWhile (· = '_')
  let unsigned := if signed.head?.any fun c => c = '+' || c = '-' then signed.drop 1 else signed
  if (unsigned.takeWhile isDigitOrGap).any Char.isDigit then
    some (unsigned.dropWhile isDigitOrGap)
  else none

/-- What follows the digits of a number that has a point or an exponent.  A point belongs to the
    number unless a word or another point follows it. -/
def afterScaled? (input : List Char) : Option (List Char) :=
  let rest := input.dropWhile isDigitOrGap
  let (pointed, rest) := match rest with
    | '.' :: behind =>
      if behind.head?.any fun c => c = '.' || startsWord c then (none, [])
      else (some (behind.dropWhile isDigitOrGap), behind.dropWhile isDigitOrGap)
    | _ => (none, rest)
  match rest with
  | 'e' :: behind | 'E' :: behind => (afterExponent? behind).or pointed
  | _ => pointed

/-- What follows the digits of a whole number. -/
def afterWhole? (input : List Char) : Option (List Char) :=
  let (base, digits) := baseOf input
  let belongs := fun c => c.isDigit || c = '_' || (digit? base c).isSome
  let spelled := digits.takeWhile belongs
  if spelled.all (fun c => c = '_' || (digit? base c).isSome) && spelled.any (· ≠ '_') then
    some (digits.dropWhile belongs)
  else none

/-- Splits a number off, with the word behind it. -/
def take? (input : List Char) : Option (List Char × List Char) :=
  if input.head?.any Char.isDigit then do
    let rest := afterSuffix (← (afterScaled? input).or (afterWhole? input))
    pure (input.take (input.length - rest.length), rest)
  else none

/-- Whether what follows the digits of a decimal number makes it a fraction: a point, or an
    exponent with a sign or a digit. -/
def isScaled : List Char → Bool
  | '.' :: _ => true
  | 'e' :: rest | 'E' :: rest =>
    (rest.dropWhile (· = '_')).head?.any fun c => c.isDigit || c = '+' || c = '-'
  | _ => false

/-- The integer that a number spells: digits of its base, with underscores anywhere, and a suffix
    that does not matter. -/
def integer? (spelled : List Char) : Option Nat :=
  let (base, digits) := baseOf spelled
  let belongs := fun c => c = '_' || (digit? base c).isSome
  let values := (digits.takeWhile belongs).filterMap (digit? base)
  let suffix := digits.dropWhile belongs
  if values.isEmpty || (base = 10 && isScaled suffix) then none
  else some (values.foldl (fun n d => n * base + d) 0)

end ObjectWire.Derive.Numeral
