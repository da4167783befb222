import ObjectWire.Text.Blank

/-!
# What stands between symbols

White space and comments.  A comment runs to the end of its line, or, between marks, over several
lines, and the latter may hold others of its sort.  A comment that begins with one mark more
documents the code; it belongs to the code and is no blank.
-/

namespace ObjectWire.Derive

/-- Splits at the end of the first line, which may be marked by one character or two. -/
def splitLine : List Char → List Char × List Char
  | [] => ([], [])
  | '\n' :: rest => ([], '\n' :: rest)
  | '\r' :: '\n' :: rest => ([], '\n' :: rest)
  | c :: rest => (c :: (splitLine rest).1, (splitLine rest).2)

/-- What follows a comment between marks, of which `depth` are open; `none` if it does not end. -/
def afterMarks? : (depth : Nat) → List Char → Option (List Char)
  | _, [] => none
  | depth, '/' :: '*' :: rest => afterMarks? (depth + 1) rest
  | depth, '*' :: '/' :: rest => if depth ≤ 1 then some rest else afterMarks? (depth - 1) rest
  | depth, _ :: rest => afterMarks? depth rest

/-- Whether a comment documents the code. -/
def documents : List Char → Bool
  | '/' :: '*' :: '!' :: _ => true
  | '/' :: '*' :: '*' :: rest => rest.head? ≠ some '*'
  | '/' :: '/' :: '!' :: _ => true
  | '/' :: '/' :: '/' :: rest => rest.head? ≠ some '/'
  | _ => false

/-- What follows the blank at the beginning, if there is one. -/
def afterBlank? : List Char → Option (List Char)
  | '/' :: '*' :: '*' :: '/' :: rest => some rest
  | '/' :: '*' :: rest =>
    if documents ('/' :: '*' :: rest) then none else afterMarks? 1 rest
  | '/' :: '/' :: rest =>
    if documents ('/' :: '/' :: rest) then none else some (splitLine rest).2
  | c :: rest => if Text.isBlank c then some rest else none
  | [] => none

/-- Whether every carriage return has a line feed behind it. -/
def returnsPaired : List Char → Bool
  | [] => true
  | '\r' :: '\n' :: rest => returnsPaired rest
  | c :: rest => c ≠ '\r' && returnsPaired rest

/-- What follows the two marks and the third character of a comment: its content, and the rest. -/
def commentContent? (input : List Char) : Option (List Char × List Char) :=
  if input.take 2 = ['/', '/'] then some (splitLine (input.drop 3))
  else do
    let rest ← afterMarks? 1 (input.drop 2)
    pure ((input.drop 3).take (input.length - rest.length - 5), rest)

/-- The documentation at the beginning: whether it is about what is around it rather than what
    follows, its content, and the rest. -/
def takeDocumentation? (input : List Char) : Option (Bool × List Char × List Char) :=
  if documents input then do
    let (content, rest) ← commentContent? input
    if returnsPaired content then pure (input[2]? = some '!', content, rest) else none
  else none

end ObjectWire.Derive
