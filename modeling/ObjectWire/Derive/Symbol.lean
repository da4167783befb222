import ObjectWire.Derive.Blanks
import ObjectWire.Derive.Numeral
import ObjectWire.Derive.Quotation

/-!
# Symbols

Attributes and types are read as runs of symbols: words, literals and single marks, with blanks
between them where needed.  Numbers keep their spelling.  Of literals that are neither numbers nor
texts it does not matter what they hold.
-/

namespace ObjectWire.Derive

/-- A symbol. -/
inductive Symbol
  | word (name : String)
  | number (spelled : List Char)
  | text (content : String)
  /-- A character, or a run of bytes. -/
  | quoted
  /-- A single mark, and whether another one follows without a blank. -/
  | mark (c : Char) (joined : Bool)
  /-- A comment that documents the code around it or behind it. -/
  | documentation (around : Bool) (content : String)
  deriving Repr, DecidableEq

namespace Symbol

/-- The marks that may stand by themselves. -/
def marks : List Char := "~!@#$%^&*-=+|;:,<.>/?'".toList

/-- The marks that open and close a run of symbols. -/
def brackets : List (Char × Char) := [('(', ')'), ('[', ']'), ('\x7b', '\x7d')]

/-- Whether a mark that is no bracket stands at the beginning, and no comment. -/
def startsMark : List Char → Bool
  | '/' :: '/' :: _ | '/' :: '*' :: _ => false
  | c :: _ => c ∈ marks
  | [] => false

/-- Splits off a quotation of some sort. -/
def takeQuotation? : List Char → Option (Symbol × List Char)
  | 'b' :: '\'' :: rest => (Prod.mk quoted) <$> Quoting.bytes.afterCharacter? rest
  | '\'' :: rest => (Prod.mk quoted) <$> Quoting.text.afterCharacter? rest
  | 'b' :: rest => (fun (_, rest) => (quoted, rest)) <$> Quoting.bytes.take? rest
  | 'c' :: rest => (fun (_, rest) => (quoted, rest)) <$> Quoting.terminated.take? rest
  | input =>
    (fun (content, rest) => (text (String.ofList content), rest)) <$> Quoting.text.take? input

/-- Splits off a literal, with the word behind it. -/
def takeLiteral? (input : List Char) : Option (Symbol × List Char) :=
  match takeQuotation? input with
  | some (symbol, rest) => some (symbol, afterSuffix rest)
  | none => (fun (spelled, rest) => (number spelled, rest)) <$> Numeral.take? input

/-- Whether the word behind an apostrophe names a lifetime: no other apostrophe closes it, and no
    `#` follows it unless it is marked. -/
def namesLifetime (input : List Char) : Bool :=
  match takeName? input with
  | none => false
  | some (_, rest) =>
    rest.head? ≠ some '\'' && (rest.head? ≠ some '#' || input.take 2 = rawMark)

/-- Splits off a mark. -/
def takeMark? : List Char → Option (Symbol × List Char)
  | [] => none
  | c :: rest =>
    if c = '\'' then if namesLifetime rest then some (mark c true, rest) else none
    else if brackets.any fun (opening, closing) => c = opening || c = closing then
      some (mark c false, rest)
    else if startsMark (c :: rest) then some (mark c (startsMark rest), rest)
    else none

/-- What a damaged quotation begins with; no word begins so. -/
def quotationStarts : List String :=
  ["r\"", "r#\"", "r##", "b\"", "b'", "br\"", "br#", "c\"", "cr\"", "cr#"]

/-- Splits off a word. -/
def takeWord? (input : List Char) : Option (Symbol × List Char) :=
  if quotationStarts.any fun start => start.toList.isPrefixOf input then none
  else (fun (name, rest) => (word (String.ofList name), rest)) <$> takeName? input

/-- Splits off a symbol. -/
def take? (input : List Char) : Option (Symbol × List Char) :=
  match takeDocumentation? input with
  | some (around, content, rest) => some (documentation around (String.ofList content), rest)
  | none => (takeLiteral? input).or ((takeMark? input).or (takeWord? input))

/-- The symbols of a text, each with its spelling; `none` if there is something that is neither a
    symbol nor a blank.  Every round takes a character at least, so the length of the input is
    fuel enough. -/
def scan? : (fuel : Nat) → List Char → Option (List (Symbol × List Char))
  | 0, input => if input.isEmpty then some [] else none
  | fuel + 1, input =>
    if input.isEmpty then some []
    else
      match afterBlank? input with
      | some rest => scan? fuel rest
      | none => do
        let (symbol, rest) ← take? input
        let others ← scan? fuel rest
        pure ((symbol, input.take (input.length - rest.length)) :: others)

/-- Whether brackets close in the order in which they open; `awaited` are the closing brackets
    that are due, the next one first. -/
def closes : (awaited : List Char) → List Symbol → Bool
  | awaited, [] => awaited.isEmpty
  | awaited, mark c _ :: symbols =>
    match brackets.lookup c with
    | some closing => closes (closing :: awaited) symbols
    | none =>
      if brackets.any fun (_, closing) => c = closing then
        awaited.head? = some c && closes (awaited.drop 1) symbols
      else closes awaited symbols
  | awaited, _ :: symbols => closes awaited symbols

/-- The symbols of a text with their spellings, if they make sense together. -/
def spelled? (s : String) : Option (List (Symbol × List Char)) := do
  let symbols ← scan? (s.length + 1) s.toList
  if closes [] (symbols.map Prod.fst) then pure symbols else none

/-- The symbols of a text, if they make sense together. -/
def ofText? (s : String) : Option (List Symbol) := (List.map Prod.fst) <$> spelled? s

end Symbol

end ObjectWire.Derive
