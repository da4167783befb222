import ObjectWire.Derive.Word
import ObjectWire.Text.Hexadecimal

/-!
# Quotations

Texts, runs of bytes and single characters between quotes.  A backslash in front of a character
stands for another one, and in front of a line's end it takes the end and the blanks behind it
away.  A raw quotation takes everything as it is, up to a quote with as many `#` behind it as it
opened with.
-/

namespace ObjectWire.Derive

/-- What a quotation stands for. -/
inductive Quoting
  /-- A text. -/
  | text
  /-- A run of bytes, spelled in ASCII. -/
  | bytes
  /-- A text in bytes, ended by a NUL that it must not hold. -/
  | terminated
  deriving Repr, DecidableEq

namespace Quoting

/-- Whether a character may stand for itself. -/
def admits : Quoting → Char → Bool
  | text, _ => true
  | bytes, c => c.toNat < 0x80
  | terminated, c => c ≠ '\x00'

/-- Whether a number in two hexadecimal digits may stand behind a backslash. -/
def admitsPair : Quoting → Nat → Bool
  | text, n => n < 0x80
  | bytes, _ => true
  | terminated, n => 0 < n

/-- What a letter behind a backslash stands for. -/
def letter? : Char → Option Char
  | 'n' => some '\n'
  | 'r' => some '\r'
  | 't' => some '\t'
  | '0' => some '\x00'
  | '\\' => some '\\'
  | '"' => some '"'
  | '\'' => some '\''
  | _ => none

/-- The most digits of a number between curly brackets. -/
def maxDigits : Nat := 6

/-- The number up to a closing curly bracket; underscores may stand between its digits. -/
def bracketed? : (digits n : Nat) → List Char → Option (Nat × List Char)
  | _, _, [] => none
  | digits, n, c :: rest =>
    if c = '\x7d' then if digits = 0 then none else some (n, rest)
    else if c = '_' then if digits = 0 then none else bracketed? digits n rest
    else if digits = maxDigits then none
    else do
      let d ← Hexadecimal.digit? c
      bracketed? (digits + 1) (n * 16 + d) rest

/-- The character that what stands behind a backslash makes, and the rest. -/
def escaped? (quoting : Quoting) : List Char → Option (Char × List Char)
  | 'x' :: high :: low :: rest => do
    let n ← Hexadecimal.pair? high low
    if quoting.admitsPair n then pure (Char.ofNat n, rest) else none
  | 'u' :: '\x7b' :: rest => do
    let (n, rest) ← bracketed? 0 0 rest
    if n.isValidChar && quoting ≠ bytes && quoting.admits (Char.ofNat n) then
      pure (Char.ofNat n, rest)
    else none
  | letter :: rest => do
    let c ← letter? letter
    if quoting.admits c then pure (c, rest) else none
  | [] => none

/-- What follows the blanks that a backslash at a line's end takes away. -/
def continued? : List Char → Option (List Char)
  | '\r' :: '\n' :: rest => continued? rest
  | c :: rest =>
    if c = '\r' then none
    else if c = ' ' || c = '\t' || c = '\n' then continued? rest
    else some (c :: rest)
  | [] => none

/-- The content up to the closing quote, and the rest.  Every round takes a character at least. -/
def cooked? (quoting : Quoting) : (fuel : Nat) → List Char → Option (List Char × List Char)
  | 0, _ => none
  | _ + 1, [] => none
  | _ + 1, '"' :: rest => some ([], rest)
  | fuel + 1, '\r' :: rest => do
    if rest.head? ≠ some '\n' then none
    let (content, rest) ← cooked? quoting fuel (rest.drop 1)
    pure ('\n' :: content, rest)
  | fuel + 1, '\\' :: c :: rest => do
    if c = '\n' || c = '\r' then cooked? quoting fuel (← continued? (c :: rest))
    else
      let (c, rest) ← quoting.escaped? (c :: rest)
      let (content, rest) ← cooked? quoting fuel rest
      pure (c :: content, rest)
  | fuel + 1, c :: rest => do
    if c = '\\' || !quoting.admits c then none
    let (content, rest) ← cooked? quoting fuel rest
    pure (c :: content, rest)

/-- The most `#` that a raw quotation opens with. -/
def maxHashes : Nat := 255

/-- The content of a raw quotation up to its end, and the rest. -/
def rawContent? (quoting : Quoting) (hashes : Nat) : List Char → Option (List Char × List Char)
  | [] => none
  | '\r' :: '\n' :: rest => do
    let (content, rest) ← rawContent? quoting hashes rest
    pure ('\r' :: '\n' :: content, rest)
  | c :: rest =>
    if c = '"' && rest.take hashes = List.replicate hashes '#' then some ([], rest.drop hashes)
    else if c = '\r' || !quoting.admits c then none
    else do
      let (content, rest) ← rawContent? quoting hashes rest
      pure (c :: content, rest)

/-- The content of a raw quotation, from the first `#` or quote on, and the rest. -/
def raw? (quoting : Quoting) (input : List Char) : Option (List Char × List Char) :=
  let hashes := (input.takeWhile (· = '#')).length
  if maxHashes < hashes then none
  else
    match input.drop hashes with
    | '"' :: rest => rawContent? quoting hashes rest
    | _ => none

/-- A quotation, from its first quote, or from the letter that makes it raw, on. -/
def take? (quoting : Quoting) : List Char → Option (List Char × List Char)
  | '"' :: rest => cooked? quoting (rest.length + 1) rest
  | 'r' :: rest => raw? quoting rest
  | _ => none

/-- What follows a single character and the closing quote behind it. -/
def afterCharacter? (quoting : Quoting) (input : List Char) : Option (List Char) := do
  let (_, rest) ← match input with
    | '\\' :: rest => quoting.escaped? rest
    | c :: rest => if quoting.admits c then some (c, rest) else none
    | [] => none
  if rest.head? = some '\'' then pure (rest.drop 1) else none

end Quoting

end ObjectWire.Derive
