import ObjectWire.Json

/-!
# Parsing JSON

A document may have blanks around every part and nothing behind it.  Each step takes a byte at
least or goes one level deeper right behind one, so the length of the input bounds the work; the
bound is passed along as fuel.
-/

namespace ObjectWire.Json

/-- Drops blanks in front. -/
def skipBlanks (input : Bytes) : Bytes :=
  input.dropWhile fun b => b = 0x20 || b = 0x09 || b = 0x0A || b = 0x0D

/-- Splits a quoted text, whose opening quote is gone, at the closing one.  Escapes must be known
    and controls must be escaped. -/
def scanQuoted : Bytes → Option (Bytes × Bytes)
  | [] => none
  | 0x22 :: rest => some ([], rest)
  | 0x5C :: 0x75 :: a :: b :: c :: d :: rest =>
    if (hexValues? a b c d).isSome then
      (fun (quoted, rest) => (0x5C :: 0x75 :: a :: b :: c :: d :: quoted, rest)) <$>
        scanQuoted rest
    else none
  | 0x5C :: letter :: rest =>
    if (shortEscape? letter).isSome then
      (fun (quoted, rest) => (0x5C :: letter :: quoted, rest)) <$> scanQuoted rest
    else none
  | b :: rest =>
    if b < 0x20 || b = 0x5C then none
    else (fun (quoted, rest) => (b :: quoted, rest)) <$> scanQuoted rest

/-- Whether a byte is a decimal digit. -/
def isDigit (b : UInt8) : Bool := 0x30 ≤ b && b ≤ 0x39

/-- Splits off decimal digits, of which there must be one. -/
def scanDigits (input : Bytes) : Option (Bytes × Bytes) :=
  let digits := input.takeWhile isDigit
  if digits.isEmpty then none else some (digits, input.dropWhile isDigit)

/-- Splits off the digits of an integer: a zero stands alone. -/
def scanInteger : Bytes → Option (Bytes × Bytes)
  | 0x30 :: rest =>
    match rest with
    | b :: _ => if isDigit b then none else some ([0x30], rest)
    | [] => some ([0x30], rest)
  | input => scanDigits input

/-- Splits off a fraction, if there is one. -/
def scanFraction : Bytes → Option (Bytes × Bytes)
  | 0x2E :: rest => (fun (digits, rest) => (0x2E :: digits, rest)) <$> scanDigits rest
  | input => some ([], input)

/-- Splits off an exponent, if there is one. -/
def scanExponent : Bytes → Option (Bytes × Bytes)
  | e :: rest =>
    if e = 0x65 || e = 0x45 then
      match rest with
      | sign :: digits =>
        if sign = 0x2B || sign = 0x2D then
          (fun (digits, rest) => (e :: sign :: digits, rest)) <$> scanDigits digits
        else (fun (digits, rest) => (e :: digits, rest)) <$> scanDigits rest
      | [] => none
    else some ([], e :: rest)
  | [] => some ([], [])

/-- Splits off a number. -/
def scanNumber (input : Bytes) : Option (Bytes × Bytes) := do
  let (sign, input) : Bytes × Bytes := match input with
    | 0x2D :: rest => ([0x2D], rest)
    | _ => ([], input)
  let (integer, input) ← scanInteger input
  let (fraction, input) ← scanFraction input
  let (exponent, input) ← scanExponent input
  pure (sign ++ integer ++ fraction ++ exponent, input)

/-- Splits off a given word. -/
def scanWord (word : String) (value : Json) (input : Bytes) : Option (Json × Bytes) :=
  let letters := ascii word
  if input.take letters.length = letters then some (value, input.drop letters.length) else none

mutual
/-- A document, behind blanks. -/
def parseValue : (fuel : Nat) → Bytes → Option (Json × Bytes)
  | 0, _ => none
  | fuel + 1, input =>
    match skipBlanks input with
    | 0x22 :: rest => (fun (quoted, rest) => (.string quoted, rest)) <$> scanQuoted rest
    | 0x5B :: rest =>
      match skipBlanks rest with
      | 0x5D :: rest => some (.array [], rest)
      | _ => (fun (items, rest) => (.array items, rest)) <$> parseItems fuel rest
    | 0x7B :: rest =>
      match skipBlanks rest with
      | 0x7D :: rest => some (.object [], rest)
      | _ => (fun (members, rest) => (.object members, rest)) <$> parseMembers fuel rest
    | 0x6E :: rest => scanWord "null" .null (0x6E :: rest)
    | 0x74 :: rest => scanWord "true" (.bool true) (0x74 :: rest)
    | 0x66 :: rest => scanWord "false" (.bool false) (0x66 :: rest)
    | input => (fun (spelled, rest) => (.number spelled, rest)) <$> scanNumber input

/-- Items up to the closing bracket; there is one at least. -/
def parseItems : (fuel : Nat) → Bytes → Option (List Json × Bytes)
  | 0, _ => none
  | fuel + 1, input =>
    match parseValue fuel input with
    | none => none
    | some (item, rest) =>
      match skipBlanks rest with
      | 0x5D :: rest => some ([item], rest)
      | 0x2C :: rest => (fun (items, rest) => (item :: items, rest)) <$> parseItems fuel rest
      | _ => none

/-- Members up to the closing brace; there is one at least. -/
def parseMembers : (fuel : Nat) → Bytes → Option (List (Bytes × Json) × Bytes)
  | 0, _ => none
  | fuel + 1, input =>
    match skipBlanks input with
    | 0x22 :: rest =>
      match scanQuoted rest with
      | none => none
      | some (name, rest) =>
        match skipBlanks rest with
        | 0x3A :: rest =>
          match parseValue fuel rest with
          | none => none
          | some (item, rest) =>
            match skipBlanks rest with
            | 0x7D :: rest => some ([(name, item)], rest)
            | 0x2C :: rest =>
              (fun (members, rest) => ((name, item) :: members, rest)) <$> parseMembers fuel rest
            | _ => none
        | _ => none
    | _ => none
end

/-- The document that an input is. -/
def parse? (input : Bytes) : Option Json := do
  let (document, rest) ← parseValue (2 * input.length + 2) input
  if (skipBlanks rest).isEmpty then some document else none

end ObjectWire.Json
