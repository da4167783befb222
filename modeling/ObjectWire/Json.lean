import ObjectWire.Text.Utf8

/-!
# JSON documents

A document as a tree.  Texts are kept as they stand between their quotes, escapes included, and
numbers as they are spelled, because what a reader does not ask for is only checked for its form.
This module has the tree, the compact printed form, and the meaning of texts and numbers.
-/

namespace ObjectWire

/-- A JSON document. -/
inductive Json
  | null
  | bool (b : Bool)
  /-- A number as it is spelled. -/
  | number (spelled : Bytes)
  /-- A text as it stands between its quotes. -/
  | string (quoted : Bytes)
  | array (items : List Json)
  | object (members : List (Bytes × Json))

namespace Json

/-- The bytes of a text made of ASCII characters. -/
def ascii (s : String) : Bytes := s.toList.map fun c => UInt8.ofNat c.toNat

/-- The four digits of a number below 65536 in lower-case hexadecimal. -/
def hexDigits (n : Nat) : Bytes :=
  [n / 4096 % 16, n / 256 % 16, n / 16 % 16, n % 16].map fun d =>
    UInt8.ofNat (Nat.digitChar d).toNat

/-- A character as it stands between quotes. -/
def quoteChar (c : Char) : Bytes :=
  if c = '"' then ascii "\\\""
  else if c = '\\' then ascii "\\\\"
  else if c = '\x08' then ascii "\\b"
  else if c = '\x0c' then ascii "\\f"
  else if c = '\n' then ascii "\\n"
  else if c = '\r' then ascii "\\r"
  else if c = '\t' then ascii "\\t"
  else if c.toNat < 0x20 then ascii "\\u" ++ hexDigits c.toNat
  else String.utf8EncodeChar c

/-- A text as a document. -/
def ofText (s : String) : Json := .string (s.toList.flatMap quoteChar)

/-- An integer as a document. -/
def ofInt (n : Int) : Json := .number (ascii (toString n))

mutual
/-- The compact printed form. -/
def render : Json → Bytes
  | .null => ascii "null"
  | .bool b => ascii (if b then "true" else "false")
  | .number spelled => spelled
  | .string quoted => [0x22] ++ quoted ++ [0x22]
  | .array items => [0x5B] ++ renderItems items ++ [0x5D]
  | .object members => [0x7B] ++ renderMembers members ++ [0x7D]

/-- Items with commas between them. -/
def renderItems : List Json → Bytes
  | [] => []
  | [item] => render item
  | item :: items => render item ++ [0x2C] ++ renderItems items

/-- Members with commas between them. -/
def renderMembers : List (Bytes × Json) → Bytes
  | [] => []
  | [(name, item)] => [0x22] ++ name ++ [0x22, 0x3A] ++ render item
  | (name, item) :: members =>
    [0x22] ++ name ++ [0x22, 0x3A] ++ render item ++ [0x2C] ++ renderMembers members
end

/-- The value of a hexadecimal digit in either case. -/
def hexValue? (b : UInt8) : Option Nat :=
  if 0x30 ≤ b && b ≤ 0x39 then some (b.toNat - 0x30)
  else if 0x41 ≤ b && b ≤ 0x46 then some (b.toNat - 0x41 + 10)
  else if 0x61 ≤ b && b ≤ 0x66 then some (b.toNat - 0x61 + 10)
  else none

/-- The number four hexadecimal digits stand for. -/
def hexValues? (a b c d : UInt8) : Option Nat := do
  return (← hexValue? a) * 4096 + (← hexValue? b) * 256 + (← hexValue? c) * 16 + (← hexValue? d)

/-- What a one-letter escape stands for. -/
def shortEscape? (letter : UInt8) : Option UInt8 :=
  if letter = 0x22 || letter = 0x5C || letter = 0x2F then some letter
  else if letter = 0x62 then some 0x08
  else if letter = 0x66 then some 0x0C
  else if letter = 0x6E then some 0x0A
  else if letter = 0x72 then some 0x0D
  else if letter = 0x74 then some 0x09
  else none

/-- The bytes a quoted text stands for.  A character beyond the Basic Multilingual Plane may be
    escaped as a pair of surrogates; a surrogate on its own stands for nothing. -/
def unquote : Bytes → Option Bytes
  | [] => some []
  | 0x5C :: 0x75 :: a :: b :: c :: d :: rest =>
    match hexValues? a b c d with
    | none => none
    | some unit =>
      if 0xD800 ≤ unit && unit ≤ 0xDBFF then
        match rest with
        | 0x5C :: 0x75 :: e :: f :: g :: h :: rest =>
          match hexValues? e f g h with
          | none => none
          | some low =>
            if 0xDC00 ≤ low && low ≤ 0xDFFF then
              (String.utf8EncodeChar
                (Char.ofNat (0x10000 + (unit - 0xD800) * 0x400 + (low - 0xDC00))) ++ ·) <$>
                unquote rest
            else none
        | _ => none
      else if 0xDC00 ≤ unit && unit ≤ 0xDFFF then none
      else (String.utf8EncodeChar (Char.ofNat unit) ++ ·) <$> unquote rest
  | 0x5C :: letter :: rest =>
    match shortEscape? letter with
    | none => none
    | some b => (b :: ·) <$> unquote rest
  | b :: rest => if b = 0x5C then none else (b :: ·) <$> unquote rest

/-- The text between two quotes. -/
def unquoteText (quoted : Bytes) : Option String := do
  match Utf8.decode (← unquote quoted) with
  | .ok text => some text
  | .error _ => none

/-- The text a document is. -/
def text? : Json → Option String
  | .string quoted => unquoteText quoted
  | _ => none

/-- The number a run of decimal digits stands for. -/
def digits? (spelled : Bytes) : Option Nat :=
  if spelled.isEmpty then none
  else spelled.foldlM (fun n b =>
    if 0x30 ≤ b && b ≤ 0x39 then some (n * 10 + (b.toNat - 0x30)) else none) 0

/-- The integer a document is: no fraction, no exponent, and zero has no sign. -/
def int? : Json → Option Int
  | .number (0x2D :: digits) => do
    let n ← digits? digits
    if n = 0 then none else some (-(n : Int))
  | .number digits => (Int.ofNat ·) <$> digits? digits
  | _ => none

/-- The texts a document lists. -/
def texts? : Json → Option (List String)
  | .array items => items.mapM text?
  | _ => none

end Json

end ObjectWire
