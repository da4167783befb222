import ObjectWire.Bytes
import ObjectWire.Text.Hidden

/-!
# Quoted text

How texts, characters and bytes are shown inside messages: between quotes, on one line, with
everything that would not show as itself escaped.
-/

namespace ObjectWire.Quoted

/-- A number in lower-case hexadecimal digits without leading zeros. -/
def hex (n : Nat) : String := String.ofList (Nat.toDigits 16 n)

/-- A byte as two lower-case hexadecimal digits. -/
def hexByte (b : UInt8) : String :=
  String.ofList [Nat.digitChar (b.toNat / 16), Nat.digitChar (b.toNat % 16)]

/-- One character between quotes of the kind `quote`. -/
def escape (quote c : Char) : String :=
  if c = '\x00' then "\\0"
  else if c = '\t' then "\\t"
  else if c = '\r' then "\\r"
  else if c = '\n' then "\\n"
  else if c = '\\' then "\\\\"
  else if c = quote then String.ofList ['\\', quote]
  else if Text.shows c then String.singleton c
  else "\\u\x7b" ++ hex c.toNat ++ "\x7d"

/-- A text between double quotes. -/
def text (s : String) : String :=
  "\"" ++ String.join (s.toList.map (escape '"')) ++ "\""

/-- A character between single quotes. -/
def char (c : Char) : String := "'" ++ escape '\'' c ++ "'"

/-- One byte of a quoted run. -/
def escapeByte (b : UInt8) : String :=
  if b = 0x0A then "\\n"
  else if b = 0x0D then "\\r"
  else if b = 0x09 then "\\t"
  else if b = 0x5C then "\\\\"
  else if b = 0x22 then "\\\""
  else if b = 0x00 then "\\0"
  else if 0x20 ≤ b && b < 0x7F then String.singleton (Char.ofNat b.toNat)
  else "\\x" ++ hexByte b

/-- A run of bytes between double quotes, marked as bytes. -/
def bytes (run : Bytes) : String :=
  "b\"" ++ String.join (run.map escapeByte) ++ "\""

/-- Items between brackets, separated by commas. -/
def list (items : List String) : String := "[" ++ ", ".intercalate items ++ "]"

end ObjectWire.Quoted
