import ObjectWire.Bytes

/-!
# Hexadecimal digits

Numbers and runs of bytes read from hexadecimal digits, of either case.
-/

namespace ObjectWire.Hexadecimal

/-- The value of a hexadecimal digit. -/
def digit? (c : Char) : Option Nat :=
  if c.isDigit then some (c.toNat - '0'.toNat)
  else if 'a' ≤ c && c ≤ 'f' then some (c.toNat - 'a'.toNat + 10)
  else if 'A' ≤ c && c ≤ 'F' then some (c.toNat - 'A'.toNat + 10)
  else none

/-- The number that two hexadecimal digits spell. -/
def pair? (high low : Char) : Option Nat := do
  return (← digit? high) * 16 + (← digit? low)

/-- The bytes that pairs of hexadecimal digits spell, up to the first pair that is none. -/
def bytes : List Char → Bytes
  | high :: low :: rest =>
    match pair? high low with
    | some n => UInt8.ofNat n :: bytes rest
    | none => []
  | _ => []

end ObjectWire.Hexadecimal
