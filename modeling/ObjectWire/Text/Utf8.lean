import ObjectWire.Bytes

/-!
# UTF-8 text

Text travels as UTF-8.  `Utf8.encode` writes the shortest form of every character;
`Utf8.decode` accepts exactly the well-formed sequences and otherwise says where the
longest valid front ends and how long the offending sequence is.
-/

namespace ObjectWire

/-- Why a run of bytes is not UTF-8 text.  `index` is the length of the longest valid front. -/
inductive Utf8Fault
  /-- A sequence of `length` bytes that no following byte could complete. -/
  | invalid (length index : Nat)
  /-- The input ends inside a sequence that is well formed so far. -/
  | incomplete (index : Nat)
  deriving Repr, DecidableEq

namespace Utf8Fault

/-- The fault in words. -/
def message : Utf8Fault → String
  | .invalid length index => s!"invalid utf-8 sequence of {length} bytes from index {index}"
  | .incomplete index => s!"incomplete utf-8 byte sequence from index {index}"

end Utf8Fault

namespace Utf8

/-- The bytes of a text. -/
def encode (text : String) : Bytes := text.toList.flatMap String.utf8EncodeChar

/-- The number of bytes a text takes. -/
def width (text : String) : Nat := (encode text).length

/-- A byte that continues a sequence. -/
def continues (b : UInt8) : Bool := 0x80 ≤ b && b ≤ 0xBF

/-- The second bytes that may follow the first byte of a longer sequence: the ranges leave
    out overlong forms, surrogates and everything beyond U+10FFFF. -/
def secondFits (lead second : UInt8) : Bool :=
  if lead = 0xE0 then 0xA0 ≤ second && second ≤ 0xBF
  else if lead = 0xED then 0x80 ≤ second && second ≤ 0x9F
  else if lead = 0xF0 then 0x90 ≤ second && second ≤ 0xBF
  else if lead = 0xF4 then 0x80 ≤ second && second ≤ 0x8F
  else continues second

/-- The six payload bits of a continuing byte. -/
def payload (b : UInt8) : Nat := b.toNat % 64

/-- Characters of a run of bytes that starts at `index` of the whole input. -/
def decodeAt (index : Nat) : Bytes → Except Utf8Fault (List Char)
  | [] => .ok []
  | a :: afterA =>
    if a < 0x80 then
      (Char.ofNat a.toNat :: ·) <$> decodeAt (index + 1) afterA
    else if 0xC2 ≤ a && a ≤ 0xDF then
      match afterA with
      | [] => .error (.incomplete index)
      | b :: afterB =>
        if continues b then
          (Char.ofNat (a.toNat % 32 * 64 + payload b) :: ·) <$> decodeAt (index + 2) afterB
        else .error (.invalid 1 index)
    else if 0xE0 ≤ a && a ≤ 0xEF then
      match afterA with
      | [] => .error (.incomplete index)
      | b :: afterB =>
        if secondFits a b then
          match afterB with
          | [] => .error (.incomplete index)
          | c :: afterC =>
            if continues c then
              (Char.ofNat (a.toNat % 16 * 4096 + payload b * 64 + payload c) :: ·) <$>
                decodeAt (index + 3) afterC
            else .error (.invalid 2 index)
        else .error (.invalid 1 index)
    else if 0xF0 ≤ a && a ≤ 0xF4 then
      match afterA with
      | [] => .error (.incomplete index)
      | b :: afterB =>
        if secondFits a b then
          match afterB with
          | [] => .error (.incomplete index)
          | c :: afterC =>
            if continues c then
              match afterC with
              | [] => .error (.incomplete index)
              | d :: afterD =>
                if continues d then
                  (Char.ofNat
                      (a.toNat % 8 * 262144 + payload b * 4096 + payload c * 64 + payload d) :: ·)
                    <$> decodeAt (index + 4) afterD
                else .error (.invalid 3 index)
            else .error (.invalid 2 index)
        else .error (.invalid 1 index)
    else .error (.invalid 1 index)

/-- The text a run of bytes stands for. -/
def decode (bytes : Bytes) : Except Utf8Fault String := String.ofList <$> decodeAt 0 bytes

end Utf8

end ObjectWire
