import ObjectWire.Wire.Scalar
import ObjectWire.Instant
import ObjectWire.TwosComplement

/-!
# Typed items

The items that can be written without any service: fixed-width numbers and flags, texts, runs of
bytes, instants, integers of any size, items that may be absent and lists.  A `Shape` says what to
read; an `Item` is what was read or is to be written.
-/

namespace ObjectWire

/-- The shape of an item. -/
inductive Shape
  | byte
  | short
  | int
  | long
  | bool
  | text
  | bytes
  | instant
  | bigInteger
  | option (inner : Shape)
  | list (inner : Shape)
  deriving Repr, DecidableEq

/-- An item. -/
inductive Item
  | byte (n : Int8)
  | short (n : Int16)
  | int (n : Int32)
  | long (n : Int64)
  | bool (b : Bool)
  | text (s : String)
  | bytes (run : Bytes)
  | instant (t : Instant)
  | bigInteger (n : Int)
  | absent
  | present (item : Item)
  | list (items : List Item)

namespace Wire

/-- The wire form of an instant: its milliseconds. -/
def instant (t : Instant) : Bytes := long t.millis

/-- The wire form of an integer of any size: its two's complement behind the number of bytes. -/
def bigInteger (n : Int) : Except Failure Bytes := byteArray (TwosComplement.encode n)

end Wire

namespace Input

/-- Reads an instant; the calendar must have it. -/
def instant : Act Input Instant := do
  let millis ← long
  match Instant.ofMillis? millis with
  | some t => pure t
  | none => Act.fail (.timestampOutOfRange millis)

/-- Reads an integer of any size; it takes at least one byte. -/
def bigInteger : Act Input Int := do
  match ← byteArray with
  | [] => Act.fail .emptyBigInteger
  | run => pure (TwosComplement.decode run)

end Input

namespace Item

mutual
/-- The wire form of an item. -/
def encode : Item → Except Failure Bytes
  | byte n => .ok (Wire.byte n)
  | short n => .ok (Wire.short n)
  | int n => .ok (Wire.int n)
  | long n => .ok (Wire.long n)
  | bool b => .ok (Wire.bool b)
  | text s => Wire.string s
  | bytes run => Wire.byteArray run
  | instant t => .ok (Wire.instant t)
  | bigInteger n => Wire.bigInteger n
  | absent => .ok (Wire.bool false)
  | present item => (Wire.bool true ++ ·) <$> encode item
  | list items => do return (← Wire.length .list items.length) ++ (← encodeAll items)

/-- The wire forms of items, one after the other. -/
def encodeAll : List Item → Except Failure Bytes
  | [] => .ok []
  | item :: items => do return (← encode item) ++ (← encodeAll items)
end

end Item

namespace Shape

/-- Reads an item of a shape. -/
def decode : Shape → Act Input Item
  | byte => .byte <$> Input.byte
  | short => .short <$> Input.short
  | int => .int <$> Input.int
  | long => .long <$> Input.long
  | bool => .bool <$> Input.bool
  | text => .text <$> Input.string
  | bytes => .bytes <$> Input.byteArray
  | instant => .instant <$> Input.instant
  | bigInteger => .bigInteger <$> Input.bigInteger
  | option inner => do
    if ← Input.bool then .present <$> inner.decode else pure .absent
  | list inner => do
    let count ← Input.length .list
    .list <$> Act.times count inner.decode

end Shape

end ObjectWire
