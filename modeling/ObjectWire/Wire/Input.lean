import ObjectWire.Act

/-!
# Reading from a run of bytes

An `Input` is what is left of a run of bytes and how much of it is gone.  Every read either takes
exactly the bytes of its item or fails; a length prefix that was read stays read even if the item
behind it turns out to be cut off.
-/

namespace ObjectWire

/-- The unread rest of a run of bytes, and the number of bytes read before it. -/
structure Input where
  rest : Bytes
  position : Nat
  deriving Repr, DecidableEq

namespace Input

/-- A run of bytes of which nothing is read yet. -/
def ofBytes (bytes : Bytes) : Input := ⟨bytes, 0⟩

/-- The number of unread bytes. -/
def remaining (input : Input) : Nat := input.rest.length

/-- Takes the next `n` bytes. -/
def bytes (n : Nat) : Act Input Bytes := fun input =>
  if n ≤ input.remaining then
    (.ok (input.rest.take n), ⟨input.rest.drop n, input.position + n⟩)
  else (.error (.insufficientData n input.remaining), input)

/-- A big-endian word of `w` bytes. -/
def word (w : Nat) : Act Input Nat := BigEndian.decode <$> bytes w

/-- A signed byte. -/
def byte : Act Input Int8 := (fun n => (UInt8.ofNat n).toInt8) <$> word 1

/-- A flag; every byte but zero means yes. -/
def bool : Act Input Bool := (· != 0) <$> word 1

/-- A signed 16-bit word. -/
def short : Act Input Int16 := (fun n => (UInt16.ofNat n).toInt16) <$> word 2

/-- A signed 32-bit word. -/
def int : Act Input Int32 := (fun n => (UInt32.ofNat n).toInt32) <$> word 4

/-- A signed 64-bit word. -/
def long : Act Input Int64 := (fun n => (UInt64.ofNat n).toInt64) <$> word 8

/-- A length, which must not be negative. -/
def length (of : Counted) : Act Input Nat := do
  let n ← int
  if n < 0 then Act.fail (.negativeLength of n) else pure n.toNatClampNeg

/-- A run of bytes behind its length. -/
def byteArray : Act Input Bytes := do bytes (← length .byteArray)

/-- A text behind the length of its bytes. -/
def string : Act Input String := do
  match Utf8.decode (← bytes (← length .string)) with
  | .ok text => pure text
  | .error fault => Act.fail (.malformedText fault)

end Input

end ObjectWire
