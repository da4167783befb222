import ObjectWire.Act

/-!
# Writing to a buffer

The wire form of the primitive items, and the buffer they are appended to.  A flag takes one byte,
words are big-endian, texts and runs of bytes stand behind a 32-bit length, so only an item of
2³¹ bytes or more has no wire form.
-/

namespace ObjectWire

namespace Wire

/-- The wire form of a signed byte. -/
def byte (n : Int8) : Bytes := [n.toUInt8]

/-- The wire form of a flag. -/
def bool (b : Bool) : Bytes := [if b then 1 else 0]

/-- The wire form of a 16-bit word. -/
def short (n : Int16) : Bytes := BigEndian.encode 2 n.toUInt16.toNat

/-- The wire form of a 32-bit word. -/
def int (n : Int32) : Bytes := BigEndian.encode 4 n.toUInt32.toNat

/-- The wire form of a 64-bit word. -/
def long (n : Int64) : Bytes := BigEndian.encode 8 n.toUInt64.toNat

/-- The number of items or bytes a length can declare, exclusively. -/
def lengthLimit : Nat := 0x80000000

/-- The wire form of a length, unless a 32-bit word cannot hold it. -/
def length (of : Counted) (n : Nat) : Except Failure Bytes :=
  if n < lengthLimit then .ok (BigEndian.encode 4 n) else .error (.tooLong of n)

/-- The wire form of a run of bytes: its length, then the bytes. -/
def byteArray (run : Bytes) : Except Failure Bytes := (· ++ run) <$> length .byteArray run.length

/-- The wire form of a text: the length of its bytes, then the bytes. -/
def string (text : String) : Except Failure Bytes :=
  (· ++ Utf8.encode text) <$> length .string (Utf8.width text)

end Wire

/-- How buffers grow: the capacity that one gets if it needs more than it has, which may be more than
    is needed. -/
structure Growth where
  grow : (capacity needed : Nat) → Nat
  enough : ∀ capacity needed, needed ≤ grow capacity needed

/-- To twice the capacity, so that many small growths cost little, unless more is needed. -/
def Growth.amortised : Growth where
  grow capacity needed := max (max (2 * capacity) 8) needed
  enough _ _ := Nat.le_max_right ..

/-- The room of a buffer: for how many bytes it is, and how it grows. -/
structure Room where
  capacity : Nat
  growth : Growth

/-- The room once so many bytes were needed. -/
def Room.holding (needed : Nat) (room : Room) : Room :=
  if needed ≤ room.capacity then room
  else { room with capacity := room.growth.grow room.capacity needed }

/-- A buffer: its content, and its room. -/
structure Output where
  content : Bytes
  room : Room

namespace Output

/-- A buffer without content. -/
def empty (capacity : Nat) (growth : Growth := .amortised) : Output := ⟨[], capacity, growth⟩

/-- The number of bytes in the buffer. -/
def size (output : Output) : Nat := output.content.length

/-- The number of bytes the buffer has room for. -/
def capacity (output : Output) : Nat := output.room.capacity

/-- Appends bytes; the buffer grows if they do not fit. -/
def append (run : Bytes) (output : Output) : Output :=
  ⟨output.content ++ run, output.room.holding (output.size + run.length)⟩

/-- Drops the content and keeps the room. -/
def clear (output : Output) : Output := ⟨[], output.room⟩

/-- Writes bytes. -/
def write (run : Bytes) : Act Output Unit := Act.change (append run)

/-- Writes an item that may have no wire form. -/
def writeItem (item : Except Failure Bytes) : Act Output Unit := do write (← Act.lift item)

/-- Overwrites the four bytes from `position` on. -/
def patchInt (position : Nat) (n : Int32) : Act Output Unit := fun output =>
  if position + 4 ≤ output.size then
    (.ok (), { output with
      content := output.content.take position ++ Wire.int n ++ output.content.drop (position + 4) })
  else (.error (.patchOutOfRange position output.size), output)

end Output

end ObjectWire
