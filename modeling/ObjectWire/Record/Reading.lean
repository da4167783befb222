import ObjectWire.Wire.Scalar

/-!
# Readings

A record that is written as an identified object: its fields one after the other, without names.
One field, the cached count, stays behind.
-/

namespace ObjectWire

/-- A reading of a sensor. -/
structure Reading where
  sensor : String
  value : Double
  ratio : Single
  ok : Bool
  tiny : Int8
  small : Int16
  count : Int32
  sequence : Int64
  raw : Bytes
  cached : Int32
  deriving DecidableEq

namespace Reading

/-- The factory of readings. -/
def factoryId : Int32 := 20

/-- The class of readings within their factory. -/
def classId : Int32 := 3

/-- A reading of nothing. -/
def blank : Reading := ⟨"", ⟨0⟩, ⟨0⟩, false, 0, 0, 0, 0, [], 0⟩

/-- Writes the fields of a reading. -/
def write (r : Reading) : Act Output Unit := do
  Output.writeItem (Wire.string r.sensor)
  Output.writeItem (ScalarKind.double.encode r.value)
  Output.writeItem (ScalarKind.float.encode r.ratio)
  Output.write (Wire.bool r.ok)
  Output.write (Wire.byte r.tiny)
  Output.write (Wire.short r.small)
  Output.write (Wire.int r.count)
  Output.write (Wire.long r.sequence)
  Output.writeItem (Wire.byteArray r.raw)

/-- Reads a reading; the cached count is blank. -/
def read : Act Input Reading := do
  let sensor ← Input.string
  let value ← ScalarKind.double.decode
  let ratio ← ScalarKind.float.decode
  let ok ← Input.bool
  let tiny ← Input.byte
  let small ← Input.short
  let count ← Input.int
  let sequence ← Input.long
  let raw ← Input.byteArray
  pure ⟨sensor, value, ratio, ok, tiny, small, count, sequence, raw, blank.cached⟩

end Reading

end ObjectWire
