import ObjectWire.Wire.Scalar

/-!
# The data of a field

What a field holds if it holds no object: a scalar, a text or a run of scalars or texts.  All but
scalars may be absent, and a flag in front says so.
-/

namespace ObjectWire

/-- The data of a field that holds no object. -/
inductive FieldData
  | scalar (kind : ScalarKind) (item : kind.Item)
  | text (s : Option String)
  | array (kind : ScalarKind) (items : Option (List kind.Item))
  | textArray (items : Option (List String))
  deriving DecidableEq

namespace FieldData

/-- The kind of field that holds such data. -/
def kind : FieldData → FieldKind
  | scalar kind _ => .scalar kind
  | text _ => .text
  | array kind _ => .array kind
  | textArray _ => .textArray

/-- Writes a run of items behind the flag and their number. -/
def writeRun {α : Type} (encode : α → Except Failure Bytes) : Option (List α) → Act Output Unit
  | none => Output.write (Wire.bool false)
  | some items => do
    Output.write (Wire.bool true)
    Output.writeItem (Wire.length .array items.length)
    Act.forEach (fun item => Output.writeItem (encode item)) items

/-- Writes the data of a field.  If an item has no wire form, what precedes it stays written. -/
def write : FieldData → Act Output Unit
  | scalar kind item => Output.writeItem (kind.encode item)
  | text none => Output.write (Wire.bool false)
  | text (some s) => do
    Output.write (Wire.bool true)
    Output.writeItem (Wire.string s)
  | array kind items => writeRun kind.encode items
  | textArray items => writeRun Wire.string items

end FieldData

end ObjectWire
