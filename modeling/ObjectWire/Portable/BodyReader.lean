import ObjectWire.ClassDefinition
import ObjectWire.Portable.FieldData

/-!
# Reading the body of an object

A body opens with a table of one offset per field, and the data of the fields follow.  Fields are
found through the table, so they can be read in any order and any number of times.  A field the
class does not have, or whose offset says it was never written, reads as the default of its kind.
-/

namespace ObjectWire

/-- The body of an object, with the definition it was written by. -/
structure BodyReader where
  definition : ClassDefinition
  body : Bytes

namespace BodyReader

/-- The offset of a field that was never written. -/
def unwritten : Int32 := -1

/-- The size of the offset table of a class. -/
def tableSize (definition : ClassDefinition) : Nat := definition.fields.length * 4

/-- A reader; the body must have room for the table. -/
def start (definition : ClassDefinition) (body : Bytes) : Except Failure BodyReader :=
  if body.length < tableSize definition then
    .error (.bodyTooShort body.length definition.fields.length)
  else .ok ⟨definition, body⟩

/-- The offset the table has for a field. -/
def offsetOf (reader : BodyReader) (field : Field) : Except Failure Int32 :=
  (Input.int.run (.ofBytes (reader.body.drop (field.index.toNatClampNeg * 4)))).1

/-- The body from the data of a field on, or nothing if the field is absent. -/
def seek (reader : BodyReader) (name : String) (kind : FieldKind) :
    Except Failure (Option Input) := do
  match reader.definition.field? name with
  | none => pure none
  | some field =>
    if field.kind ≠ kind then throw (.kindMismatch name kind field.kind)
    let offset ← reader.offsetOf field
    if offset = unwritten then pure none
    else if (tableSize reader.definition : Int) ≤ offset.toInt &&
        offset.toInt ≤ reader.body.length then
      pure (some (.ofBytes (reader.body.drop offset.toNatClampNeg)))
    else throw (.invalidOffset name offset)

/-- Like `seek`, for data that may be absent: the flag in front is read as well. -/
def seekPresent (reader : BodyReader) (name : String) (kind : FieldKind) :
    Except Failure (Option Input) := do
  match ← reader.seek name kind with
  | none => pure none
  | some input =>
    match Input.bool.run input with
    | (.ok true, input) => pure (some input)
    | (.ok false, _) => pure none
    | (.error failure, _) => throw failure

/-- The scalar in a field. -/
def scalar (reader : BodyReader) (kind : ScalarKind) (name : String) :
    Except Failure kind.Item := do
  match ← reader.seek name (.scalar kind) with
  | none => pure kind.default
  | some input => (kind.decode.run input).1

/-- The text in a field. -/
def text (reader : BodyReader) (name : String) : Except Failure (Option String) := do
  match ← reader.seekPresent name .text with
  | none => pure none
  | some input => some <$> (Input.string.run input).1

/-- The run of items in a field of a given kind. -/
def run {α : Type} (reader : BodyReader) (kind : FieldKind) (item : Act Input α) (name : String) :
    Except Failure (Option (List α)) := do
  match ← reader.seekPresent name kind with
  | none => pure none
  | some input =>
    let items : Act Input (List α) := do
      let count ← Input.int
      if count < 0 then Act.fail (.negativeArrayLength count name)
      else Act.times count.toNatClampNeg item
    some <$> (items.run input).1

/-- The run of scalars in a field. -/
def array (reader : BodyReader) (kind : ScalarKind) (name : String) :
    Except Failure (Option (List kind.Item)) :=
  reader.run (.array kind) kind.decode name

/-- The run of texts in a field. -/
def textArray (reader : BodyReader) (name : String) : Except Failure (Option (List String)) :=
  reader.run .textArray Input.string name

end BodyReader

end ObjectWire
