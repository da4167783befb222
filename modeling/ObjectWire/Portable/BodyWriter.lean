import ObjectWire.Portable.BodyReader

/-!
# Writing the body of an object

A body begins with an offset of every field, all marked as unwritten.  Beginning a field checks
its name and kind against the definition, marks it as written and records where its data starts;
the data are appended behind.  A field whose data then fail to be written stays begun.
-/

namespace ObjectWire

/-- A body under construction. -/
structure BodyWriter where
  definition : ClassDefinition
  body : Output
  written : List Bool

namespace BodyWriter

/-- A body without data, in a given buffer. -/
def start (definition : ClassDefinition) (buffer : Output) : BodyWriter :=
  ⟨definition,
   buffer.append
     (List.replicate definition.fields.length (Wire.int BodyReader.unwritten)).flatten,
   List.replicate definition.fields.length false⟩

/-- Runs a step on the buffer of the body. -/
def onBody {α : Type} (step : Act Output α) : Act BodyWriter α :=
  Act.on body (fun body writer => { writer with body := body }) step

/-- Begins a field and answers with the class of the objects it holds. -/
def beginField (name : String) (kind : FieldKind) : Act BodyWriter Int32 := do
  let writer ← get
  match writer.definition.field? name with
  | none => Act.fail (.unknownField name writer.definition.classId)
  | some field =>
    if field.kind ≠ kind then Act.fail (.kindMismatch name field.kind kind)
    else do
      let index := field.index.toNatClampNeg
      if writer.written[index]?.getD false then Act.fail (.writtenTwice name)
      else do
        set { writer with written := writer.written.set index true }
        if Wire.lengthLimit ≤ writer.body.size then Act.fail .bodyTooLarge
        else do
          onBody (Output.patchInt (index * 4) (Int32.ofNat writer.body.size))
          pure field.nested.classId

/-- Requires an object to be of the class a field declares. -/
def checkClass (name : String) (declared actual : Int32) : Act BodyWriter Unit :=
  if declared = actual then pure () else Act.fail (.holdsClass name declared actual)

/-- Writes the data of a field. -/
def writeData (name : String) (data : FieldData) : Act BodyWriter Unit := do
  let _ ← beginField name data.kind
  onBody data.write

/-- Writes the data of fields, one after the other. -/
def writeAll (fields : List (String × FieldData)) : Act BodyWriter Unit :=
  Act.forEach (fun (name, data) => writeData name data) fields

end BodyWriter

end ObjectWire
