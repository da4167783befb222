import ObjectWire.ClassDefinition.Forms
import ObjectWire.Wire.Scalar

/-!
# Envelopes

What encoding a value yields: the type id of the codec, the bytes it wrote and, for portable
objects, the definition they were written by.  An envelope also answers which partition it belongs
to, by a hash given explicitly or else by the hash of its bytes.
-/

namespace ObjectWire

/-- An encoded value. -/
structure Envelope where
  typeId : Int32
  payload : Bytes
  definition : Option ClassDefinition
  explicitHash : Option Int32

namespace Envelope

/-- An envelope without a definition and without an explicit hash. -/
def plain (typeId : Int32) (payload : Bytes) : Envelope := ⟨typeId, payload, none, none⟩

/-- The hash of a run of bytes: a polynomial in 31 over the signed bytes, with a leading one. -/
def payloadHash (payload : Bytes) : Int32 :=
  payload.foldl (fun h b => h * 31 + b.toInt8.toInt32) 1

/-- The hash that decides on the partition. -/
def partitionHash (envelope : Envelope) : Int32 :=
  envelope.explicitHash.getD (payloadHash envelope.payload)

/-- The envelope as it is kept where others find it: with labels in its definition. -/
def labelled (envelope : Envelope) (forms : CompressedForms) : Envelope × CompressedForms :=
  match envelope.definition with
  | none => (envelope, forms)
  | some definition =>
    let (definition, forms) := forms.label definition
    ({ envelope with definition := some definition }, forms)

/-- Whether two envelopes are equal: only the type id and the bytes count. -/
def same (a b : Envelope) : Bool := a.typeId = b.typeId && a.payload = b.payload

/-- What a hash table sees of an envelope: what equality sees. -/
def hashed (envelope : Envelope) : Int32 × Bytes := (envelope.typeId, envelope.payload)

/-- Something that may be missing, as shown in messages. -/
def optionShown : Option String → String
  | some shown => s!"Some({shown})"
  | none => "None"

/-- A field, as shown in messages. -/
def fieldShown (field : Field) : String :=
  "FieldDefinition \x7b name: " ++ Quoted.text field.name ++ ", field_type: " ++ field.kind.name ++
    s!", index: {field.index}, class_id: {field.nested.classId}, " ++
    s!"version: {field.nested.version} \x7d"

mutual
/-- A definition, as shown in messages, which take its compressed form to be unknown. -/
def definitionShown : ClassDefinition → String
  | ⟨key, fields, nested, _⟩ =>
    s!"ClassDefinition \x7b class_id: {key.classId}, version: {key.version}, fields: " ++
      Quoted.list (fields.map fieldShown) ++ ", field_indices: \x7b" ++
      ", ".intercalate (fields.map fun f => Quoted.text f.name ++ s!": {f.index}") ++
      "\x7d, nested: " ++ Quoted.list (definitionsShown nested) ++
      ", binary: OnceLock(<uninit>) \x7d"

/-- Definitions, as shown in messages. -/
def definitionsShown : List ClassDefinition → List String
  | [] => []
  | definition :: definitions => definitionShown definition :: definitionsShown definitions
end

/-- An envelope, as shown in messages. -/
def shown (envelope : Envelope) : String :=
  s!"Data \x7b type_id: {envelope.typeId}, buffer: " ++ Quoted.bytes envelope.payload ++
    ", class_definition: " ++ optionShown (envelope.definition.map definitionShown) ++
    ", partition_hash: " ++ optionShown (envelope.explicitHash.map toString) ++ " \x7d"

end Envelope

end ObjectWire
