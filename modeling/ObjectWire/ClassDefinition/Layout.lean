import ObjectWire.ClassDefinition
import ObjectWire.Wire.Input
import ObjectWire.Wire.Output
import ObjectWire.Zlib

/-!
# The layout of a class definition

The form in which a definition is exchanged: its class and version, its fields, and the layouts of
its nested definitions.  Reading a layout checks what a draft checks, bounds the nesting, and
ignores class references of fields that cannot hold objects.  What travels is the compressed
layout.
-/

namespace ObjectWire

namespace Wire

/-- The wire form of a class and its version. -/
def classKey (key : ClassKey) : Bytes := int key.classId ++ int key.version

/-- The wire form of a number of entries. -/
def entries (n : Nat) : Except Failure Bytes :=
  if n < lengthLimit then .ok (BigEndian.encode 4 n) else .error (.tooManyEntries n)

/-- The wire form of a field. -/
def field (f : Field) : Except Failure Bytes := do
  return int f.index ++ (← string f.name) ++ [UInt8.ofNat f.kind.number] ++ classKey f.nested

/-- The wire forms of fields, one after the other. -/
def fields : List Field → Except Failure Bytes
  | [] => .ok []
  | f :: others => do return (← field f) ++ (← fields others)

end Wire

namespace ClassDefinition

mutual
/-- The layout of a definition. -/
def layout : ClassDefinition → Except Failure Bytes
  | ⟨key, fields, nested, _⟩ => do
    return Wire.classKey key ++ (← Wire.entries fields.length) ++ (← Wire.fields fields) ++
      (← Wire.entries nested.length) ++ (← layoutOfAll nested)

/-- The layouts of definitions, one after the other. -/
def layoutOfAll : List ClassDefinition → Except Failure Bytes
  | [] => .ok []
  | definition :: definitions => do return (← layout definition) ++ (← layoutOfAll definitions)
end

/-- The compressed layout of a definition. -/
def compressedLayout (definition : ClassDefinition) : Except Failure Bytes :=
  Zlib.compress <$> definition.layout

end ClassDefinition

namespace Input

/-- Reads a class and its version. -/
def classKey : Act Input ClassKey := do
  let classId ← int
  let version ← int
  pure ⟨classId, version⟩

/-- Reads a number of entries; `refusal` says what a negative one means. -/
def entries (refusal : Int32 → Failure) : Act Input Nat := do
  let count ← int
  if count < 0 then Act.fail (refusal count) else pure count.toNatClampNeg

/-- Reads a field. -/
def field : Act Input Field := do
  let index ← int
  let name ← string
  let number ← byte
  match FieldKind.ofNumber? number.toInt with
  | none => Act.fail (.unknownFieldKind number.toInt)
  | some kind =>
    let nested ← classKey
    pure ⟨name, kind, index, if kind.isPortable then nested else .none⟩

/-- Reads fields into a draft. -/
def fieldsInto : (count : Nat) → Draft → Act Input Draft
  | 0, draft => pure draft
  | count + 1, draft => do
    let draft ← Act.lift (draft.pushField (← field))
    fieldsInto count draft

/-- Reads nested definitions into a draft. -/
def nestedInto (nested : Act Input ClassDefinition) : (count : Nat) → Draft → Act Input Draft
  | 0, draft => pure draft
  | count + 1, draft => do
    let definition ← nested
    nestedInto nested count (draft.pushNested definition)

/-- Reads a layout that may still nest `levels - 1` deep. -/
def layoutWithin : (levels : Nat) → Act Input ClassDefinition
  | 0 => Act.fail .definitionTooDeep
  | levels + 1 => do
    let key ← classKey
    let fieldCount ← entries .negativeFieldCount
    let draft ← fieldsInto fieldCount (.start key)
    let nestedCount ← entries .negativeNestedCount
    let draft ← nestedInto (layoutWithin levels) nestedCount draft
    Act.lift draft.build

/-- Reads a layout. -/
def layout : Act Input ClassDefinition := layoutWithin (Failure.maxDefinitionLevels + 1)

end Input

namespace ClassDefinition

/-- The definition a compressed layout stands for.  Bytes behind the layout are ignored. -/
def ofCompressed (compressed : Bytes) : Except Failure ClassDefinition := do
  match Zlib.decompress? compressed with
  | none => throw .decompressionFailed
  | some run => (Input.layout.run (.ofBytes run)).1

end ClassDefinition

end ObjectWire
