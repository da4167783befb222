import ObjectWire.Portable.Context
import ObjectWire.Value

/-!
# Describing portable objects

The class of an object that is met for the first time is described by what the object writes: the
names and kinds of its fields in the order of the writes, and the definitions of the objects it
holds.  The description is registered and serves from then on.
-/

namespace ObjectWire.PortableContext

/-- The definition for a class whose object is not at hand. -/
def known (name : String) (classId : Int32) : Act PortableContext ClassDefinition := do
  match (← get).lookupCurrent classId with
  | some definition => pure definition
  | none => Act.fail (.undescribedClass name classId)

/-- Adds a field for a run of objects of a class, whose definition must be of that class. -/
def describeArray (name : String) (classId : Int32) (definition : ClassDefinition) (draft : Draft) :
    Act PortableContext Draft :=
  if definition.classId = classId then Act.lift (draft.addPortableArray name definition)
  else Act.fail (.declaredForClass name classId definition.classId)

/-- Adds fields for data that is no object. -/
def describeData : List (String × FieldData) → Draft → Except Failure Draft
  | [], draft => .ok draft
  | (name, data) :: fields, draft => do
    describeData fields (← draft.addField name data.kind)

/-- The class and version of an object; an object that names no version has the context's. -/
def keyOf (context : PortableContext) (p : Portable) : ClassKey :=
  ⟨p.classId, p.version.getD context.version⟩

/-- The registered definition of an object, or else the one that its description `fill` yields,
    which gets registered. -/
def describeBy (p : Portable) (fill : Draft → Act PortableContext Draft) :
    Act PortableContext ClassDefinition := do
  let context ← get
  let key := context.keyOf p
  match context.lookup key with
  | some definition => pure definition
  | none => do
    let draft ← fill (.start key)
    let definition ← Act.lift draft.build
    register definition

mutual

/-- The definition an object is written by. -/
def describe : Portable → Act PortableContext ClassDefinition
  | .scripted classId version writes key got =>
    describeBy (.scripted classId version writes key got) fun draft => describeWrites writes draft
  | .link classId behind => describeBy (.link classId behind) pure
  | .silent classId => describeBy (.silent classId) pure
  | .customer c => describeBy (.customer c) fun draft => Act.lift (describeData c.fields draft)
termination_by structural p => p

/-- Adds the fields of a list of writes. -/
def describeWrites : List FieldWrite → Draft → Act PortableContext Draft
  | [], draft => pure draft
  | write :: writes, draft => do
    let draft ← describeWrite write draft
    describeWrites writes draft
termination_by structural writes => writes

/-- Adds the field of a write. -/
def describeWrite : FieldWrite → Draft → Act PortableContext Draft
  | .data name value, draft => Act.lift (draft.addField name value.kind)
  | .portable name none, _ => Act.fail (.undescribedNull name)
  | .portable name (some p), draft => do
    let definition ← describe p
    Act.lift (draft.addPortable name definition)
  | .nullPortable name classId, draft => do
    let definition ← known name classId
    Act.lift (draft.addPortable name definition)
  | .portableArray name classId (some (p :: _)), draft => do
    let definition ← describe p
    describeArray name classId definition draft
  | .portableArray name classId (some []), draft => do
    let definition ← known name classId
    describeArray name classId definition draft
  | .portableArray name classId none, draft => do
    let definition ← known name classId
    describeArray name classId definition draft
  | .fail text, _ => Act.fail (.reported .serialization text)
termination_by structural write => write

end

end ObjectWire.PortableContext
