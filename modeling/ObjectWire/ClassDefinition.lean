import ObjectWire.Act

/-!
# Class definitions

The schema of a class at one version: its fields in order, and the definitions of the classes its
fields refer to, so that a definition is complete on its own.  A definition may also carry a label,
by which it is recognised wherever it is held.  The label is not part of what the definition says:
two definitions are the `same` whatever their labels.

Definitions come out of a `Draft`, which takes one field after the other.
-/

namespace ObjectWire

/-- A class at one version. -/
structure ClassKey where
  classId : Int32
  version : Int32
  deriving Repr, DecidableEq

/-- What fields that refer to no class carry in place of a class. -/
def ClassKey.none : ClassKey := ⟨0, 0⟩

/-- A field of a class. -/
structure Field where
  name : String
  kind : FieldKind
  index : Int32
  /-- The class of the objects in the field. -/
  nested : ClassKey
  deriving Repr, DecidableEq

/-- The schema of a class at one version. -/
structure ClassDefinition where
  key : ClassKey
  fields : List Field
  nested : List ClassDefinition
  /-- What the definition is recognised by, if more than one place may hold it. -/
  label : Option Nat

namespace ClassDefinition

/-- The class a definition describes. -/
def classId (definition : ClassDefinition) : Int32 := definition.key.classId

/-- The version a definition describes. -/
def version (definition : ClassDefinition) : Int32 := definition.key.version

/-- The field of a given name.  It is searched for; the index of names that would find it in one step
    is an index of the fields and nothing else, which `IndexedFields` says. -/
def field? (definition : ClassDefinition) (name : String) : Option Field :=
  definition.fields.find? fun field => field.name = name

/-- Whether there is a field of a given name. -/
def hasField (definition : ClassDefinition) (name : String) : Bool :=
  (definition.field? name).isSome

mutual
/-- Whether two definitions say the same. -/
def same : ClassDefinition → ClassDefinition → Bool
  | ⟨key, fields, nested, _⟩, other =>
    key = other.key && fields = other.fields && sameAll nested other.nested

/-- Whether two lists of definitions say the same, one by one. -/
def sameAll : List ClassDefinition → List ClassDefinition → Bool
  | [], [] => true
  | definition :: definitions, other :: others =>
    definition.same other && sameAll definitions others
  | _, _ => false
end

/-- Whether a definition is recognised as another one: they have the same label and say the
    same. -/
def isCopyOf (definition other : ClassDefinition) : Bool :=
  definition.label.isSome && definition.label = other.label && definition.same other

mutual
/-- A definition with labels, its own and the nested ones, where it had none: numbers from `next`
    on.  Answers with the next number that is free as well. -/
def labelled : ClassDefinition → (next : Nat) → ClassDefinition × Nat
  | ⟨key, fields, nested, label⟩, next =>
    let (nested, next) := labelledAll nested next
    match label with
    | some label => (⟨key, fields, nested, some label⟩, next)
    | none => (⟨key, fields, nested, some next⟩, next + 1)

/-- Definitions with labels. -/
def labelledAll : List ClassDefinition → (next : Nat) → List ClassDefinition × Nat
  | [], next => ([], next)
  | definition :: definitions, next =>
    let (definition, next) := definition.labelled next
    let (definitions, next) := labelledAll definitions next
    (definition :: definitions, next)
end

mutual
/-- The levels of definitions nested inside a definition. -/
def depth : ClassDefinition → Nat
  | ⟨_, _, nested, _⟩ => depthOfAll nested

/-- The levels that a list of nested definitions adds. -/
def depthOfAll : List ClassDefinition → Nat
  | [] => 0
  | definition :: definitions => max (definition.depth + 1) (depthOfAll definitions)
end

mutual
/-- The number of definitions in a definition, itself included. -/
def count : ClassDefinition → Nat
  | ⟨_, _, nested, _⟩ => countAll nested + 1

/-- The number of definitions in a list of definitions. -/
def countAll : List ClassDefinition → Nat
  | [] => 0
  | definition :: definitions => definition.count + countAll definitions
end

end ClassDefinition

/-- A definition that still takes fields. -/
structure Draft where
  key : ClassKey
  fields : List Field
  nested : List ClassDefinition

namespace Draft

/-- A draft without fields. -/
def start (key : ClassKey) : Draft := ⟨key, [], []⟩

/-- Appends a field, whose name must be new.  The names so far are searched, as for
    `ClassDefinition.field?`. -/
def pushField (field : Field) (draft : Draft) : Except Failure Draft :=
  if draft.fields.any fun known => known.name = field.name then
    .error (.duplicateField field.name draft.key.classId)
  else .ok { draft with fields := draft.fields ++ [field] }

/-- Attaches a nested definition, unless one for the same class and version is attached. -/
def pushNested (definition : ClassDefinition) (draft : Draft) : Draft :=
  if draft.nested.any fun known => known.key = definition.key then draft
  else { draft with nested := draft.nested ++ [definition] }

/-- The index of the next field. -/
def nextIndex (draft : Draft) : Except Failure Int32 :=
  if draft.fields.length < 0x80000000 then .ok (Int32.ofNat draft.fields.length)
  else .error (.tooManyEntries draft.fields.length)

/-- Adds a field that refers to no class. -/
def addField (name : String) (kind : FieldKind) (draft : Draft) : Except Failure Draft := do
  if kind.isPortable then throw (.needsNestedDefinition kind)
  draft.pushField ⟨name, kind, ← draft.nextIndex, .none⟩

/-- Adds a field whose objects a nested definition describes. -/
def addNested (name : String) (kind : FieldKind) (definition : ClassDefinition) (draft : Draft) :
    Except Failure Draft := do
  let draft ← draft.pushField ⟨name, kind, ← draft.nextIndex, definition.key⟩
  pure (draft.pushNested definition)

/-- Adds a field that holds an object. -/
def addPortable (name : String) (definition : ClassDefinition) (draft : Draft) :
    Except Failure Draft :=
  draft.addNested name .portable definition

/-- Adds a field that holds a run of objects. -/
def addPortableArray (name : String) (definition : ClassDefinition) (draft : Draft) :
    Except Failure Draft :=
  draft.addNested name .portableArray definition

/-- Checks fields from a position on: each must have its position as its index, and if it refers
    to a class, the definition of that class must be attached. -/
def checkFields (draft : Draft) : (position : Nat) → List Field → Except Failure Unit
  | _, [] => .ok ()
  | position, field :: fields =>
    if field.index.toInt ≠ position then
      .error (.misplacedField field.name draft.key.classId field.index position)
    else if field.kind.isPortable && !draft.nested.any fun known => known.key = field.nested then
      .error (.unknownNestedClass field.name draft.key.classId field.nested.classId
        field.nested.version)
    else draft.checkFields (position + 1) fields

/-- The finished definition. -/
def build (draft : Draft) : Except Failure ClassDefinition := do
  draft.checkFields 0 draft.fields
  pure ⟨draft.key, draft.fields, draft.nested, none⟩

end Draft

end ObjectWire
