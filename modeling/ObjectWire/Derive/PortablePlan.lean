import ObjectWire.Derive.Declaration
import ObjectWire.Derive.Expansion
import ObjectWire.FieldKind

/-!
# Deriving portable objects

A declaration becomes a plan: the class, the version if one is pinned, and for every field that is
not skipped its name, its name on the wire and its form.  The plan is printed as an implementation
that writes and reads the fields by name.
-/

namespace ObjectWire.Derive

/-- The names of the scalar types. -/
def scalarTypes : List (String × ScalarKind) :=
  [("bool", .bool), ("i8", .byte), ("char", .char), ("i16", .short), ("i32", .int), ("i64", .long),
   ("f32", .float), ("f64", .double)]

/-- How a field of a portable object is held. -/
inductive PortableForm
  | scalar (kind : ScalarKind)
  | text
  /-- A text that may be absent. -/
  | optionalText
  | array (kind : ScalarKind)
  | textArray
  deriving Repr, DecidableEq

namespace PortableForm

/-- The form of fields of a type. -/
def ofType? (type : String) : Option PortableForm :=
  if type = "String" then some text
  else if type = "Option<String>" then some optionalText
  else if type = "Vec<String>" then some textArray
  else
    match scalarTypes.lookup type with
    | some kind => some (scalar kind)
    | none =>
      (scalarTypes.find? fun (name, _) => "Vec<" ++ name ++ ">" = type).map fun (_, kind) =>
        array kind

/-- The kind of the field. -/
def kind : PortableForm → FieldKind
  | scalar kind => .scalar kind
  | text | optionalText => .text
  | array kind => .array kind
  | textArray => .textArray

/-- How the value of a field is handed over: texts and runs are present, but for an optional text. -/
def handing : PortableForm → Handing
  | scalar _ => .itself
  | text => .presentText
  | optionalText => .optionalText
  | array _ | textArray => .presentRun

/-- Whether an absent text or run counts as empty: it does, unless the form has absence. -/
def defaulted : PortableForm → Bool
  | scalar _ | optionalText => false
  | text | array _ | textArray => true

end PortableForm

/-- A field of a portable object that is written. -/
structure PortableField where
  name : String
  /-- The name on the wire. -/
  wire : String
  form : PortableForm
  deriving Repr, DecidableEq

namespace PortableField

/-- The field that a declared field becomes; a skipped one becomes none. -/
def ofDeclared (field : DeclaredField) : Except Refusal (Option PortableField) := do
  if ← askFlag "skip" field.attributes then return none
  let wire := (← askText "field_name" field.attributes).getD field.name
  match PortableForm.ofType? field.typeName with
  | some form => pure (some ⟨field.name, wire, form⟩)
  | none => throw (.cannotEncode .portable field.typeName)

/-- The statements on a field. -/
def code (field : PortableField) : FieldCode where
  write := ⟨field.form.kind.word, some field.wire, field.name, field.form.handing⟩
  read := ⟨field.form.kind.word, some field.wire, field.name, field.form.defaulted⟩

end PortableField

/-- How the objects of a declaration are written as portable objects. -/
structure PortablePlan where
  declaration : Declaration
  classId : Int32
  version : Option Int32
  fields : List PortableField
  deriving Repr, DecidableEq

namespace PortablePlan

/-- The plan for a declaration. -/
def ofDeclaration (declaration : Declaration) : Except Refusal PortablePlan := do
  let classId ← declaration.requireInteger .portable "class_id"
  let version ← askInteger "version" declaration.attributes
  let fields ← (← declaration.namedFields .portable).mapM PortableField.ofDeclared
  pure ⟨declaration, classId, version, fields.filterMap id⟩

/-- The function that pins a version. -/
def versionFunction (n : Int32) : List Token :=
  [.plain "fn", .plain "version", .round (Token.words "& self")] ++
    Token.words "-> :: core :: option :: Option < i32 >" ++
    [.curly (Token.present (Token.intLiteral n))]

/-- The implementation. -/
def tokens (plan : PortablePlan) : List Token :=
  plan.declaration.implementation "Portable" ++
    [.curly (Token.integerFunction "class_id" plan.classId ++
      (plan.version.map versionFunction).getD [] ++
      Token.fallibleFunction "write_portable" "& self"
        "writer : & mut dyn :: hazelcast_serialization :: serialization :: PortableWriter"
        (plan.fields.flatMap fun field => field.code.write.tokens) ++
      Token.fallibleFunction "read_portable" "& mut self"
        "reader : & mut dyn :: hazelcast_serialization :: serialization :: PortableReader"
        (plan.fields.flatMap fun field => field.code.read.tokens))]

end PortablePlan

end ObjectWire.Derive
