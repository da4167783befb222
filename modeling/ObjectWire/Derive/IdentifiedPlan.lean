import ObjectWire.Derive.Declaration
import ObjectWire.Derive.Expansion
import ObjectWire.Derive.PortablePlan

/-!
# Deriving identified objects

A declaration becomes a plan: the factory, the class, and for every field that is not skipped its
name and its form.  The plan is printed as an implementation that writes and reads the fields one
after the other, without their names.
-/

namespace ObjectWire.Derive

/-- How a field of an identified object is held. -/
inductive IdentifiedForm
  | scalar (kind : ScalarKind)
  | text
  | bytes
  deriving Repr, DecidableEq

namespace IdentifiedForm

/-- The form of fields of a type; characters have none. -/
def ofType? (type : String) : Option IdentifiedForm :=
  if type = "String" then some text
  else if type = "Vec<u8>" then some bytes
  else
    match scalarTypes.lookup type with
    | some .char | none => none
    | some kind => some (scalar kind)

/-- The word for the form in the names of methods. -/
def word : IdentifiedForm → String
  | scalar kind => kind.word
  | text => "string"
  | bytes => "byte_array"

/-- How the value of a field is handed over: scalars as they are, everything else lent. -/
def handing : IdentifiedForm → Handing
  | scalar _ => .itself
  | text | bytes => .lent

end IdentifiedForm

/-- A field of an identified object that is written. -/
structure IdentifiedField where
  name : String
  form : IdentifiedForm
  deriving Repr, DecidableEq

namespace IdentifiedField

/-- The field that a declared field becomes; a skipped one becomes none. -/
def ofDeclared (field : DeclaredField) : Except Refusal (Option IdentifiedField) := do
  if ← askFlag "skip" field.attributes then return none
  match IdentifiedForm.ofType? field.typeName with
  | some form => pure (some ⟨field.name, form⟩)
  | none => throw (.cannotEncode .identified field.typeName)

/-- The statements on a field. -/
def code (field : IdentifiedField) : FieldCode where
  write := ⟨field.form.word, none, field.name, field.form.handing⟩
  read := ⟨field.form.word, none, field.name, false⟩

end IdentifiedField

/-- How the objects of a declaration are written as identified objects. -/
structure IdentifiedPlan where
  declaration : Declaration
  factoryId : Int32
  classId : Int32
  fields : List IdentifiedField
  deriving Repr, DecidableEq

namespace IdentifiedPlan

/-- The plan for a declaration. -/
def ofDeclaration (declaration : Declaration) : Except Refusal IdentifiedPlan := do
  let factoryId ← declaration.requireInteger .identified "factory_id"
  let classId ← declaration.requireInteger .identified "class_id"
  let fields ← (← declaration.namedFields .identified).mapM IdentifiedField.ofDeclared
  pure ⟨declaration, factoryId, classId, fields.filterMap id⟩

/-- The statement that brings the methods of a trait into reach. -/
def useTrait (trait : String) : List Token :=
  Token.words ("use :: hazelcast_serialization :: serialization :: " ++ trait ++ " as _ ;")

/-- The implementation. -/
def tokens (plan : IdentifiedPlan) : List Token :=
  plan.declaration.implementation "IdentifiedDataSerializable" ++
    [.curly (Token.integerFunction "factory_id" plan.factoryId ++
      Token.integerFunction "class_id" plan.classId ++
      Token.fallibleFunction "write_data" "& self"
        "output : & mut :: hazelcast_serialization :: serialization :: ObjectDataOutput < '_ >"
        (useTrait "DataOutput" ++ plan.fields.flatMap fun field => field.code.write.tokens) ++
      Token.fallibleFunction "read_data" "& mut self"
        "input : & mut :: hazelcast_serialization :: serialization :: ObjectDataInput < '_ >"
        (useTrait "DataInput" ++ plan.fields.flatMap fun field => field.code.read.tokens))]

end IdentifiedPlan

end ObjectWire.Derive
