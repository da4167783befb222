/-!
# Kinds of fields

A field of a class holds a scalar, a text, an object, or a run of one of these.  Each kind has
a number on the wire and a name in messages; runs of scalars are numbered ten above their items.
-/

namespace ObjectWire

/-- The fixed-width kinds. -/
inductive ScalarKind
  | byte
  | bool
  | char
  | short
  | int
  | long
  | float
  | double
  deriving Repr, DecidableEq

namespace ScalarKind

/-- The number of a scalar kind. -/
def number : ScalarKind → Nat
  | .byte => 1
  | .bool => 2
  | .char => 3
  | .short => 4
  | .int => 5
  | .long => 6
  | .float => 7
  | .double => 8

/-- The name of a scalar kind. -/
def name : ScalarKind → String
  | .byte => "Byte"
  | .bool => "Bool"
  | .char => "Char"
  | .short => "Short"
  | .int => "Int"
  | .long => "Long"
  | .float => "Float"
  | .double => "Double"

/-- The word for a scalar kind in the names of operations. -/
def word : ScalarKind → String
  | .byte => "byte"
  | .bool => "bool"
  | .char => "char"
  | .short => "short"
  | .int => "int"
  | .long => "long"
  | .float => "float"
  | .double => "double"

/-- Every scalar kind, by number. -/
def all : List ScalarKind := [.byte, .bool, .char, .short, .int, .long, .float, .double]

end ScalarKind

/-- The kind of a field. -/
inductive FieldKind
  | scalar (item : ScalarKind)
  | text
  | portable
  | array (item : ScalarKind)
  | textArray
  | portableArray
  deriving Repr, DecidableEq

namespace FieldKind

/-- The number of a kind on the wire. -/
def number : FieldKind → Nat
  | .scalar item => item.number
  | .text => 9
  | .portable => 10
  | .array item => 10 + item.number
  | .textArray => 19
  | .portableArray => 20

/-- The name of a kind in messages. -/
def name : FieldKind → String
  | .scalar item => item.name
  | .text => "Utf8"
  | .portable => "Portable"
  | .array item => item.name ++ "Array"
  | .textArray => "Utf8Array"
  | .portableArray => "PortableArray"

/-- The word for a kind in the names of operations. -/
def word : FieldKind → String
  | .scalar item => item.word
  | .text => "string"
  | .portable => "portable"
  | .array item => item.word ++ "_array"
  | .textArray => "string_array"
  | .portableArray => "portable_array"

/-- Every kind, by number. -/
def all : List FieldKind :=
  ScalarKind.all.map .scalar ++ [.text, .portable] ++ ScalarKind.all.map .array ++
    [.textArray, .portableArray]

/-- The kind with a given number. -/
def ofNumber? (n : Int) : Option FieldKind := all.find? fun kind => (kind.number : Int) = n

/-- The kind with a given name. -/
def ofName? (name : String) : Option FieldKind := all.find? fun kind => kind.name = name

/-- The kind with a given word. -/
def ofWord? (word : String) : Option FieldKind := all.find? fun kind => kind.word = word

/-- Whether fields of this kind hold a run of items. -/
def isArray : FieldKind → Bool
  | .array _ | .textArray | .portableArray => true
  | _ => false

/-- Whether fields of this kind refer to the definition of another class. -/
def isPortable : FieldKind → Bool
  | .portable | .portableArray => true
  | _ => false

theorem ofNumber?_number (kind : FieldKind) : ofNumber? kind.number = some kind := by
  cases kind with
  | scalar item => cases item <;> rfl
  | array item => cases item <;> rfl
  | _ => rfl

theorem ofWord?_word (kind : FieldKind) : ofWord? kind.word = some kind := by
  cases kind with
  | scalar item => cases item <;> rfl
  | array item => cases item <;> rfl
  | _ => rfl

end FieldKind

end ObjectWire
