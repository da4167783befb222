import ObjectWire.Derive.Tokens

/-!
# Parts of derived code

What the derived implementations of both families have in common: statements on a field, and
functions that return an integer or end in success.  A statement hands the value of a field to a
call, or stores what a call returns in a field; either call may fail.
-/

namespace ObjectWire.Derive

namespace Token

/-- A field of the object at hand. -/
def fieldOf (name : String) : List Token := words "self ." ++ [plain name]

/-- A call whose failure is handed on. -/
def tryCall (receiver method : String) (arguments : List Token) : List Token :=
  [plain receiver, plain ".", plain method, round arguments, plain "?"]

/-- A value that is present. -/
def present (value : List Token) : List Token :=
  words ":: core :: option :: Option :: Some" ++ [round value]

/-- A method without arguments on a value. -/
def method (name : String) : List Token := [plain ".", plain name, round []]

/-- A statement that stores a value in a field. -/
def store (name : String) (value : List Token) : List Token :=
  fieldOf name ++ [plain "="] ++ value ++ [plain ";"]

end Token

/-- How the value of a field is handed to a call. -/
inductive Handing
  /-- As it is. -/
  | itself
  /-- Lent. -/
  | lent
  /-- As a text that is present. -/
  | presentText
  /-- As a text that may be absent. -/
  | optionalText
  /-- As a run that is present. -/
  | presentRun
  deriving Repr, DecidableEq

/-- The argument that hands a field over. -/
def Handing.tokens (field : List Token) : Handing → List Token
  | itself => field
  | lent => .plain "&" :: field
  | presentText => Token.present (field ++ Token.method "as_str")
  | optionalText => field ++ Token.method "as_deref"
  | presentRun => Token.present (field ++ Token.method "as_slice")

/-- A statement that hands the value of a field to a call of what is written to. -/
structure WriteStatement where
  /-- The word for the call. -/
  word : String
  /-- The name on the wire, by which alone a writer of fields tells them apart. -/
  wire : Option String
  field : String
  handing : Handing
  deriving Repr, DecidableEq

/-- A statement that stores what a call of what is read from returns. -/
structure ReadStatement where
  /-- The word for the call. -/
  word : String
  /-- The name on the wire, by which alone a reader of fields tells them apart. -/
  wire : Option String
  field : String
  /-- Whether something absent counts as something empty. -/
  defaulted : Bool
  deriving Repr, DecidableEq

/-- The statement as code: a writer of fields is called, or an output. -/
def WriteStatement.tokens (statement : WriteStatement) : List Token :=
  let (receiver, name) : String × List Token := match statement.wire with
    | some wire => ("writer", [Token.textLiteral wire, .plain ","])
    | none => ("output", [])
  Token.tryCall receiver ("write_" ++ statement.word)
    (name ++ statement.handing.tokens (Token.fieldOf statement.field)) ++ [.plain ";"]

/-- The statement as code: a reader of fields is called, or an input. -/
def ReadStatement.tokens (statement : ReadStatement) : List Token :=
  let (receiver, name) : String × List Token := match statement.wire with
    | some wire => ("reader", [Token.textLiteral wire])
    | none => ("input", [])
  Token.store statement.field
    (Token.tryCall receiver ("read_" ++ statement.word) name ++
      if statement.defaulted then Token.method "unwrap_or_default" else [])

/-- The statements that write and read a field. -/
structure FieldCode where
  write : WriteStatement
  read : ReadStatement
  deriving Repr, DecidableEq

namespace Token

/-- The success that ends a body. -/
def success : List Token := words ":: core :: result :: Result :: Ok" ++ [round [round []]]

/-- A function that returns a 32-bit integer. -/
def integerFunction (name : String) (n : Int32) : List Token :=
  [plain "fn", plain name, round (words "& self"), plain "->", plain "i32",
    curly (intLiteral n)]

/-- The type of a step that may fail. -/
def fallible : List Token :=
  words "-> :: hazelcast_serialization :: Result <" ++ [round []] ++ [plain ">"]

/-- A function that takes one argument besides the object and may fail. -/
def fallibleFunction (name receiver argument : String) (body : List Token) : List Token :=
  [plain "fn", plain name, round (words (receiver ++ " , " ++ argument ++ " ,"))] ++ fallible ++
    [curly (body ++ success)]

end Token

end ObjectWire.Derive
