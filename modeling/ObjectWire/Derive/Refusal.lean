/-!
# Why nothing is derived

A declaration is refused for what its attributes say, for its style, or for the type of a field.
The wording of every refusal stands in `Refusal.message`.
-/

namespace ObjectWire.Derive

/-- The two families of objects that an implementation can be derived for. -/
inductive Family
  | portable
  | identified
  deriving Repr, DecidableEq

namespace Family

/-- The name of a family's derivation. -/
def name : Family → String
  | .portable => "HazelcastPortable"
  | .identified => "IdentifiedDataSerializable"

/-- What to do instead of deriving. -/
def byHand : Family → String
  | .portable => "implement Portable by hand"
  | .identified => "implement it by hand"

end Family

/-- Why nothing is derived. -/
inductive Refusal
  /-- A text holds what is no symbol, or brackets that do not match. -/
  | unreadable
  /-- A key that a family cannot do without is missing. -/
  | missing (family : Family) (key : String)
  | notInteger (key : String)
  | notText (key : String)
  | tooLarge
  | tooSmall
  | expectedComma
  | expectedEquals
  | expectedLiteral
  /-- The attribute ends where a literal is due. -/
  | endedBeforeLiteral
  /-- The attribute ends where a key is due. -/
  | endedBeforeKey
  /-- The attribute ends where the next name of a path is due. -/
  | endedBeforeName
  /-- Something else stands where the next name of a path is due. -/
  | expectedName
  /-- A literal stands where a key is due. -/
  | literalForKey
  /-- Something else stands where a key is due. -/
  | strayForKey
  | withoutArguments
  | withoutParentheses
  | unnamedFields (family : Family)
  | notStruct (family : Family)
  | cannotEncode (family : Family) (type : String)
  deriving Repr, DecidableEq

/-- The refusal in words. -/
def Refusal.message : Refusal → String
  | unreadable => "cannot parse string into token stream"
  | missing family key => family.name ++ " requires #[hazelcast(" ++ key ++ " = N)]"
  | notInteger key => "`" ++ key ++ "` expects an integer literal"
  | notText key => "`" ++ key ++ "` expects a string literal"
  | tooLarge => "number too large to fit in target type"
  | tooSmall => "number too small to fit in target type"
  | expectedComma => "expected `,`"
  | expectedEquals => "expected `=`"
  | expectedLiteral => "expected literal"
  | endedBeforeLiteral => "unexpected end of input, expected literal"
  | endedBeforeKey => "unexpected end of input, expected nested attribute"
  | endedBeforeName => "unexpected end of input, expected ident"
  | expectedName => "expected ident"
  | literalForKey => "unexpected literal in nested attribute, expected ident"
  | strayForKey => "unexpected token in nested attribute, expected ident"
  | withoutArguments => "expected attribute arguments in parentheses: #[hazelcast(...)]"
  | withoutParentheses => "expected parentheses: #[hazelcast(...)]"
  | unnamedFields family => family.name ++ " only supports structs with named fields"
  | notStruct family => family.name ++ " can only be derived for structs"
  | cannotEncode family type =>
    family.name ++ " cannot encode `" ++ type ++ "`; " ++ family.byHand ++
      " or mark the field #[hazelcast(skip)]"

end ObjectWire.Derive
