import ObjectWire.Derive.Attribute
import ObjectWire.Derive.Tokens

/-!
# Declarations

A declared record type: its name and parameters, its attributes, and its fields with their types.
Types are compared by their names, which are spelled without blanks.
-/

namespace ObjectWire.Derive

/-- The sort of a declaration. -/
inductive Style
  /-- A struct with named fields. -/
  | named
  /-- A struct with numbered fields. -/
  | tuple
  /-- A struct without fields. -/
  | unit
  | choice
  | union
  deriving Repr, DecidableEq

/-- A symbol of a type as it counts: as it is spelled, but a comment that documents the code counts
    as the attribute it stands for. -/
def symbolText : Symbol × List Char → List Char
  | (.documentation around content, _) =>
    (if around then "#![doc=" else "#[doc=").toList ++
      ("\"" ++ Token.escapeAll content.toList ++ "\"]").toList
  | (_, spelled) => spelled

/-- The name of the type that a text spells: its symbols without anything between them, and
    without the blanks inside them. -/
def typeName (s : String) : Except Refusal String :=
  match Symbol.spelled? s with
  | some symbols => .ok (String.ofList ((symbols.flatMap symbolText).filter (· ≠ ' ')))
  | none => .error .unreadable

/-- A declared field. -/
structure DeclaredField where
  name : String
  /-- The name of its type. -/
  typeName : String
  attributes : List Attribute
  deriving Repr, DecidableEq

/-- A declaration. -/
structure Declaration where
  name : String
  /-- The parameters; those that start with an apostrophe are lifetimes. -/
  parameters : List String
  attributes : List Attribute
  style : Style
  fields : List DeclaredField
  deriving Repr, DecidableEq

namespace Declaration

/-- The fields, which must be named. -/
def namedFields (family : Family) (declaration : Declaration) :
    Except Refusal (List DeclaredField) :=
  match declaration.style with
  | .named => .ok declaration.fields
  | .tuple | .unit => .error (.unnamedFields family)
  | .choice | .union => .error (.notStruct family)

/-- The integer that an attribute must give a key. -/
def requireInteger (family : Family) (key : String) (declaration : Declaration) :
    Except Refusal Int32 := do
  match ← askInteger key declaration.attributes with
  | some n => pure n
  | none => throw (.missing family key)

/-- Whether a parameter is a lifetime. -/
def isLifetime (parameter : String) : Bool := parameter.toList.head? = some '\''

/-- The parameters as tokens, lifetimes first.  Every parameter but the last brings the comma
    behind it along, and the lifetimes get one if they have to. -/
def parameterTokens (declaration : Declaration) : List Token :=
  match declaration.parameters with
  | [] => []
  | parameters =>
    let last := parameters.length - 1
    let placed := parameters.zipIdx
    let lifetimes := placed.filter fun (p, _) => isLifetime p
    let others := placed.filter fun (p, _) => !isLifetime p
    let print : String × Nat → List Token := fun (p, i) =>
      Token.words p ++ if i < last then [.plain ","] else []
    let comma := lifetimes.any (fun (_, i) => i = last) && !others.isEmpty
    [.plain "<"] ++ lifetimes.flatMap print ++ (if comma then [.plain ","] else []) ++
      others.flatMap print ++ [.plain ">"]

/-- The head of an implementation of a trait, up to its body. -/
def implementation (trait : String) (declaration : Declaration) : List Token :=
  [.plain "impl"] ++ declaration.parameterTokens ++
    Token.words (":: hazelcast_serialization :: serialization :: " ++ trait ++ " for") ++
    [.plain declaration.name] ++ declaration.parameterTokens

end Declaration

end ObjectWire.Derive
