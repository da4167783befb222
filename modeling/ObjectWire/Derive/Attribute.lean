import ObjectWire.Derive.Refusal
import ObjectWire.Derive.Symbol

/-!
# Attributes

What a declaration says about how it is written.  An attribute of ours is a list of entries
separated by commas, each a key that may be given a literal.  Attributes are read anew for every
key that is asked for: a fault counts only if the reading gets that far, and of several entries
for one key the last one counts.
-/

namespace ObjectWire.Derive

/-- A literal. -/
inductive Literal
  | integer (n : Int)
  | text (content : String)
  | other
  deriving Repr, DecidableEq

/-- An attribute. -/
inductive Attribute
  /-- An attribute of somebody else. -/
  | foreign
  /-- The name alone. -/
  | bare
  /-- The name with a value. -/
  | assigned
  /-- The name with arguments in brackets of any sort. -/
  | list (arguments : List Symbol)
  deriving Repr, DecidableEq

namespace Attribute

/-- The name of the attributes that are ours. -/
def ours : String := "hazelcast"

/-- The attribute that symbols make up. -/
def ofSymbols : List Symbol → Attribute
  | .word name :: rest =>
    if name = ours then
      match rest with
      | [] => .bare
      | .mark c _ :: arguments =>
        if c = '=' then .assigned
        else if (Symbol.brackets.lookup c).isSome then .list arguments.dropLast
        else .foreign
      | _ => .foreign
    else .foreign
  | _ => .foreign

/-- The attribute that a text spells. -/
def ofText (s : String) : Except Refusal Attribute :=
  match Symbol.ofText? s with
  | some symbols => .ok (ofSymbols symbols)
  | none => .error .unreadable

/-- The arguments that are to be read, if the attribute is ours. -/
def arguments? : Attribute → Except Refusal (Option (List Symbol))
  | foreign => .ok none
  | bare => .error .withoutArguments
  | assigned => .error .withoutParentheses
  | list arguments => .ok (some arguments)

end Attribute

namespace Literal

/-- A number as a literal. -/
def ofNumber (negative : Bool) (spelled : List Char) : Literal :=
  match Numeral.integer? spelled with
  | some n => .integer (if negative then -(n : Int) else n)
  | none => .other

/-- Splits off a literal, if there is one. -/
def take? : List Symbol → Option (Literal × List Symbol)
  | .number spelled :: rest => some (ofNumber false spelled, rest)
  | .mark '-' _ :: .number spelled :: rest => some (ofNumber true spelled, rest)
  | .text content :: rest => some (.text content, rest)
  | .quoted :: rest => some (.other, rest)
  | .word name :: rest => if name = "true" || name = "false" then some (.other, rest) else none
  | _ => none

/-- Splits off a literal. -/
def take (symbols : List Symbol) : Except Refusal (Literal × List Symbol) :=
  match take? symbols with
  | some taken => .ok taken
  | none => .error (if symbols.isEmpty then .endedBeforeLiteral else .expectedLiteral)

end Literal

/-- A key: a single name, or a path that leads through several, which nobody asks for. -/
inductive Key
  | name (name : String)
  | path
  deriving Repr, DecidableEq

namespace Key

/-- What follows the mark between the names of a path, if it is there. -/
def afterJoint? : List Symbol → Option (List Symbol)
  | .mark ':' true :: .mark ':' _ :: rest => some rest
  | _ => none

/-- What follows the names of a path, from the name behind a joint on. -/
def afterNames : (fuel : Nat) → List Symbol → Except Refusal (List Symbol)
  | _, [] => .error .endedBeforeName
  | fuel + 1, .word _ :: rest =>
    match afterJoint? rest with
    | some rest => afterNames fuel rest
    | none => .ok rest
  | _, _ => .error .expectedName

/-- Splits off a key that does not begin with a joint. -/
def takeNames : List Symbol → Except Refusal (Key × List Symbol)
  | [] => .error .endedBeforeKey
  | .word first :: rest =>
    match afterJoint? rest with
    | some names => (Prod.mk path) <$> afterNames names.length names
    | none => .ok (name first, rest)
  | symbols => .error (if (Literal.take? symbols).isSome then .literalForKey else .strayForKey)

/-- Splits off a key. -/
def take (symbols : List Symbol) : Except Refusal (Key × List Symbol) :=
  match afterJoint? symbols with
  | some names => (fun (_, rest) => (path, rest)) <$> takeNames names
  | none => takeNames symbols

end Key

/-- What the entry of a key holds, if it has a value. -/
def takeValue : List Symbol → Except Refusal (Literal × List Symbol)
  | .mark '=' _ :: rest => Literal.take rest
  | _ => .error .expectedEquals

/-- How the entries of the key that is asked for are read: what is known so far, and the symbols
    behind the key, give what is known now and the symbols behind the entry. -/
abbrev Asking (α : Type) : Type := α → List Symbol → Except Refusal (α × List Symbol)

/-- Leaves out the value of an entry that is not asked for. -/
def passOver : List Symbol → Except Refusal (List Symbol)
  | .mark '=' _ :: rest => Prod.snd <$> Literal.take rest
  | rest => .ok rest

/-- Reads the entries of one attribute.  Every entry takes a symbol at least. -/
def readEntries {α : Type} (key : String) (ask : Asking α) :
    (fuel : Nat) → α → List Symbol → Except Refusal α
  | 0, known, _ => .ok known
  | fuel + 1, known, symbols =>
    if symbols.isEmpty then .ok known
    else do
      let (found, rest) ← Key.take symbols
      let (known, rest) ←
        if found = .name key then ask known rest else (known, ·) <$> passOver rest
      match rest with
      | [] => pure known
      | .mark ',' _ :: rest => readEntries key ask fuel known rest
      | _ => throw .expectedComma

/-- Reads attributes, one after the other, for a key. -/
def readAttributes {α : Type} (key : String) (ask : Asking α) :
    α → List Attribute → Except Refusal α
  | known, [] => .ok known
  | known, first :: others => do
    match ← first.arguments? with
    | none => readAttributes key ask known others
    | some arguments =>
      let known ← readEntries key ask arguments.length known arguments
      readAttributes key ask known others

/-- The 32-bit integer that a literal is. -/
def int32OfLiteral (key : String) : Literal → Except Refusal Int32
  | .integer n =>
    if 0x80000000 ≤ n then .error .tooLarge
    else if n < -0x80000000 then .error .tooSmall
    else .ok (Int32.ofInt n)
  | _ => .error (.notInteger key)

/-- The integer that attributes give a key, if they give one. -/
def askInteger (key : String) (attributes : List Attribute) : Except Refusal (Option Int32) :=
  readAttributes key (fun _ symbols => do
    let (literal, rest) ← takeValue symbols
    pure (some (← int32OfLiteral key literal), rest)) none attributes

/-- The text that attributes give a key, if they give one. -/
def askText (key : String) (attributes : List Attribute) : Except Refusal (Option String) :=
  readAttributes key (fun _ symbols => do
    match ← takeValue symbols with
    | (.text content, rest) => pure (some content, rest)
    | _ => throw (.notText key)) none attributes

/-- Whether attributes have a key, which takes no value. -/
def askFlag (key : String) (attributes : List Attribute) : Except Refusal Bool :=
  readAttributes key (fun _ symbols => .ok (true, symbols)) false attributes

end ObjectWire.Derive
