import ObjectWire.Failure

/-!
# Codecs

A codec writes the values of a family under a type id.  The built-in codecs have negative ids;
the others are made to order: each is an instance of an implementation, and what it does is its
mode.  The registry treats codecs of one implementation as interchangeable, and tells instances
apart when it has to take one back.
-/

namespace ObjectWire

/-- The codecs that every service has. -/
inductive BuiltinCodec
  | text
  | integer
  | long
  | boolean
  | bytes
  | instant
  | bigInteger
  | portable
  | identified
  | document
  deriving Repr, DecidableEq

namespace BuiltinCodec

/-- Every built-in codec. -/
def all : List BuiltinCodec :=
  [.text, .integer, .long, .boolean, .bytes, .instant, .bigInteger, .portable, .identified,
   .document]

/-- The type id of a built-in codec. -/
def typeId : BuiltinCodec → Int32
  | .text => -11
  | .integer => -7
  | .long => -8
  | .boolean => -4
  | .bytes => -12
  | .instant => -21
  | .bigInteger => -22
  | .portable => -1
  | .identified => -2
  | .document => -101

/-- The name of a built-in codec. -/
def name : BuiltinCodec → String
  | .text => "StringSerializer"
  | .integer => "IntegerSerializer"
  | .long => "LongSerializer"
  | .boolean => "BooleanSerializer"
  | .bytes => "ByteArraySerializer"
  | .instant => "DateSerializer"
  | .bigInteger => "BigIntegerSerializer"
  | .portable => "PortableSerializer"
  | .identified => "DataSerializer"
  | .document => "GenericSerializer"

end BuiltinCodec

/-- What a codec made to order does. -/
inductive CodecMode
  /-- Writes the name of the value's type; reads it as a text. -/
  | typeName
  /-- Writes nothing and reads nothing. -/
  | nothing
  /-- Writes the payload of an object as an object; reads it into an object. -/
  | payload
  /-- Writes the payload of an object as an envelope; reads it into an object. -/
  | envelope
  /-- Fails, when writing behind a mark. -/
  | failing (kind : FailureKind)
  deriving Repr, DecidableEq

/-- A codec made to order.  Instances are told apart by their names. -/
structure CustomCodec where
  name : String
  implementation : Nat
  typeId : Int32
  mode : CodecMode
  deriving Repr, DecidableEq

/-- A codec.  Instances of a built-in codec are not told apart: another one of its type that a caller
    makes and registers counts as the one that every service has. -/
inductive Codec
  | builtin (codec : BuiltinCodec)
  | custom (codec : CustomCodec)
  deriving Repr, DecidableEq

namespace Codec

/-- The type id of a codec. -/
def typeId : Codec → Int32
  | builtin codec => codec.typeId
  | custom codec => codec.typeId

/-- Whether two codecs are of one implementation. -/
def sameImplementation : Codec → Codec → Bool
  | builtin a, builtin b => a = b
  | custom a, custom b => a.implementation = b.implementation
  | _, _ => false

end Codec

/-- A codec made to order, as shown in messages. -/
def CustomCodec.shown (codec : CustomCodec) : String :=
  s!"Codec{codec.implementation}({codec.name}, {codec.typeId})"

end ObjectWire
