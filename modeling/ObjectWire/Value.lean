import ObjectWire.Envelope
import ObjectWire.Hierarchy
import ObjectWire.Instant
import ObjectWire.Portable.FieldData
import ObjectWire.Record.Customer
import ObjectWire.Record.Document
import ObjectWire.Record.Reading

/-!
# Values

What can be encoded: nothing, the built-in values, objects of three families, and envelopes that
are encoded already.

An object is what it does.  A portable object is the list of field writes it performs, an
identified object the list of output steps, and a decoded one also lists what its reads returned.
Beside these scripted objects there are the records whose steps follow from their fields.
-/

namespace ObjectWire

/-- An output step that needs no service. -/
inductive PlainWrite
  | scalar (kind : ScalarKind) (item : kind.Item)
  /-- Bytes without a length. -/
  | bytes (run : Bytes)
  | text (s : String)
  | byteArray (run : Bytes)
  /-- Overwrites an integer that is already written. -/
  | intAt (position : Nat) (n : Int32)
  /-- Drops everything written so far. -/
  | clear
  /-- Fails. -/
  | fail (text : String)

/-- An input step that needs no service. -/
inductive PlainRead
  | scalar (kind : ScalarKind)
  /-- A given number of bytes. -/
  | bytes (n : Nat)
  | text
  | byteArray
  /-- Fails. -/
  | fail (text : String)

/-- What an input step that needs no service returned. -/
inductive PlainResult
  | scalar (kind : ScalarKind) (item : kind.Item)
  | bytes (run : Bytes)
  | text (s : String)

/-- An input step. -/
inductive InputStep
  | plain (read : PlainRead)
  | object
  | envelope

/-- The types of portable objects. -/
inductive PortableSort
  | scripted
  | silent
  | customer
  deriving Repr, DecidableEq

/-- The types of identified objects. -/
inductive IdentifiedSort
  | scripted
  | reading
  deriving Repr, DecidableEq

/-- What the types of objects and records are called, which is up to the program they belong to. -/
structure TypeNames where
  portable : PortableSort → String
  identified : IdentifiedSort → String
  record : RecordKind → String

namespace TypeNames

/-- The names of types that are declared in one module. -/
def inModule (path : String) : TypeNames where
  portable
    | .scripted => path ++ "::DynPortable"
    | .silent => path ++ "::OtherPortable"
    | .customer => path ++ "::Customer"
  identified
    | .scripted => path ++ "::DynIds"
    | .reading => path ++ "::Reading"
  record
    | .note => path ++ "::Note"
    | .counter => path ++ "::Counter"

/-- The names if nothing else is said. -/
def standard : TypeNames := .inModule "driver::vals"

end TypeNames

/-- A read of a field, or a question about the class. -/
inductive FieldRead
  | field (kind : FieldKind) (name : String)
  /-- The object in a field, which must be of a type; the type has a name. -/
  | objectIn (name : String) (sort : PortableSort) (typeName : String)
  /-- The run of objects in a field, which must be of a type; the type has a name. -/
  | objectsIn (name : String) (sort : PortableSort) (typeName : String)
  | version
  | has (name : String)
  | kindOf (name : String)
  /-- Fails. -/
  | fail (text : String)

namespace FieldRead

/-- The object in a field, which must be a scripted one. -/
def scriptedIn (name : String) (names : TypeNames := .standard) : FieldRead :=
  .objectIn name .scripted (names.portable .scripted)

/-- The run of objects in a field, which must be scripted ones. -/
def scriptedArrayIn (name : String) (names : TypeNames := .standard) : FieldRead :=
  .objectsIn name .scripted (names.portable .scripted)

end FieldRead

mutual

/-- A value. -/
inductive Value
  | null
  | text (s : String)
  | integer (n : Int32)
  | long (n : Int64)
  | boolean (b : Bool)
  | bytes (run : Bytes)
  | instant (t : Instant)
  | bigInteger (n : Int)
  | portable (p : Portable)
  | identified (o : Identified)
  | object (o : UserObject)
  | envelope (e : Envelope)

/-- A portable object. -/
inductive Portable
  /-- An object that performs the field writes; `got` is what its reads returned. -/
  | scripted (classId : Int32) (version : Option Int32) (writes : List FieldWrite)
      (key : Option Value) (got : List FieldResult)
  /-- A decoded link of a chain, with the number of links behind it. -/
  | link (classId : Int32) (behind : Nat)
  /-- An object without fields. -/
  | silent (classId : Int32)
  | customer (c : Customer)

/-- A write of a field. -/
inductive FieldWrite
  | data (name : String) (value : FieldData)
  | portable (name : String) (value : Option Portable)
  /-- An absent object of a given class. -/
  | nullPortable (name : String) (classId : Int32)
  | portableArray (name : String) (classId : Int32) (items : Option (List Portable))
  /-- Fails. -/
  | fail (text : String)

/-- What the read of a field returned. -/
inductive FieldResult
  | data (value : FieldData)
  | portable (value : Option Portable)
  | portableArray (items : Option (List Portable))
  | version (n : Int32)
  | has (b : Bool)
  | kindOf (kind : Option FieldKind)

/-- An identified object. -/
inductive Identified
  /-- An object that performs the output steps; `got` is what its reads returned. -/
  | scripted (factoryId classId : Int32) (writes : List OutputStep) (key : Option Value)
      (got : List InputResult)
  | reading (r : Reading)

/-- An output step. -/
inductive OutputStep
  | plain (write : PlainWrite)
  | object (value : Value)
  | envelope (e : Option Envelope)

/-- What an input step returned. -/
inductive InputResult
  | plain (result : PlainResult)
  | object (value : Value)
  | envelope (e : Option Envelope)

/-- An object of a type of its own. -/
inductive UserObject
  /-- An object with a payload for the codec of its type. -/
  | carrying (type : TypeKey) (payload key : Option Value)
  /-- A record that reports a type. -/
  | record (type : TypeKey) (r : Record)

end

namespace TypeKey

/-- The type of texts. -/
def text : TypeKey := ⟨"string"⟩

/-- The type of 32-bit integers. -/
def integer : TypeKey := ⟨"i32"⟩

/-- The type of 64-bit integers. -/
def long : TypeKey := ⟨"i64"⟩

/-- The type of flags. -/
def boolean : TypeKey := ⟨"bool"⟩

/-- The type of runs of bytes. -/
def bytes : TypeKey := ⟨"byte[]"⟩

/-- The type of instants. -/
def instant : TypeKey := ⟨"date"⟩

/-- The type of integers of any size. -/
def bigInteger : TypeKey := ⟨"big_integer"⟩

end TypeKey

namespace Portable

/-- The class an object reports. -/
def classId : Portable → Int32
  | scripted classId .. => classId
  | link classId _ => classId
  | silent classId => classId
  | customer _ => Customer.classId

/-- The version an object names, if it names one. -/
def version : Portable → Option Int32
  | scripted _ version .. => version
  | customer _ => some Customer.version
  | _ => none

/-- The partition key of an object. -/
def key : Portable → Option Value
  | scripted _ _ _ key _ => key
  | _ => none

/-- The type of an object. -/
def sort : Portable → PortableSort
  | scripted .. | link .. => .scripted
  | silent _ => .silent
  | customer _ => .customer

/-- The name of the type of scripted objects. -/
def scriptedType (names : TypeNames := .standard) : String := names.portable .scripted

/-- The name of the type of an object. -/
def typeName (p : Portable) (names : TypeNames := .standard) : String := names.portable p.sort

/-- An object as shown in messages. -/
def shown : Portable → String
  | scripted classId .. | link classId _ => s!"DynPortable({classId})"
  | silent classId => s!"OtherPortable({classId})"
  | customer _ => "Customer"

/-- A chain of objects, each of the next class and holding the next object, down to a leaf. -/
def chain (first : Int32) : (depth : Nat) → Portable
  | 0 => scripted first none [.data "leaf" (.scalar .int (1 : Int32))] none []
  | depth + 1 => scripted first none [.portable "next" (some (chain (first + 1) depth))] none []

/-- The object as one of a type, which has a name. -/
def asSort (sort : PortableSort) (typeName : String) (p : Portable) : Except Failure Portable :=
  if p.sort = sort then .ok p else .error (.portableNotA p.classId typeName)

/-- The object as one of the type of a given name. -/
def asTypeNamed (typeName : String) (p : Portable) (names : TypeNames := .standard) :
    Except Failure Portable :=
  if p.typeName names = typeName then .ok p else .error (.portableNotA p.classId typeName)

end Portable

namespace Identified

/-- The factory an object reports. -/
def factoryId : Identified → Int32
  | scripted factoryId .. => factoryId
  | reading _ => Reading.factoryId

/-- The class an object reports. -/
def classId : Identified → Int32
  | scripted _ classId .. => classId
  | reading _ => Reading.classId

/-- The partition key of an object. -/
def key : Identified → Option Value
  | scripted _ _ _ key _ => key
  | reading _ => none

/-- The type of an object. -/
def sort : Identified → IdentifiedSort
  | scripted .. => .scripted
  | reading _ => .reading

/-- The name of the type of an object. -/
def typeName (o : Identified) (names : TypeNames := .standard) : String := names.identified o.sort

/-- An object as shown in messages. -/
def shown : Identified → String
  | scripted factoryId classId .. => s!"DynIds({factoryId}, {classId})"
  | reading _ => "Reading"

/-- The object as one of the type of a given name. -/
def asTypeNamed (typeName : String) (o : Identified) (names : TypeNames := .standard) :
    Except Failure Identified :=
  if o.typeName names = typeName then .ok o
  else .error (.identifiedNotA o.factoryId o.classId typeName)

end Identified

namespace UserObject

/-- The type an object reports. -/
def typeKey : UserObject → TypeKey
  | carrying type _ _ => type
  | record type _ => type

/-- The partition key of an object. -/
def key : UserObject → Option Value
  | carrying _ _ key => key
  | record .. => none

/-- The payload of an object. -/
def payload : UserObject → Option Value
  | carrying _ payload _ => payload
  | record .. => none

/-- An object as shown in messages. -/
def shown : UserObject → String
  | carrying type _ _ => "DynObject(" ++ type.name ++ ")"
  | record type r => r.shown type.name

end UserObject

namespace Value

/-- The type by which a codec is looked for.  Nothing and envelopes have none. -/
def typeKey? : Value → Option TypeKey
  | null | envelope _ => none
  | text _ => some .text
  | integer _ => some .integer
  | long _ => some .long
  | boolean _ => some .boolean
  | bytes _ => some .bytes
  | instant _ => some .instant
  | bigInteger _ => some .bigInteger
  | portable _ => some .portable
  | identified _ => some .identified
  | object o => some o.typeKey

/-- Whether a value is nothing. -/
def isNull : Value → Bool
  | null => true
  | _ => false

/-- The text a value is. -/
def text? : Value → Option String
  | text s => some s
  | _ => none

/-- The 32-bit integer a value is. -/
def integer? : Value → Option Int32
  | integer n => some n
  | _ => none

/-- The 64-bit integer a value is. -/
def long? : Value → Option Int64
  | long n => some n
  | _ => none

/-- The flag a value is. -/
def boolean? : Value → Option Bool
  | boolean b => some b
  | _ => none

/-- The partition key of an object that has one. -/
def partitionKey? : Value → Option Value
  | portable p => p.key
  | identified o => o.key
  | object o => o.key
  | _ => none

/-- The payload of a user object. -/
def payload? : Value → Option Value
  | object o => o.payload
  | _ => none

/-- An envelope as a value; no envelope is nothing. -/
def ofEnvelope : Option Envelope → Value
  | none => null
  | some e => envelope e

/-- A value that may be missing; a missing one is nothing. -/
def ofOption : Option Value → Value
  | none => null
  | some value => value

/-- Whether two values are equal.  Built-in values are equal if their contents are; objects only
    if they are one and the same, which `shared` says of objects in the same place. -/
def equal (shared : Bool) : Value → Value → Bool
  | null, null => true
  | text a, text b => a = b
  | integer a, integer b => a = b
  | long a, long b => a = b
  | boolean a, boolean b => a = b
  | bytes a, bytes b => a = b
  | instant a, instant b => a = b
  | bigInteger a, bigInteger b => a = b
  | portable _, portable _ => shared
  | identified _, identified _ => shared
  | object _, object _ => shared
  | envelope a, envelope b => a.same b
  | _, _ => false

/-- A value as shown in messages. -/
def shown : Value → String
  | null => "Null"
  | text s => "String(" ++ Quoted.text s ++ ")"
  | integer n => s!"Integer({n})"
  | long n => s!"Long({n})"
  | boolean b => s!"Boolean({b})"
  | bytes run => "ByteArray(" ++ Quoted.list (run.map toString) ++ ")"
  | instant t => "Date(" ++ t.text ++ ")"
  | bigInteger n => s!"BigInteger({n})"
  | portable p => "Portable(" ++ p.shown ++ ")"
  | identified o => "DataSerializable(" ++ o.shown ++ ")"
  | object o => "Object(" ++ o.shown ++ ")"
  | envelope e => "Data(" ++ e.shown ++ ")"

end Value

end ObjectWire
