import ObjectWire.FieldKind
import ObjectWire.Text.Quoted
import ObjectWire.Text.Utf8

/-!
# Failures

Everything that can go wrong, as causes.  A cause belongs to one of nine kinds, and the kind
alone decides whether trying again may help and whether the situation is critical.  The wording
of every cause stands in `Failure.detail`.
-/

namespace ObjectWire

/-- The kinds of failures a caller can tell apart. -/
inductive FailureKind
  | notSerializable
  | unknownType
  | registrationConflict
  | schemaFailure
  | serialization
  | invalidArgument
  | configuration
  | resourceExhausted
  | io
  deriving Repr, DecidableEq

namespace FailureKind

/-- Every kind. -/
def all : List FailureKind :=
  [.notSerializable, .unknownType, .registrationConflict, .schemaFailure, .serialization,
   .invalidArgument, .configuration, .resourceExhausted, .io]

/-- The name of a kind. -/
def name : FailureKind → String
  | .notSerializable => "NotSerializable"
  | .unknownType => "UnknownType"
  | .registrationConflict => "RegistrationConflict"
  | .schemaFailure => "SchemaFailure"
  | .serialization => "Serialization"
  | .invalidArgument => "InvalidArgument"
  | .configuration => "Configuration"
  | .resourceExhausted => "ResourceExhausted"
  | .io => "Io"

/-- The kind with a given name. -/
def ofName? (name : String) : Option FailureKind := all.find? fun kind => kind.name = name

/-- The words that open every message of a kind. -/
def heading : FailureKind → String
  | .notSerializable => "not serializable"
  | .unknownType => "unknown type id"
  | .registrationConflict => "registration conflict"
  | .schemaFailure => "schema failure"
  | .serialization => "serialization error"
  | .invalidArgument => "invalid argument"
  | .configuration => "configuration error"
  | .resourceExhausted => "resource exhausted"
  | .io => "I/O error"

/-- Whether the failed operation may succeed when it is repeated. -/
def retryable : FailureKind → Bool
  | .resourceExhausted | .invalidArgument | .configuration => false
  | _ => true

/-- Whether the kind is the signal that memory ran out. -/
def critical : FailureKind → Bool
  | .resourceExhausted => true
  | _ => false

end FailureKind

/-- What a declared length counts. -/
inductive Counted
  | byteArray
  | string
  | list
  | array
  | portableBody
  deriving Repr, DecidableEq

/-- Causes of failure. -/
inductive Failure
  /-- A failure that user code reports in its own words. -/
  | reported (kind : FailureKind) (text : String)
  -- values and codecs
  | unknownType (id : Int32)
  | noRuntimeType (shown : String)
  | noCodec (key : String)
  | cannotEncode (codec shown : String)
  | nullObject
  -- registrations
  | negativeTypeId (id : Int32) (key : String)
  | reservedFamily (key family : String)
  | reservedForFamilies (key : String)
  | typeBound (key holder : String)
  | idBound (id : Int32) (holder : String)
  | fallbackBound (holder : String)
  -- primitive items
  | insufficientData (need available : Nat)
  | negativeLength (of : Counted) (length : Int32)
  | tooLong (of : Counted) (size : Nat)
  | malformedText (fault : Utf8Fault)
  | timestampOutOfRange (millis : Int64)
  | emptyBigInteger
  | patchOutOfRange (position size : Nat)
  | unboundOutput (operation : String)
  | unboundInput (operation : String)
  -- class definitions
  | unknownFieldKind (id : Int)
  | definitionTooDeep
  | negativeFieldCount (count : Int32)
  | negativeNestedCount (count : Int32)
  | tooManyEntries (size : Nat)
  | duplicateField (name : String) (classId : Int32)
  | misplacedField (name : String) (classId index : Int32) (position : Nat)
  | unknownNestedClass (name : String) (classId nestedId nestedVersion : Int32)
  | needsNestedDefinition (kind : FieldKind)
  | noCompressedForm (classId version : Int32)
  | decompressionFailed
  | headerMismatch (classId version carriedId carriedVersion : Int32)
  | noDefinition (classId version : Int32)
  | endlessDefinition (classId version : Int32)
  | noPortableFactory (classId : Int32)
  | cannotCreate (classId : Int32)
  | undescribedNull (name : String)
  | undescribedClass (name : String) (classId : Int32)
  | declaredForClass (name : String) (declared actual : Int32)
  -- portable fields
  | unknownField (name : String) (classId : Int32)
  | kindMismatch (name : String) (expected got : FieldKind)
  | writtenTwice (name : String)
  | bodyTooLarge
  | holdsClass (name : String) (declared got : Int32)
  | charTooWide (c : Char)
  | bodyTooShort (size fields : Nat)
  | invalidOffset (name : String) (offset : Int32)
  | negativeArrayLength (length : Int32) (name : String)
  | invalidCharCode (code : Nat)
  | decodedClass (name : String) (declared : Option Int32) (decoded : Int32)
  | portablesTooDeep
  | portableNotA (classId : Int32) (typeName : String)
  -- identified objects
  | noIdentifiedFactory (factoryId classId : Int32)
  | identifiedNotA (factoryId classId : Int32) (typeName : String)
  -- documents
  | documentUnregistered (key : String)
  | documentUnknown (key : String)
  | documentMismatch (typeName shown : String)
  | documentMalformed (typeName : String)
  -- settings
  | negativeVersion
  | noInitialCapacity
  | retainedBelowInitial
  | noShards
  deriving Repr, DecidableEq

namespace Failure

/-- Levels of definitions nested inside a definition that a layout may have. -/
def maxDefinitionLevels : Nat := 64

/-- Levels of objects nested inside an object that are decoded. -/
def maxPortableLevels : Nat := 128

/-- The kind a cause belongs to. -/
def kind : Failure → FailureKind
  | .reported kind _ => kind
  | .unknownType _ => .unknownType
  | .noRuntimeType _ | .noCodec _ | .documentUnregistered _ => .notSerializable
  | .nullObject | .negativeTypeId .. => .invalidArgument
  | .reservedFamily .. | .reservedForFamilies _ | .typeBound .. | .idBound ..
  | .fallbackBound _ => .registrationConflict
  | .unknownFieldKind _ | .definitionTooDeep | .negativeFieldCount _ | .negativeNestedCount _
  | .tooManyEntries _ | .duplicateField .. | .misplacedField .. | .unknownNestedClass ..
  | .needsNestedDefinition _ | .noCompressedForm .. | .decompressionFailed
  | .headerMismatch .. | .noDefinition .. | .endlessDefinition .. | .noPortableFactory _
  | .cannotCreate _ | .undescribedNull _ | .undescribedClass .. | .declaredForClass ..
    => .schemaFailure
  | .negativeVersion | .noInitialCapacity | .retainedBelowInitial | .noShards => .configuration
  | _ => .serialization

/-- A declared length of the wrong sign, in words. -/
def negativeLengthText (length : Int32) : Counted → String
  | .byteArray => s!"invalid byte array length: {length}"
  | .string => s!"invalid string length: {length}"
  | .list => s!"invalid list length: {length}"
  | .array => s!"invalid array length: {length}"
  | .portableBody => s!"invalid portable body length: {length}"

/-- A size that no length can declare, in words. -/
def tooLongText (size : Nat) : Counted → String
  | .byteArray => s!"byte array too long: {size} bytes"
  | .string => s!"string too long: {size} bytes"
  | .list => s!"list too long: {size} items"
  | .array => s!"array too long: {size} items"
  | .portableBody => s!"portable body too long: {size} bytes"

/-- A class id that may be missing, in words. -/
def optionText : Option Int32 → String
  | some id => s!"Some({id})"
  | none => "None"

/-- What happened, in words, without the heading of its kind. -/
def detail : Failure → String
  | .reported _ text => text
  | .unknownType id => toString id
  | .noRuntimeType shown => s!"{shown} has no runtime type"
  | .noCodec key => s!"no serializer for type {key}"
  | .cannotEncode codec shown => s!"{codec} cannot encode {shown}"
  | .nullObject => "cannot write a null object"
  | .negativeTypeId id key => s!"type id must be non-negative, got {id} for {key}"
  | .reservedFamily key family => s!"{key} is a {family} and must use the built-in codec"
  | .reservedForFamilies key => s!"{key} belongs to a reserved family"
  | .typeBound key holder => s!"{key} is already bound to {holder}"
  | .idBound id holder => s!"type id {id} is already bound to {holder}"
  | .fallbackBound holder => s!"fallback codec already registered: {holder}"
  | .insufficientData need available =>
    s!"insufficient data: need {need} bytes, have {available}"
  | .negativeLength counted length => negativeLengthText length counted
  | .tooLong counted size => tooLongText size counted
  | .malformedText fault => "invalid UTF-8 string: " ++ fault.message
  | .timestampOutOfRange millis => s!"timestamp out of range: {millis} ms"
  | .emptyBigInteger => "big integer encoding must contain at least one byte"
  | .patchOutOfRange position size =>
    s!"cannot patch int at {position} in a buffer of {size} bytes"
  | .unboundOutput operation =>
    s!"{operation} requires an output bound to a serialization service"
  | .unboundInput operation =>
    s!"{operation} requires an input bound to a serialization service"
  | .unknownFieldKind id => s!"unknown field type id: {id}"
  | .definitionTooDeep =>
    s!"class definition nested deeper than {maxDefinitionLevels} levels"
  | .negativeFieldCount count => s!"negative field count: {count}"
  | .negativeNestedCount count => s!"negative nested definition count: {count}"
  | .tooManyEntries size => s!"too many entries: {size}"
  | .duplicateField name classId => s!"duplicate field '{name}' in class {classId}"
  | .misplacedField name classId index position =>
    s!"field '{name}' of class {classId} has index {index} at position {position}"
  | .unknownNestedClass name classId nestedId nestedVersion =>
    s!"field '{name}' of class {classId} references unknown class {nestedId}/{nestedVersion}"
  | .needsNestedDefinition fieldKind => fieldKind.name ++ " fields need a nested class definition"
  | .noCompressedForm classId version =>
    s!"class definition {classId}/{version} has no compressed form " ++
      "and no service is available to compute it"
  | .decompressionFailed => "decompression failed"
  | .headerMismatch classId version carriedId carriedVersion =>
    s!"envelope header names class definition {classId}/{version} " ++
      s!"but carries {carriedId}/{carriedVersion}"
  | .noDefinition classId version =>
    s!"no class definition for class {classId} version {version}"
  | .endlessDefinition classId version =>
    s!"class definition {classId}/{version} contains itself"
  | .noPortableFactory classId =>
    s!"no portable factory configured to create class {classId}"
  | .cannotCreate classId => s!"portable factory cannot create class {classId}"
  | .undescribedNull name =>
    s!"cannot describe null portable field '{name}'; use write_null_portable"
  | .undescribedClass name classId =>
    s!"cannot describe field '{name}' without a value " ++
      s!"or a registered class definition for class {classId}"
  | .declaredForClass name declared actual =>
    s!"field '{name}' declared for class {declared} holds class {actual}"
  | .unknownField name classId => s!"unknown field '{name}' for class {classId}"
  | .kindMismatch name expected got =>
    s!"field '{name}' type mismatch: expected " ++ expected.name ++ ", got " ++ got.name
  | .writtenTwice name => s!"field '{name}' written twice"
  | .bodyTooLarge => "portable body exceeds 2 GiB"
  | .holdsClass name declared got => s!"field '{name}' holds class {declared}, got class {got}"
  | .charTooWide c => "char " ++ Quoted.char c ++ " does not fit in 16 bits"
  | .bodyTooShort size fields =>
    s!"portable body of {size} bytes cannot hold {fields} field offsets"
  | .invalidOffset name offset => s!"field '{name}' has invalid offset {offset}"
  | .negativeArrayLength length name => s!"invalid array length {length} for field '{name}'"
  | .invalidCharCode code => s!"invalid char code: {code}"
  | .decodedClass name declared decoded =>
    s!"field '{name}' holds class " ++ optionText declared ++ s!", decoded class {decoded}"
  | .portablesTooDeep => s!"portable objects nested deeper than {maxPortableLevels} levels"
  | .portableNotA classId typeName => s!"portable of class {classId} is not a {typeName}"
  | .noIdentifiedFactory factoryId classId =>
    s!"no data serializable factory can create factory_id={factoryId}, class_id={classId}"
  | .identifiedNotA factoryId classId typeName =>
    s!"object of factory {factoryId} class {classId} is not a {typeName}"
  | .documentUnregistered key | .documentUnknown key => s!"no serde registration for type {key}"
  | .documentMismatch typeName shown =>
    s!"{typeName} is registered for serde encoding, got {shown}"
  | .documentMalformed typeName => s!"serde decode of {typeName} failed"
  | .negativeVersion => "portable_version must not be negative"
  | .noInitialCapacity => "initial_buffer_capacity must be positive"
  | .retainedBelowInitial =>
    "max_retained_buffer_capacity must not be below initial_buffer_capacity"
  | .noShards => "buffer_pool_shards must be positive"

/-- The whole message: the heading of the kind, then the detail. -/
def message (failure : Failure) : String := failure.kind.heading ++ ": " ++ failure.detail

/-- Whether the failed operation may succeed when it is repeated. -/
def retryable (failure : Failure) : Bool := failure.kind.retryable

/-- Whether memory ran out. -/
def critical (failure : Failure) : Bool := failure.kind.critical

end Failure

end ObjectWire
