import ObjectWire.Service
import ObjectWire.Wire.Shape

/-!
# Encoding values

Writing a value puts the codec's type id in front of what the codec writes; encoding it keeps the
two apart and adds the definition of a portable object and the hash of the partition key.

Values nest: an identified object may write objects, a user object may have a payload, and both
may have a key.  `Parts` is what a value's own nested values contribute; given the parts, writing
and encoding need not look deeper, and `partsOf` is the recursion that collects them.
-/

namespace ObjectWire

/-- An output in use: the buffer, the service behind it, and whether the output is bound to the
    service, so that objects can be written inside objects. -/
structure Writing where
  output : Output
  service : Service
  bound : Bool

namespace Writing

/-- Runs a step on the output. -/
def onOutput {α : Type} (step : Act Output α) : Act Writing α :=
  Act.on Writing.output (fun output writing => { writing with output := output }) step

/-- Runs a step on the service. -/
def onService {α : Type} (step : Act Service α) : Act Writing α :=
  Act.on Writing.service (fun service writing => { writing with service := service }) step

/-- The compressed form of a definition: the one at hand, or the one that a bound service makes. -/
def compressedForm (definition : ClassDefinition) : Act Writing Bytes := do
  if (← get).bound then onService (Service.onContext (PortableContext.binaryOf definition))
  else onOutput (Transport.formAtHand (← get).service.context.forms definition)

/-- Writes an envelope, or the mark for none. -/
def envelope (e : Option Envelope) : Act Writing Unit := Transport.write onOutput compressedForm e

end Writing

/-- Performs an output step that needs no service. -/
def PlainWrite.perform : PlainWrite → Act Output Unit
  | .scalar kind item => Output.writeItem (kind.encode item)
  | .bytes run => Output.write run
  | .text s => Output.writeItem (Wire.string s)
  | .byteArray run => Output.writeItem (Wire.byteArray run)
  | .intAt position n => Output.patchInt position n
  | .clear => Act.change Output.clear
  | .fail message => Act.fail (.reported .serialization message)

/-- Performs an output step without a service. -/
def OutputStep.performUnbound (forms : CompressedForms) : OutputStep → Act Output Unit
  | .plain write => write.perform
  | .object _ => Act.fail (.unboundOutput "write_object")
  | .envelope e => Transport.writeUnbound forms e

/-- What the values inside a value contribute. -/
structure Parts where
  /-- The steps of an identified object. -/
  steps : Act Writing Unit
  /-- The payload, written as an object. -/
  payload : Option (Act Writing Unit)
  /-- The partition hash that the key yields, if it yields one. -/
  keyHash : Act Service (Option Int32)

namespace Parts

/-- A value with no values inside. -/
def none : Parts := ⟨pure (), Option.none, pure Option.none⟩

end Parts

namespace Service

/-- Writes the document of a record behind the name of its type. -/
def writeDocument (o : UserObject) : Act Writing Unit := do
  let writing ← get
  match writing.service.records.lookup o.typeKey with
  | none => Act.fail (.documentUnregistered o.typeKey.name)
  | some kind =>
    match o with
    | .record _ r =>
      if r.kind = kind then do
        Writing.onOutput (Output.writeItem (Wire.string o.typeKey.name))
        Writing.onOutput (Output.writeItem (Wire.byteArray r.encode))
      else Act.fail (.documentMismatch (writing.service.names.record kind) o.shown)
    | .carrying .. =>
      Act.fail (.documentMismatch (writing.service.names.record kind) o.shown)

/-- Writes the frame of a portable object and answers with its definition. -/
def writePortable (p : Portable) : Act Writing ClassDefinition := do
  let frame ← Writing.onService (onContext (Frame.close p))
  Writing.onOutput frame.write
  pure frame.definition

/-- Writes a value by a built-in codec. -/
def writeBuiltin (codec : BuiltinCodec) (value : Value) (parts : Parts) : Act Writing Unit :=
  match codec, value with
  | .text, .text s => Writing.onOutput (Output.writeItem (Wire.string s))
  | .integer, .integer n => Writing.onOutput (Output.write (Wire.int n))
  | .long, .long n => Writing.onOutput (Output.write (Wire.long n))
  | .boolean, .boolean b => Writing.onOutput (Output.write (Wire.bool b))
  | .bytes, .bytes run => Writing.onOutput (Output.writeItem (Wire.byteArray run))
  | .instant, .instant t => Writing.onOutput (Output.write (Wire.instant t))
  | .bigInteger, .bigInteger n => Writing.onOutput (Output.writeItem (Wire.bigInteger n))
  | .portable, .portable p => do
    let _ ← writePortable p
  | .identified, .identified o => do
    Writing.onOutput (Output.write (Wire.int o.factoryId ++ Wire.int o.classId))
    parts.steps
  | .document, .object o => writeDocument o
  | codec, value => Act.fail (.cannotEncode codec.name value.shown)

/-- The mark in front of what a failing codec does not write. -/
def failureMark : Int64 := -1

/-- Writes a value by a codec made to order. -/
def writeCustom (codec : CustomCodec) (value : Value) (parts : Parts) : Act Writing Unit :=
  match codec.mode with
  | .typeName =>
    Writing.onOutput (Output.writeItem
      (Wire.string ((value.typeKey?.map TypeKey.name).getD "?")))
  | .nothing => pure ()
  | .payload => do
    Writing.onOutput (Output.write (Wire.bool parts.payload.isSome))
    parts.payload.getD (pure ())
  | .envelope =>
    match value.payload? with
    | some (.envelope e) => Writing.envelope (some e)
    | _ => Writing.envelope none
  | .failing kind => do
    Writing.onOutput (Output.write (Wire.long failureMark))
    Act.fail (.reported kind (codec.name ++ " refuses to encode"))

/-- Writes a value by a codec. -/
def writeBy (codec : Codec) (value : Value) (parts : Parts) : Act Writing Unit :=
  match codec with
  | .builtin codec => writeBuiltin codec value parts
  | .custom codec => writeCustom codec value parts

/-- Writes a value as an object: the type id, then what the codec or an envelope has. -/
def writeValueBy (value : Value) (parts : Parts) : Act Writing Unit :=
  match value with
  | .null => Act.fail .nullObject
  | .envelope e => Writing.onOutput (Output.write (Wire.int e.typeId ++ e.payload))
  | value => do
    let codec ← Writing.onService (codecForValue value)
    Writing.onOutput (Output.write (Wire.int codec.typeId))
    writeBy codec value parts

/-- Runs a step on a bound output in a borrowed buffer; answers with what was written as well. -/
def inBuffer {α : Type} (step : Act Writing α) : Act Service (α × Bytes) := fun service =>
  let (buffer, pool) := service.context.pool.acquire
  let lent := { service with context := { service.context with pool := pool } }
  match step ⟨buffer, lent, true⟩ with
  | (outcome, reached) =>
    ((fun value => (value, reached.output.content)) <$> outcome,
     { reached.service with
       context := { reached.service.context with
         pool := reached.service.context.pool.release reached.output } })

/-- Writes a value by its codec and answers with the definition, if it is a portable object that
    goes by the portable type id. -/
def writeDefined (codec : Codec) (value : Value) (parts : Parts) :
    Act Writing (Option ClassDefinition) :=
  match value with
  | .portable p =>
    if codec.typeId = BuiltinCodec.portable.typeId then some <$> writePortable p
    else do
      writeBy codec value parts
      pure none
  | _ => do
    writeBy codec value parts
    pure none

/-- Encodes a value into an envelope. -/
def encodeBy (value : Value) (parts : Parts) : Act Service Envelope := do
  let codec ← codecForValue value
  let (definition, payload) ← inBuffer (writeDefined codec value parts)
  let hash ← parts.keyHash
  pure ⟨codec.typeId, payload, definition, hash⟩

/-- The partition hash that a key yields: none if it is nothing, that of an envelope, or else that
    of its encoding. -/
def keyHashBy (key : Value) (parts : Parts) : Act Service (Option Int32) :=
  match key with
  | .null => pure none
  | .envelope e => pure (some e.partitionHash)
  | key => do return some (← encodeBy key parts).partitionHash

/-- Writes an object inside an object, which takes a bound output. -/
def writeNestedBy (value : Value) (parts : Parts) : Act Writing Unit := do
  if (← get).bound then writeValueBy value parts
  else Act.fail (.unboundOutput "write_object")

mutual

/-- The parts of a value. -/
def partsOf : Value → Parts
  | .portable p => partsOfPortable p
  | .identified o => partsOfIdentified o
  | .object o => partsOfObject o
  | _ => .none
termination_by structural value => value

/-- The parts of a portable object: its key. -/
def partsOfPortable : Portable → Parts
  | .scripted _ _ _ key _ => { Parts.none with keyHash := keyHash key }
  | _ => .none
termination_by structural p => p

/-- The parts of an identified object: its steps and its key. -/
def partsOfIdentified : Identified → Parts
  | .scripted _ _ writes key _ => ⟨performAll writes, none, keyHash key⟩
  | .reading r => { Parts.none with steps := Writing.onOutput r.write }
termination_by structural o => o

/-- The parts of a user object: its payload and its key. -/
def partsOfObject : UserObject → Parts
  | .carrying _ payload key => ⟨pure (), writePayload payload, keyHash key⟩
  | .record .. => .none
termination_by structural o => o

/-- Performs output steps, one after the other. -/
def performAll : List OutputStep → Act Writing Unit
  | [] => pure ()
  | step :: steps => do
    perform step
    performAll steps
termination_by structural steps => steps

/-- Performs an output step. -/
def perform : OutputStep → Act Writing Unit
  | .plain write => Writing.onOutput write.perform
  | .object value => writeNestedBy value (partsOf value)
  | .envelope e => Writing.envelope e
termination_by structural step => step

/-- Writes a payload, if there is one. -/
def writePayload : Option Value → Option (Act Writing Unit)
  | none => none
  | some value => some (writeNestedBy value (partsOf value))
termination_by structural payload => payload

/-- The partition hash of a key, if there is one. -/
def keyHash : Option Value → Act Service (Option Int32)
  | none => pure none
  | some key => keyHashBy key (partsOf key)
termination_by structural key => key

end

/-- Encodes a value.  Nothing yields no envelope, and an envelope yields itself. -/
def toData (value : Value) : Act Service (Option Envelope) :=
  match value with
  | .null => pure none
  | .envelope e => pure (some e)
  | value => guarded id (fun service _ => service) (some <$> encodeBy value (partsOf value))

/-- Writes a value to an output that is not bound to the service: its type id, then what its codec
    writes. -/
def writeObject (value : Value) : Act Writing Unit :=
  guarded Writing.service (fun service writing => { writing with service := service })
    (writeValueBy value (partsOf value))

end Service

end ObjectWire
