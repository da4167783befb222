import ObjectWire.Service
import ObjectWire.Wire.Shape

/-!
# Decoding values

Reading a value goes by the type id in front of it; decoding an envelope by the envelope's own.
Every value is handed out through the managed context, if there is one.

An object inside an object has its own type id in front, which takes four bytes.  The number of
unread bytes therefore bounds how deep objects can lie inside each other, and it is passed along;
where it is used up, not even a type id is left to read.
-/

namespace ObjectWire

/-- An input in use: what is left of it, the service behind it, and whether the input is bound to
    the service, so that objects can be read inside objects. -/
structure Receiving where
  input : Input
  service : Service
  bound : Bool

namespace Receiving

/-- Runs a step on the input. -/
def onInput {α : Type} (step : Act Input α) : Act Receiving α :=
  Act.on Receiving.input (fun input receiving => { receiving with input := input }) step

/-- Runs a step on the service. -/
def onService {α : Type} (step : Act Service α) : Act Receiving α :=
  Act.on Receiving.service (fun service receiving => { receiving with service := service }) step

/-- The definition for a class and version that arrives in a compressed form: the registered one,
    or else the one that arrives, which gets registered. -/
def resolve (key : ClassKey) (compressed : Bytes) : Act Receiving ClassDefinition := do
  if (← get).bound then
    match (← get).service.context.lookup key with
    | some definition => pure definition
    | none => onService (Service.onContext (PortableContext.importCompressed compressed))
  else Act.fail (.unboundInput "read_data")

/-- Reads an envelope, or the mark for none. -/
def envelope : Act Receiving (Option Envelope) := Transport.read onInput resolve

/-- Reads an object inside an object by `nested`, which takes a bound input. -/
def object (nested : Act Receiving Value) : Act Receiving Value := do
  if (← get).bound then nested else Act.fail (.unboundInput "read_object")

end Receiving

/-- Performs an input step that needs no service. -/
def PlainRead.perform : PlainRead → Act Input PlainResult
  | .scalar kind => (fun item => .scalar kind item) <$> kind.decode
  | .bytes n => .bytes <$> Input.bytes n
  | .text => .text <$> Input.string
  | .byteArray => .bytes <$> Input.byteArray
  | .fail message => Act.fail (.reported .serialization message)

/-- Performs an input step without a service. -/
def InputStep.performUnbound : InputStep → Act Input InputResult
  | .plain read => .plain <$> read.perform
  | .object => Act.fail (.unboundInput "read_object")
  | .envelope => .envelope <$> Transport.readUnbound

namespace Service

/-- Performs an input step; `nested` reads an object inside the object. -/
def performRead (nested : Act Receiving Value) : InputStep → Act Receiving InputResult
  | .plain read => Receiving.onInput (.plain <$> read.perform)
  | .object => .object <$> Receiving.object nested
  | .envelope => .envelope <$> Receiving.envelope

/-- Performs the steps of a plan and lists what they come to. -/
def performPlan (nested : Act Receiving Value) : InputPlan → Act Receiving (List InputResult)
  | .done => pure []
  | .step read next => do
    let first ← performRead nested read
    let others ← performPlan nested (next first)
    pure (first :: others)

/-- Lets a blank identified object read itself. -/
def readIdentified (nested : Act Receiving Value) : BlankIdentified → Act Receiving Identified
  | .planned factoryId classId plan => do
    let got ← performPlan nested plan
    pure (.scripted factoryId classId [] none got)
  | .reading => .reading <$> Receiving.onInput Reading.read

/-- Reads the document of a record behind the name of its type. -/
def readDocument : Act Receiving UserObject := do
  let key ← Receiving.onInput Input.string
  let receiving ← get
  match receiving.service.records.lookup ⟨key⟩ with
  | none => Act.fail (.documentUnknown key)
  | some kind => do
    let document ← Receiving.onInput Input.byteArray
    match Record.decode? kind document with
    | some r => pure (.record ⟨key⟩ r)
    | none => Act.fail (.documentMalformed (receiving.service.names.record kind))

/-- Reads a value by a built-in codec. -/
def readBuiltin (nested : Act Receiving Value) : BuiltinCodec → Act Receiving Value
  | .text => Receiving.onInput (.text <$> Input.string)
  | .integer => Receiving.onInput (.integer <$> Input.int)
  | .long => Receiving.onInput (.long <$> Input.long)
  | .boolean => Receiving.onInput (.boolean <$> Input.bool)
  | .bytes => Receiving.onInput (.bytes <$> Input.byteArray)
  | .instant => Receiving.onInput (.instant <$> Input.instant)
  | .bigInteger => Receiving.onInput (.bigInteger <$> Input.bigInteger)
  | .portable => do
    let source := (← get).service.source
    .portable <$> Receiving.onInput (Frame.openAt source 0)
  | .identified => do
    let factoryId ← Receiving.onInput Input.int
    let classId ← Receiving.onInput Input.int
    match (← get).service.factories.create factoryId classId with
    | none => Act.fail (.noIdentifiedFactory factoryId classId)
    | some blank => .identified <$> readIdentified nested blank
  | .document => .object <$> readDocument

/-- Reads a value by a codec made to order. -/
def readCustom (nested : Act Receiving Value) (codec : CustomCodec) : Act Receiving Value :=
  match codec.mode with
  | .typeName => Receiving.onInput (.text <$> Input.string)
  | .nothing => pure .null
  | .payload => do
    let payload ← do
      if ← Receiving.onInput Input.bool then some <$> Receiving.object nested else pure none
    pure (.object (.carrying ⟨codec.name⟩ payload none))
  | .envelope => do
    let e ← Receiving.envelope
    pure (.object (.carrying ⟨codec.name⟩ (e.map .envelope) none))
  | .failing kind => Act.fail (.reported kind (codec.name ++ " refuses to decode"))

/-- Reads a value by a codec. -/
def readBy (nested : Act Receiving Value) : Codec → Act Receiving Value
  | .builtin codec => readBuiltin nested codec
  | .custom codec => readCustom nested codec

/-- Reads a value behind its type id. -/
def readTagged (nested : Act Receiving Value) : Act Receiving Value := do
  let id ← Receiving.onInput Input.int
  match (← get).service.codecForId id with
  | none => Act.fail (.unknownType id)
  | some codec => do
    let value ← readBy nested codec
    pure ((← get).service.handOut value)

/-- Reads a value that may still hold objects `levels` deep. -/
def readWithin : (levels : Nat) → Act Receiving Value
  | 0 => Act.fail (.insufficientData 4 0)
  | levels + 1 => readTagged (readWithin levels)

/-- Reads a value; the unread bytes bound how deep objects can lie in it. -/
def readValue : Act Receiving Value := fun receiving =>
  readWithin (receiving.input.remaining + 1) receiving

/-- Registers the definition of an envelope, if its class and version are new. -/
def adopt (e : Envelope) : Act Service Unit := do
  match e.definition with
  | none => pure ()
  | some definition =>
    match (← get).context.lookup definition.key with
    | some _ => pure ()
    | none => do
      let _ ← onContext (PortableContext.register definition)

/-- Decodes an envelope. -/
def decode (e : Envelope) : Act Service Value := do
  match (← get).codecForId e.typeId with
  | none => Act.fail (.unknownType e.typeId)
  | some codec => do
    adopt e
    let value ← fun service =>
      match readBy readValue codec ⟨.ofBytes e.payload, service, true⟩ with
      | (outcome, reached) => (outcome, reached.service)
    pure ((← get).handOut value)

/-- Decodes an envelope.  No envelope and an empty one stand for nothing. -/
def toObject (e : Option Envelope) : Act Service Value :=
  match e with
  | none => pure .null
  | some e =>
    if e.payload.isEmpty then pure .null
    else guarded id (fun service _ => service) (decode e)

/-- Reads a value from an input bound to the service. -/
def readObject : Act Receiving Value :=
  guarded Receiving.service (fun service receiving => { receiving with service := service })
    readValue

end Service

end ObjectWire
