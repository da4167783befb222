import ObjectWire.Registry
import ObjectWire.Settings
import ObjectWire.Transport

/-!
# The serialization service

A service holds the codec registry, the class definitions with the buffer pool, the factories, and
the kinds of records that are written as documents.  This module has its state, what can be
registered with it, and how codecs are found; writing and reading are built on top.
-/

namespace ObjectWire

/-- The state of a service. -/
structure Service where
  registry : Registry
  context : PortableContext
  portableFactory : Option PortableFactory
  factories : Factories
  records : List (TypeKey × RecordKind)
  managed : Option ManagedContext
  countsExhaustion : Bool
  /-- What the handler for exhausted memory heard of, one failure for each call of it. -/
  heard : List Failure
  names : TypeNames

namespace Service

/-- The types that the built-in codecs are bound to at first. -/
def builtinBindings : List (TypeKey × BuiltinCodec) :=
  [(.text, .text), (.integer, .integer), (.long, .long), (.boolean, .boolean), (.bytes, .bytes),
   (.instant, .instant), (.bigInteger, .bigInteger), (.portable, .portable),
   (.identified, .identified), (.document, .document)]

/-- A new service. -/
def ofSettings (settings : Settings) : Service where
  registry := builtinBindings.foldl
    (fun registry (key, codec) => registry.install key (.builtin codec)) .empty
  context := .start settings.portableVersion
    (.ofSettings settings.initialCapacity settings.maxRetained settings.shards settings.growth)
  portableFactory := settings.portableFactory
  factories := settings.factories
  records := []
  managed := settings.managed
  countsExhaustion := settings.countsExhaustion
  heard := []
  names := settings.names

/-- How often a handler that counts was called. -/
def exhaustions (service : Service) : Nat :=
  if service.countsExhaustion then service.heard.length else 0

/-- The context as shown in messages. -/
def contextShown (service : Service) : String :=
  s!"PortableContext \x7b version: {service.context.version}, " ++
    s!"has_factory: {service.portableFactory.isSome}, " ++
    s!"definitions: {service.context.definitions.length} \x7d"

/-- The record kinds as shown in messages. -/
def recordsShown (names : TypeNames) (records : List (TypeKey × RecordKind)) : String :=
  let entry : TypeKey × RecordKind → String := fun (key, kind) =>
    "TypeKey(" ++ Quoted.text key.name ++ "): SerdeAdapter \x7b type_name: " ++
      Quoted.text (names.record kind) ++ " \x7d"
  "GenericSerializer \x7b adapters: \x7b" ++ ", ".intercalate (records.map entry) ++ "\x7d \x7d"

/-- A codec as shown in messages. -/
def codecShown (service : Service) : Codec → String
  | .custom codec => codec.shown
  | .builtin .portable => "PortableSerializer \x7b context: " ++ service.contextShown ++ " \x7d"
  | .builtin .identified => service.factories.codecShown
  | .builtin .document => recordsShown service.names service.records
  | .builtin codec => codec.name

/-- What reading a portable object goes by. -/
def source (service : Service) : Frame.Source := ⟨service.context, service.portableFactory⟩

/-- The service with compressed forms that it shares with others. -/
def sharing (forms : CompressedForms) (service : Service) : Service :=
  { service with context := { service.context with forms := forms } }

/-- Runs a step on the class definitions. -/
def onContext {α : Type} (step : Act PortableContext α) : Act Service α :=
  Act.on Service.context (fun context service => { service with context := context }) step

/-- Runs a step on the registry, which is given the way codecs are shown. -/
def onRegistry {α : Type} (step : (Codec → String) → Act Registry α) : Act Service α := fun service =>
  Act.on Service.registry (fun registry service => { service with registry := registry })
    (step service.codecShown) service

/-- Changes the registry. -/
def changeRegistry (change : Registry → Registry) : Act Service Unit :=
  Act.change fun service => { service with registry := change service.registry }

/-- Registers a codec for a type. -/
def register (key : TypeKey) (codec : Codec) : Act Service Unit :=
  onRegistry fun shown => Registry.register shown key codec

/-- Takes the codec of a type back. -/
def deregister (key : TypeKey) : Act Service Unit := changeRegistry (Registry.deregister key)

/-- Registers the codec for types that nothing else is found for. -/
def registerFallback (codec : Codec) : Act Service Unit :=
  onRegistry fun shown => Registry.registerFallback shown codec

/-- Takes the fallback back. -/
def deregisterFallback : Act Service Unit := changeRegistry Registry.deregisterFallback

/-- Declares parents of a type. -/
def declareType (key : TypeKey) (parents : Parents) : Act Service Unit :=
  changeRegistry (Registry.declare key parents)

/-- Files a kind of records under the type they report, in place of the kind filed there. -/
def fileRecord (key : TypeKey) (kind : RecordKind) (service : Service) : Service :=
  { service with records := Keyed.put key kind service.records }

/-- Has records of a kind that report a type written as documents, unless the type belongs to a
    reserved family. -/
def registerRecord (key : TypeKey) (kind : RecordKind) : Act Service Unit := do
  let service ← get
  let hierarchy := service.registry.hierarchy
  if hierarchy.isA key .portable || hierarchy.isA key .identified then
    Act.fail (.reservedForFamilies key.name)
  else do
    Act.change (fileRecord key kind)
    declareType key ⟨[], [.document]⟩

/-- The codec for a type. -/
def codecFor (key : TypeKey) : Act Service (Option Codec) := fun service =>
  let (codec, registry) := service.registry.lookup key
  (.ok codec, { service with registry := registry })

/-- The codec for a type id. -/
def codecForId (service : Service) (id : Int32) : Option Codec := service.registry.lookupId id

/-- The codec for a value. -/
def codecForValue (value : Value) : Act Service Codec :=
  match value.typeKey? with
  | none => Act.fail (.noRuntimeType value.shown)
  | some key => do
    match ← codecFor key with
    | some codec => pure codec
    | none => Act.fail (.noCodec key.name)

/-- What a decoded value is handed out as. -/
def handOut (service : Service) (value : Value) : Value :=
  match service.managed with
  | some managed => managed value
  | none => value

/-- What becomes of a failure on the way out: if memory ran out, the handler hears of it, and a
    failure of input or output counts as one of serialization. -/
def report (failure : Failure) (service : Service) : Failure × Service :=
  match failure.kind with
  | .resourceExhausted => (failure, { service with heard := service.heard ++ [failure] })
  | .io => (.reported .serialization failure.detail, service)
  | _ => (failure, service)

/-- Runs a call from outside, whose failure is reported once. -/
def guarded {σ α : Type} (service : σ → Service) (restore : Service → σ → σ) (step : Act σ α) :
    Act σ α := fun state =>
  match step state with
  | (.error failure, reached) =>
    let (failure, heard) := report failure (service reached)
    (.error failure, restore heard reached)
  | outcome => outcome

/-- Tears the service down: nothing stays bound, declared or pooled.  Answers with the codecs whose
    teardown is due, each instance once. -/
def destroy : Act Service (List Codec) := fun service =>
  let torn := service.registry.instances
  (.ok torn,
    { service with
      registry := service.registry.destroy
      records := if Codec.builtin .document ∈ torn then [] else service.records
      context := { service.context with pool := service.context.pool.clear } })

end Service

end ObjectWire
