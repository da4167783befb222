import ObjectWire.Factories
import ObjectWire.Portable.Frame

/-!
# Settings

What a service is made from.  Settings are drafted one by one; what is left open gets its default,
and the whole is checked once.  A draft can also start from settings that are in force.
-/

namespace ObjectWire

/-- What happens to every decoded value before it is handed out. -/
abbrev ManagedContext : Type := Value → Value

namespace ManagedContext

/-- Puts ASCII letters of texts into upper case. -/
def upperCase : ManagedContext
  | .text s => .text (String.ofList (s.toList.map Char.toUpper))
  | value => value

/-- Adds one to 32-bit integers. -/
def increment : ManagedContext
  | .integer n => .integer (n + 1)
  | value => value

/-- Lets nothing through. -/
def discard : ManagedContext := fun _ => .null

/-- Leaves every value as it is. -/
def keep : ManagedContext := id

end ManagedContext

/-- Checked settings. -/
structure Settings where
  portableVersion : Int32
  initialCapacity : Nat
  maxRetained : Nat
  shards : Nat
  portableFactory : Option PortableFactory
  factories : Factories
  managed : Option ManagedContext
  /-- Whether the times at which memory ran out are counted. -/
  countsExhaustion : Bool
  /-- How buffers grow; this comes with the buffers, and cannot be asked for. -/
  growth : Growth
  /-- What types are called; this comes with the types, and cannot be asked for. -/
  names : TypeNames

/-- Settings that are still open. -/
structure SettingsDraft where
  portableVersion : Option Int32
  initialCapacity : Option Nat
  maxRetained : Option Nat
  shards : Option Nat
  portableFactory : Option PortableFactory
  factories : Factories
  managed : Option ManagedContext
  countsExhaustion : Option Bool
  growth : Growth
  names : TypeNames

namespace Settings

/-- The version of objects that name none if nothing else is asked for. -/
def defaultVersion : Int32 := 0

/-- The settings if nothing is asked for. -/
def default : Settings :=
  ⟨defaultVersion, Pool.defaultInitialCapacity, Pool.defaultMaxRetained, Pool.defaultShards, none,
   .empty, none, false, .amortised, .standard⟩

/-- A draft in which everything is as in the settings. -/
def toDraft (s : Settings) : SettingsDraft :=
  ⟨some s.portableVersion, some s.initialCapacity, some s.maxRetained, some s.shards,
   s.portableFactory, s.factories, s.managed, some s.countsExhaustion, s.growth, s.names⟩

/-- Settings as shown in messages. -/
def shown (s : Settings) : String :=
  s!"SerializationConfig \x7b portable_version: {s.portableVersion}, " ++
    s!"initial_buffer_capacity: {s.initialCapacity}, " ++
    s!"max_retained_buffer_capacity: {s.maxRetained}, buffer_pool_shards: {s.shards}, " ++
    s!"has_portable_factory: {s.portableFactory.isSome}, " ++
    "data_serializable_factories: " ++ s.factories.shown ++
    s!", has_managed_context: {s.managed.isSome} \x7d"

end Settings

namespace SettingsDraft

/-- A draft in which everything is open. -/
def empty : SettingsDraft := ⟨none, none, none, none, none, .empty, none, none, .amortised, .standard⟩

/-- The settings of a draft.  The version must not be negative, buffers must have room, retained
    buffers must not be smaller than new ones, and there must be a shard. -/
def build (draft : SettingsDraft) : Except Failure Settings := do
  let version := draft.portableVersion.getD Settings.defaultVersion
  let initial := draft.initialCapacity.getD Pool.defaultInitialCapacity
  let retained := draft.maxRetained.getD Pool.defaultMaxRetained
  let shards := draft.shards.getD Pool.defaultShards
  if version < 0 then throw .negativeVersion
  if initial = 0 then throw .noInitialCapacity
  if retained < initial then throw .retainedBelowInitial
  if shards = 0 then throw .noShards
  pure ⟨version, initial, retained, shards, draft.portableFactory, draft.factories, draft.managed,
    draft.countsExhaustion.getD false, draft.growth, draft.names⟩

/-- Adds a factory of identified objects. -/
def addFactory (id : Int32) (factory : IdentifiedFactory) (draft : SettingsDraft) :
    SettingsDraft :=
  { draft with factories := draft.factories.register id factory }

/-- A draft as shown in messages. -/
def shown (draft : SettingsDraft) : String :=
  let open? {α : Type} [ToString α] (choice : Option α) : String :=
    Envelope.optionShown (choice.map toString)
  "SerializationConfigBuilder \x7b portable_version: " ++ open? draft.portableVersion ++
    ", initial_buffer_capacity: " ++ open? draft.initialCapacity ++
    ", max_retained_buffer_capacity: " ++ open? draft.maxRetained ++
    ", buffer_pool_shards: " ++ open? draft.shards ++ ", .. \x7d"

end SettingsDraft

end ObjectWire
