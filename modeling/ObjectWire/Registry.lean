import ObjectWire.Act
import ObjectWire.Codec
import ObjectWire.Hierarchy
import ObjectWire.Keyed

/-!
# The codec registry

Types and type ids are bound to codecs.  A type without a binding takes the codec of its nearest
bound ancestor, or else the fallback; what it takes becomes its own binding.  Members of the two
reserved families always go by the codec of the family.

A registration takes one step after the other, and takes back what it did if a later step is refused.
In refusals, codecs appear as `shown` says.
-/

namespace ObjectWire

/-- Bindings of types and type ids to codecs. -/
structure Registry where
  types : List (TypeKey × Codec)
  ids : List (Int32 × Codec)
  fallback : Option Codec
  hierarchy : Hierarchy
  /-- How many lookups missed the bindings. -/
  walks : Nat
  deriving Repr, DecidableEq

namespace Registry

/-- A registry without bindings. -/
def empty : Registry := ⟨[], [], none, .empty, 0⟩

/-- The codec a type is bound to. -/
def binding (registry : Registry) (key : TypeKey) : Option Codec := registry.types.lookup key

/-- The codec a type id is bound to. -/
def lookupId (registry : Registry) (id : Int32) : Option Codec := registry.ids.lookup id

/-- The number of bound types. -/
def size (registry : Registry) : Nat := registry.types.length

/-- Binds a type and the codec's id, whatever they were bound to. -/
def install (key : TypeKey) (codec : Codec) (registry : Registry) : Registry :=
  { registry with
    ids := Keyed.put codec.typeId codec registry.ids
    types := Keyed.put key codec registry.types }

/-- Declares parents of a type. -/
def declare (key : TypeKey) (parents : Parents) (registry : Registry) : Registry :=
  { registry with hierarchy := registry.hierarchy.declare key parents }

/-- Binds the codec's id, unless another implementation holds it. -/
def bindId (shown : Codec → String) (codec : Codec) : Act Registry Unit := fun registry =>
  match registry.lookupId codec.typeId with
  | some holder =>
    if holder.sameImplementation codec then (.ok (), registry)
    else (.error (.idBound codec.typeId (shown holder)), registry)
  | none => (.ok (), { registry with ids := registry.ids ++ [(codec.typeId, codec)] })

/-- Binds a type, unless another implementation holds it.  Answers whether the binding is new. -/
def bindType (shown : Codec → String) (key : TypeKey) (codec : Codec) : Act Registry Bool :=
  fun registry =>
    match registry.binding key with
    | some holder =>
      if holder.sameImplementation codec then (.ok false, registry)
      else (.error (.typeBound key.name (shown holder)), registry)
    | none => (.ok true, { registry with types := registry.types ++ [(key, codec)] })

/-- Takes the binding of a type back if the same instance holds it. -/
def unbindType (key : TypeKey) (codec : Codec) (registry : Registry) : Registry :=
  if registry.binding key = some codec then
    { registry with types := Keyed.erase key registry.types }
  else registry

/-- Binds a type and then the codec's id.  If the id is refused, the binding of the type is taken
    back, unless it was there before. -/
def bindBoth (shown : Codec → String) (key : TypeKey) (codec : Codec) : Act Registry Unit := do
  let new ← bindType shown key codec
  (bindId shown codec).undoing fun registry =>
    if new then registry.unbindType key codec else registry

/-- The reserved families and the codecs they belong to. -/
def families : List (TypeKey × BuiltinCodec) :=
  [(.portable, .portable), (.identified, .identified)]

/-- Refuses a codec for a type that belongs to one of some families, unless it is of the
    implementation that the family's id is bound to. -/
def checkFamilies (registry : Registry) (key : TypeKey) (codec : Codec) :
    List (TypeKey × BuiltinCodec) → Except Failure Unit
  | [] => .ok ()
  | (family, builtin) :: others =>
    if registry.hierarchy.isA key family &&
        !(registry.lookupId builtin.typeId).any fun holder => holder.sameImplementation codec then
      .error (.reservedFamily key.name family.name)
    else checkFamilies registry key codec others

/-- Registers a codec for a type. -/
def register (shown : Codec → String) (key : TypeKey) (codec : Codec) : Act Registry Unit :=
  if codec.typeId < 0 then Act.fail (.negativeTypeId codec.typeId key.name)
  else do
    let registry ← get
    Act.lift (registry.checkFamilies key codec families)
    bindBoth shown key codec

/-- Takes the binding of a type back, and that of the codec's id if the same instance holds it. -/
def deregister (key : TypeKey) (registry : Registry) : Registry :=
  match registry.binding key with
  | none => registry
  | some codec =>
    { registry with
      types := Keyed.erase key registry.types
      ids := registry.ids.filter fun (id, held) => ¬ (id = codec.typeId ∧ held = codec) }

/-- Takes the fallback back if it is the same instance. -/
def vacate (codec : Codec) (registry : Registry) : Registry :=
  if registry.fallback = some codec then { registry with fallback := none } else registry

/-- Registers the codec for types that nothing else is found for.  If its id is refused, it is taken
    back. -/
def registerFallback (shown : Codec → String) (codec : Codec) : Act Registry Unit := do
  let registry ← get
  match registry.fallback with
  | some active => Act.fail (.fallbackBound (shown active))
  | none => do
    Act.change fun registry => { registry with fallback := some codec }
    (bindId shown codec).undoing (vacate codec)

/-- Takes the fallback back.  Its id and what it was found for stay bound. -/
def deregisterFallback (registry : Registry) : Registry := { registry with fallback := none }

/-- The codec of the first reserved family that a declared type belongs to and that has one. -/
def familyCodec (registry : Registry) (key : TypeKey) : Option Codec :=
  if registry.hierarchy.isDeclared key then
    let above := registry.hierarchy.ancestors key
    (families.filter fun (family, _) => family ∈ above).findSome? fun (family, _) =>
      registry.binding family
  else none

/-- The codec of the nearest bound ancestor. -/
def inheritedCodec (registry : Registry) (key : TypeKey) : Option Codec :=
  (registry.hierarchy.ancestors key).findSome? registry.binding

/-- The codec for a type.  One that is not the family's or the type's own is adopted. -/
def lookup (registry : Registry) (key : TypeKey) : Option Codec × Registry :=
  match registry.familyCodec key with
  | some codec => (some codec, registry)
  | none =>
    match registry.binding key with
    | some codec => (some codec, registry)
    | none =>
      let walked := { registry with walks := registry.walks + 1 }
      match (registry.inheritedCodec key).or registry.fallback with
      | some codec => (some codec, { walked with types := walked.types ++ [(key, codec)] })
      | none => (none, walked)

/-- Every instance that is bound anywhere, once. -/
def instances (registry : Registry) : List Codec :=
  (registry.types.map Prod.snd ++ registry.ids.map Prod.snd ++ registry.fallback.toList).eraseDups

/-- The registry without bindings, fallback and declarations. -/
def destroy (registry : Registry) : Registry := { empty with walks := registry.walks }

end Registry

end ObjectWire
