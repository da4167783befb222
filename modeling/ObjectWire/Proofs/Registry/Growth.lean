import ObjectWire.Proofs.Hierarchy
import ObjectWire.Proofs.Registry.Lookups

/-!
# Registries that only grow

As long as nothing is taken back, whatever a type or a type id is bound to stays bound.  If moreover
no type has a reserved family above it, a bound type is always found under its own binding, however
many types were registered or looked up besides.
-/

namespace ObjectWire.Registry

variable {registry after later : Registry} {shown : Codec → String} {key : TypeKey} {codec : Codec}

/-- Bindings are kept, and the declared types are the same. -/
structure Grows (registry after : Registry) : Prop where
  binding : ∀ key codec, registry.binding key = some codec → after.binding key = some codec
  lookupId : ∀ id codec, registry.lookupId id = some codec → after.lookupId id = some codec
  hierarchy : after.hierarchy = registry.hierarchy

theorem Grows.refl (registry : Registry) : registry.Grows registry :=
  ⟨fun _ _ => id, fun _ _ => id, rfl⟩

theorem Grows.trans (first : registry.Grows after) (second : after.Grows later) :
    registry.Grows later where
  binding key codec bound := second.binding key codec (first.binding key codec bound)
  lookupId id codec bound := second.lookupId id codec (first.lookupId id codec bound)
  hierarchy := second.hierarchy.trans first.hierarchy

/-- Bindings that stand behind all others take nothing away. -/
theorem grows_of_append {types : List (TypeKey × Codec)} {ids : List (Int32 × Codec)}
    (typed : after.types = registry.types ++ types) (numbered : after.ids = registry.ids ++ ids)
    (hierarchy : after.hierarchy = registry.hierarchy) : registry.Grows after := by
  refine ⟨fun key codec bound => ?_, fun id codec bound => ?_, hierarchy⟩
  · rw [binding, typed]
    exact Keyed.lookup_append_of_some bound
  · rw [lookupId, numbered]
    exact Keyed.lookup_append_of_some bound

theorem grows_bindId (h : bindId shown codec registry = (.ok (), after)) :
    registry.Grows after := by
  obtain ⟨rfl, -⟩ | ⟨-, rfl⟩ := bindId_ok h
  · exact .refl _
  · exact grows_of_append (List.append_nil _).symm rfl rfl

theorem grows_bindType {new : Bool} (h : bindType shown key codec registry = (.ok new, after)) :
    registry.Grows after := by
  obtain ⟨-, rfl⟩ | ⟨-, -, rfl⟩ := bindType_ok h
  · exact .refl _
  · exact grows_of_append rfl (List.append_nil _).symm rfl

/-- A registration grows the registry or leaves it as it is. -/
theorem grows_register (shown : Codec → String) (key : TypeKey) (codec : Codec)
    (registry : Registry) : registry.Grows (register shown key codec registry).2 := by
  rcases ran : register shown key codec registry with ⟨failure | _, after⟩
  · obtain ⟨rfl, -⟩ := register_error ran
    exact .refl _
  · obtain ⟨-, -, new, typed, typeBound, idBound⟩ := register_ok ran
    exact (grows_bindType typeBound).trans (grows_bindId idBound)

theorem grows_registerFallback (shown : Codec → String) (codec : Codec) (registry : Registry) :
    registry.Grows (registerFallback shown codec registry).2 := by
  rcases ran : registerFallback shown codec registry with ⟨failure | _, after⟩
  · obtain ⟨rfl, -⟩ := registerFallback_error ran
    exact .refl _
  · obtain ⟨-, idBound⟩ := registerFallback_ok ran
    have filled : registry.Grows { registry with fallback := some codec } :=
      ⟨fun _ _ => id, fun _ _ => id, rfl⟩
    exact filled.trans (grows_bindId idBound)

theorem grows_deregisterFallback (registry : Registry) :
    registry.Grows registry.deregisterFallback :=
  ⟨fun _ _ => id, fun _ _ => id, rfl⟩

theorem grows_lookup (registry : Registry) (key : TypeKey) :
    registry.Grows (registry.lookup key).2 := by
  obtain ⟨walks, same | ⟨codec, -, grown⟩⟩ := lookup_registry registry key
  · rw [same]
    exact ⟨fun _ _ => id, fun _ _ => id, rfl⟩
  · rw [grown]
    exact grows_of_append rfl (List.append_nil _).symm rfl

/-- No type is declared to belong to a reserved family. -/
def Unreserved (registry : Registry) : Prop :=
  ∀ member ∈ families, ¬ registry.hierarchy.Mentions member.1

theorem familyCodec_of_unreserved (unreserved : registry.Unreserved) (key : TypeKey) :
    registry.familyCodec key = none := by
  rw [familyCodec_eq, List.findSome?_eq_none_iff]
  intro family among
  exfalso
  split at among
  case isTrue =>
    obtain ⟨member, filtered, rfl⟩ := List.mem_map.mp among
    obtain ⟨listed, above⟩ := List.mem_filter.mp filtered
    have ancestor : member.1 ∈ registry.hierarchy.ancestors key := by simpa using above
    exact unreserved member listed (Hierarchy.mentions_of_mem_ancestors ancestor)
  case isFalse => cases among

/-- Without reserved families a bound type goes by its binding, and looking it up leaves no
    trace. -/
theorem lookup_of_bound (unreserved : registry.Unreserved)
    (bound : registry.binding key = some codec) : registry.lookup key = (some codec, registry) := by
  simp only [lookup, familyCodec_of_unreserved unreserved, bound]

end ObjectWire.Registry
