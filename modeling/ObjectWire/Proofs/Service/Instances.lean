import ObjectWire.Proofs.Registry.Instances
import ObjectWire.Proofs.Service.Bindings

/-!
# How instances come into use

However a service is used, the only instances that come into use are those of registrations that it
accepts, and no type and no type id is ever filed twice.
-/

namespace ObjectWire

namespace Registry

/-- Whatever instance comes into use is a fresh one. -/
def Brings (fresh : Codec → Prop) (registry after : Registry) : Prop :=
  ∀ codec ∈ after.instances, codec ∈ registry.instances ∨ fresh codec

variable {fresh : Codec → Prop}

instance : Std.Refl (Brings fresh) := ⟨fun _ _ => .inl⟩

instance : Trans (Brings fresh) (Brings fresh) (Brings fresh) where
  trans first second := fun codec member => by
    rcases second codec member with between | new
    · exact first codec between
    · exact .inr new

theorem brings_of_subset {registry after : Registry}
    (subset : ∀ codec ∈ after.instances, codec ∈ registry.instances) :
    registry.Brings fresh after :=
  fun codec member => .inl (subset codec member)

end Registry

namespace Service

variable {service : Service} {starts : Settings → Prop} {allowed : Use → Prop}

/-- The call is a registration of the codec, and the service accepts it. -/
def Call.Introduces (service : Service) (codec : Codec) : Call → Prop
  | .register key registered =>
    (Service.register key registered service).1 = .ok () ∧ codec = registered
  | .registerFallback registered =>
    (Service.registerFallback registered service).1 = .ok () ∧ codec = registered
  | _ => False

/-- The use is such a call. -/
def Use.Introduces (service : Service) (codec : Codec) : Use → Prop
  | .call c => c.Introduces service codec
  | _ => False

theorem Call.brings (call : Call) (service : Service) :
    service.registry.Brings (call.Introduces service ·) (call.perform service).registry := by
  cases call with
  | register key codec => exact fun other => Registry.register_instances
  | deregister key =>
    exact Registry.brings_of_subset fun other => Registry.deregister_instances
  | registerFallback codec => exact fun other => Registry.registerFallback_instances
  | deregisterFallback =>
    exact Registry.brings_of_subset fun other => Registry.deregisterFallback_instances
  | declareType key parents => exact Registry.brings_of_subset fun other => id
  | registerRecord key kind =>
    obtain ⟨hierarchy, declared⟩ := registerRecord_registry key kind service
    rw [perform, step, declared]
    exact Registry.brings_of_subset fun other => id
  | find key =>
    rw [perform, step, Act.map_apply]
    exact Registry.brings_of_subset fun other => Registry.lookup_instances

/-- A use brings in the instance of an accepted registration at most. -/
theorem Use.brings (use : Use) (service : Service) :
    service.registry.Brings (use.Introduces service ·) (use.perform service).registry := by
  apply use.registry_within
  · intro registry key
    exact Registry.brings_of_subset fun other => Registry.lookup_instances
  · rintro call rfl
    exact call.brings service
  · rintro rfl
    exact Registry.brings_of_subset fun other none => by cases none

theorem Call.filed (call : Call) (filed : service.registry.Filed) :
    (call.perform service).registry.Filed := by
  cases call with
  | register key codec => exact filed.register _ key codec
  | deregister key => exact filed.deregister key
  | registerFallback codec => exact filed.registerFallback _ codec
  | deregisterFallback => exact filed.of_eq rfl rfl
  | declareType key parents => exact filed.of_eq rfl rfl
  | registerRecord key kind =>
    obtain ⟨hierarchy, declared⟩ := registerRecord_registry key kind service
    rw [perform, step, declared]
    exact filed.of_eq rfl rfl
  | find key =>
    rw [perform, step, Act.map_apply]
    exact filed.lookup key

theorem Use.filed (use : Use) (filed : service.registry.Filed) :
    (use.perform service).registry.Filed := by
  have preserves : Act.Preserves Registry.Filed service.registry
      (use.perform service).registry := by
    apply use.registry_within
    · exact fun registry key filed => filed.lookup key
    · rintro call rfl filed
      exact call.filed filed
    · exact fun _ _ => .destroy service.registry
  exact preserves filed

/-- However services are used, no type and no type id is filed twice. -/
theorem Reachable.filed (reachable : Reachable starts allowed service) :
    service.registry.Filed := by
  induction reachable with
  | start _ =>
    have types : ((ofSettings .default).registry.types.map Prod.fst).Nodup := by decide
    have ids : ((ofSettings .default).registry.ids.map Prod.fst).Nodup := by decide
    exact ⟨types, ids⟩
  | use _ use _ ih => exact use.filed ih
  | share _ _ ih _ => exact ih

end Service

end ObjectWire
