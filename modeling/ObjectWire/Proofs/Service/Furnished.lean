import ObjectWire.Proofs.Registry.Growth
import ObjectWire.Proofs.Service.Uses

/-!
# Services that keep the built-in codecs

In a service where nothing was taken back and no type was put under a reserved family, the built-in
types still go by the built-in codecs, and their type ids lead back to these, whatever else was
registered, looked up, encoded or decoded.
-/

namespace ObjectWire

namespace Service

variable {service now : Service}

/-- The built-in types and their type ids go by the built-in codecs, no type is declared to belong
    to a reserved family, and values are handed out as they are. -/
structure Furnished (service : Service) : Prop where
  unmanaged : service.managed = none
  unreserved : service.registry.Unreserved
  bound : ∀ entry ∈ builtinBindings,
    service.registry.binding entry.1 = some (.builtin entry.2)
  answers : ∀ entry ∈ builtinBindings,
    service.codecForId entry.2.typeId = some (.builtin entry.2)

theorem furnished_ofSettings {settings : Settings} (unmanaged : settings.managed = none) :
    (ofSettings settings).Furnished where
  unmanaged := unmanaged
  unreserved := by
    rintro member - ⟨entry, none, -⟩
    cases none
  bound := binding_ofSettings settings
  answers := codecForId_ofSettings settings

/-- What only adds to the registry takes no built-in codec away. -/
theorem Furnished.of_grows (furnished : service.Furnished)
    (grows : service.registry.Grows now.registry) (managed : now.managed = service.managed) :
    now.Furnished where
  unmanaged := managed.trans furnished.unmanaged
  unreserved := by
    unfold Registry.Unreserved
    rw [grows.hierarchy]
    exact furnished.unreserved
  bound entry member := grows.binding _ _ (furnished.bound entry member)
  answers entry member := grows.lookupId _ _ (furnished.answers entry member)

theorem Furnished.of_registry_eq (furnished : service.Furnished)
    (registry : now.registry = service.registry) (managed : now.managed = service.managed) :
    now.Furnished := by
  apply furnished.of_grows _ managed
  rw [registry]
  exact .refl _

theorem serves_furnished : Serves (Act.Preserves Furnished) where
  codecFor key service furnished := furnished.of_grows (Registry.grows_lookup _ key) rfl
  close _ _ furnished := furnished.of_registry_eq rfl rfl
  binaryOf _ _ furnished := furnished.of_registry_eq rfl rfl
  borrow _ furnished := furnished.of_registry_eq rfl rfl
  giveBack _ _ furnished := furnished.of_registry_eq rfl rfl
  register _ _ furnished := furnished.of_registry_eq rfl rfl
  importCompressed _ _ furnished := furnished.of_registry_eq rfl rfl
  describe _ _ furnished := furnished.of_registry_eq rfl rfl
  define _ _ _ furnished := furnished.of_registry_eq rfl rfl
  report failure service furnished := by
    obtain ⟨heard, same⟩ := report_service failure service
    rw [same]
    exact furnished.of_registry_eq rfl rfl

/-- The call takes nothing back and puts no type under another one. -/
def Call.Additive : Call → Prop
  | .deregister _ | .declareType .. => False
  | _ => True

/-- The use is no such call either, nor the teardown. -/
def Use.Additive : Use → Prop
  | .call c => c.Additive
  | .destroy => False
  | _ => True

theorem Furnished.registerRecord (furnished : service.Furnished) (key : TypeKey)
    (kind : RecordKind) : (Service.registerRecord key kind service).2.Furnished := by
  unfold Service.registerRecord
  rw [Act.bind_of_ok (Act.get_apply service)]
  split
  case isTrue => exact furnished
  case isFalse =>
    refine ⟨furnished.unmanaged, fun member among mentioned => ?_, furnished.bound,
      furnished.answers⟩
    -- what is declared is the family of the documents, which is not a reserved one
    rcases Hierarchy.mentions_of_declare mentioned with before | new
    · exact furnished.unreserved member among before
    · have apart : ∀ member ∈ Registry.families, member.1 ≠ TypeKey.document := by decide
      exact apart member among (List.mem_singleton.mp new)

theorem Furnished.call (furnished : service.Furnished) {call : Call} (additive : call.Additive) :
    (call.perform service).Furnished := by
  cases call with
  | register key codec => exact furnished.of_grows (Registry.grows_register _ key codec _) rfl
  | deregister key => exact additive.elim
  | registerFallback codec =>
    exact furnished.of_grows (Registry.grows_registerFallback _ codec _) rfl
  | deregisterFallback => exact furnished.of_grows (Registry.grows_deregisterFallback _) rfl
  | declareType key parents => exact additive.elim
  | registerRecord key kind => exact furnished.registerRecord key kind
  | find key =>
    rw [Call.perform, Call.step, Act.map_apply]
    exact furnished.of_grows (Registry.grows_lookup _ key) rfl

/-- However a service is added to and used, it keeps the built-in codecs. -/
theorem Reachable.furnished (reachable : Reachable (·.managed = none) Use.Additive service) :
    service.Furnished := by
  refine @Reachable.invariant _ _ service Furnished (fun settings => furnished_ofSettings)
    (fun service use additive => ?_) (fun service other _ furnished => ?_) reachable
  · refine use.within serves_furnished service (fun call same furnished => ?_) fun torn => ?_
    · subst same
      exact furnished.call additive
    · subst torn
      exact additive.elim
  · exact furnished.of_registry_eq rfl rfl

end Service

end ObjectWire
