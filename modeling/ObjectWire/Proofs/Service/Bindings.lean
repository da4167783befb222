import ObjectWire.Proofs.Registry.Anchored
import ObjectWire.Proofs.Registry.Growth
import ObjectWire.Proofs.Service.Uses

/-!
# Bindings that last

As long as no binding is taken back and the service is not torn down, types and type ids stay bound
to the very instances they were bound to first, whether somebody registered these or a lookup
adopted them.  An id only ever leads to a codec that reports it, and an active fallback makes way
for another one only after it was taken back.
-/

namespace ObjectWire

namespace Registry

variable {registry after later : Registry} {shown : Codec → String}

/-- What types and type ids are bound to, they stay bound to. -/
structure Keeps (registry after : Registry) : Prop where
  binding : ∀ key codec, registry.binding key = some codec → after.binding key = some codec
  lookupId : ∀ id codec, registry.lookupId id = some codec → after.lookupId id = some codec

instance : Std.Refl Keeps := ⟨fun _ => ⟨fun _ _ => id, fun _ _ => id⟩⟩

instance : Trans Keeps Keeps Keeps where
  trans first second :=
    ⟨fun key codec bound => second.binding key codec (first.binding key codec bound),
      fun id codec bound => second.lookupId id codec (first.lookupId id codec bound)⟩

theorem Grows.keeps (grows : registry.Grows after) : registry.Keeps after :=
  ⟨grows.binding, grows.lookupId⟩

/-- An active fallback stays. -/
def KeepsFallback (registry after : Registry) : Prop :=
  ∀ codec, registry.fallback = some codec → after.fallback = some codec

instance : Std.Refl KeepsFallback := ⟨fun _ _ => id⟩

instance : Trans KeepsFallback KeepsFallback KeepsFallback where
  trans first second := fun codec active => second codec (first codec active)

theorem KeepsFallback.of_eq (same : after.fallback = registry.fallback) :
    registry.KeepsFallback after := by
  intro codec active
  rwa [same]

/-- Every id is bound to a codec that reports it. -/
def Numbered (registry : Registry) : Prop := ∀ entry ∈ registry.ids, entry.2.typeId = entry.1

theorem Numbered.of_ids_eq (numbered : registry.Numbered) (same : after.ids = registry.ids) :
    after.Numbered := by
  unfold Numbered
  rwa [same]

theorem Numbered.of_lookupId (numbered : registry.Numbered) {id : Int32} {codec : Codec}
    (bound : registry.lookupId id = some codec) : codec.typeId = id :=
  numbered _ (Keyed.mem_of_lookup bound)

/-- Binding an id files the codec under the id it reports, and touches nothing else. -/
theorem bindId_effect {codec : Codec} (h : bindId shown codec registry = (.ok (), after)) :
    after.fallback = registry.fallback ∧ (registry.Numbered → after.Numbered) := by
  obtain ⟨rfl, -⟩ | ⟨-, rfl⟩ := bindId_ok h
  · exact ⟨rfl, id⟩
  · refine ⟨rfl, fun numbered entry member => ?_⟩
    rcases List.mem_append.mp member with old | new
    · exact numbered entry old
    · rw [List.mem_singleton.mp new]

/-- A registration for a type leaves the fallback alone and files the codec under its own id. -/
theorem register_effect (shown : Codec → String) (key : TypeKey) (codec : Codec)
    (registry : Registry) :
    (register shown key codec registry).2.fallback = registry.fallback ∧
      (registry.Numbered → (register shown key codec registry).2.Numbered) := by
  rcases ran : register shown key codec registry with ⟨failure | _, after⟩
  · obtain ⟨rfl, -⟩ := register_error ran
    exact ⟨rfl, id⟩
  · obtain ⟨-, -, new, typed, typeBound, idBound⟩ := register_ok ran
    have filed := bindId_effect idBound
    obtain ⟨-, rfl⟩ | ⟨-, -, rfl⟩ := bindType_ok typeBound
    · exact filed
    · exact ⟨filed.1, fun numbered => filed.2 (numbered.of_ids_eq rfl)⟩

/-- A registration of a fallback is refused while one is active. -/
theorem registerFallback_effect (shown : Codec → String) (codec : Codec) (registry : Registry) :
    registry.KeepsFallback (registerFallback shown codec registry).2 ∧
      (registry.Numbered → (registerFallback shown codec registry).2.Numbered) := by
  rcases ran : registerFallback shown codec registry with ⟨failure | _, after⟩
  · obtain ⟨rfl, -⟩ := registerFallback_error ran
    exact ⟨.of_eq rfl, id⟩
  · obtain ⟨vacant, idBound⟩ := registerFallback_ok ran
    refine ⟨fun active present => ?_, fun numbered => ?_⟩
    · rw [vacant] at present
      cases present
    · exact (bindId_effect idBound).2 (numbered.of_ids_eq rfl)

theorem lookup_fallback (registry : Registry) (key : TypeKey) :
    (registry.lookup key).2.fallback = registry.fallback := by
  obtain ⟨walks, same | ⟨codec, -, grown⟩⟩ := lookup_registry registry key
  · rw [same]
  · rw [grown]

theorem Numbered.deregister (numbered : registry.Numbered) (key : TypeKey) :
    (registry.deregister key).Numbered := by
  cases bound : registry.binding key with
  | none => rwa [deregister_of_unbound bound]
  | some codec =>
    intro entry member
    rw [deregister_ids bound] at member
    exact numbered entry (List.mem_filter.mp member).1

end Registry

namespace Service

variable {service : Service} {starts : Settings → Prop} {allowed : Use → Prop}

/-- The registries of two services are related. -/
def OnRegistries (related : Registry → Registry → Prop) (before after : Service) : Prop :=
  related before.registry after.registry

instance {related : Registry → Registry → Prop} [Std.Refl related] :
    Std.Refl (OnRegistries related) :=
  ⟨fun service => Std.Refl.refl service.registry⟩

instance {related : Registry → Registry → Prop} [Trans related related related] :
    Trans (OnRegistries related) (OnRegistries related) (OnRegistries related) where
  trans first second := Trans.trans (r := related) (s := related) first second

/-- Serving changes the registry by lookups only. -/
theorem serves_registry {related : Registry → Registry → Prop} [Std.Refl related]
    (looked : ∀ (registry : Registry) key, related registry (registry.lookup key).2) :
    Serves (OnRegistries related) where
  codecFor key service := looked service.registry key
  close _ service := Std.Refl.refl service.registry
  binaryOf _ service := Std.Refl.refl service.registry
  borrow service := Std.Refl.refl service.registry
  giveBack service _ := Std.Refl.refl service.registry
  register _ service := Std.Refl.refl service.registry
  importCompressed _ service := Std.Refl.refl service.registry
  describe _ service := Std.Refl.refl service.registry
  define _ _ service := Std.Refl.refl service.registry
  report failure service := by
    obtain ⟨heard, same⟩ := report_service failure service
    rw [same]
    exact Std.Refl.refl service.registry

/-- A use changes the registry only as its call says, or by lookups, or by clearing it. -/
theorem Use.registry_within {related : Registry → Registry → Prop} [Std.Refl related]
    [Trans related related related]
    (looked : ∀ (registry : Registry) key, related registry (registry.lookup key).2)
    (service : Service) (use : Use)
    (called : ∀ call, use = .call call → related service.registry (call.perform service).registry)
    (destroyed : use = .destroy → related service.registry service.registry.destroy) :
    related service.registry (use.perform service).registry := by
  exact use.within (serves_registry looked) service called destroyed

/-- What holds along every use of a run holds along the run. -/
theorem uses_within {related : Registry → Registry → Prop} [Std.Refl related]
    [Trans related related related] {uses : List Use}
    (each : ∀ use ∈ uses, ∀ service : Service,
      related service.registry (use.perform service).registry) (service : Service) :
    related service.registry (uses.foldl Use.perform service).registry := by
  apply List.foldlRecOn (motive := fun after : Service => related service.registry after.registry)
  · exact Std.Refl.refl service.registry
  · intro before reached use member
    exact Trans.trans reached (each use member before)

theorem registerRecord_registry (key : TypeKey) (kind : RecordKind) (service : Service) :
    ∃ hierarchy, (Service.registerRecord key kind service).2.registry =
      { service.registry with hierarchy := hierarchy } := by
  unfold Service.registerRecord
  rw [Act.bind_of_ok (Act.get_apply service)]
  split
  case isTrue => exact ⟨service.registry.hierarchy, rfl⟩
  case isFalse => exact ⟨_, rfl⟩

/-- The call takes no codec of a type back. -/
def Call.Lasting : Call → Prop
  | .deregister _ => False
  | _ => True

/-- The use is no such call either, nor the teardown. -/
def Use.Lasting : Use → Prop
  | .call c => c.Lasting
  | .destroy => False
  | _ => True

theorem Call.keeps {call : Call} (lasting : call.Lasting) (service : Service) :
    service.registry.Keeps (call.perform service).registry := by
  cases call with
  | register key codec => exact (Registry.grows_register _ key codec service.registry).keeps
  | deregister key => exact lasting.elim
  | registerFallback codec =>
    exact (Registry.grows_registerFallback _ codec service.registry).keeps
  | deregisterFallback => exact (Registry.grows_deregisterFallback service.registry).keeps
  | declareType key parents => exact ⟨fun _ _ => id, fun _ _ => id⟩
  | registerRecord key kind =>
    obtain ⟨hierarchy, declared⟩ := registerRecord_registry key kind service
    rw [perform, step, declared]
    exact ⟨fun _ _ => id, fun _ _ => id⟩
  | find key =>
    rw [perform, step, Act.map_apply]
    exact (Registry.grows_lookup service.registry key).keeps

theorem Call.keepsFallback {call : Call} (spares : call ≠ .deregisterFallback)
    (service : Service) : service.registry.KeepsFallback (call.perform service).registry := by
  cases call with
  | register key codec => exact .of_eq (Registry.register_effect _ key codec service.registry).1
  | deregister key => exact .of_eq Registry.deregister_fallback
  | registerFallback codec => exact (Registry.registerFallback_effect _ codec service.registry).1
  | deregisterFallback => exact absurd rfl spares
  | declareType key parents => exact .of_eq rfl
  | registerRecord key kind =>
    obtain ⟨hierarchy, declared⟩ := registerRecord_registry key kind service
    rw [perform, step, declared]
    exact .of_eq rfl
  | find key =>
    rw [perform, step, Act.map_apply]
    exact .of_eq (Registry.lookup_fallback service.registry key)

theorem Call.numbered (call : Call) (numbered : service.registry.Numbered) :
    (call.perform service).registry.Numbered := by
  cases call with
  | register key codec =>
    exact (Registry.register_effect _ key codec service.registry).2 numbered
  | deregister key => exact numbered.deregister key
  | registerFallback codec =>
    exact (Registry.registerFallback_effect _ codec service.registry).2 numbered
  | deregisterFallback => exact numbered.of_ids_eq rfl
  | declareType key parents => exact numbered.of_ids_eq rfl
  | registerRecord key kind =>
    obtain ⟨hierarchy, declared⟩ := registerRecord_registry key kind service
    rw [perform, step, declared]
    exact numbered.of_ids_eq rfl
  | find key =>
    rw [perform, step, Act.map_apply]
    exact numbered.of_ids_eq (Registry.lookup_ids service.registry key)

theorem Use.keeps {use : Use} (lasting : use.Lasting) (service : Service) :
    service.registry.Keeps (use.perform service).registry := by
  apply use.registry_within
  · intro registry key
    exact (Registry.grows_lookup registry key).keeps
  · rintro call rfl
    exact call.keeps lasting service
  · rintro rfl
    exact lasting.elim

theorem Use.keepsFallback {use : Use} (lasting : use.Lasting)
    (spares : use ≠ .call .deregisterFallback) (service : Service) :
    service.registry.KeepsFallback (use.perform service).registry := by
  apply use.registry_within
  · intro registry key
    exact .of_eq (Registry.lookup_fallback registry key)
  · rintro call rfl
    exact call.keepsFallback (fun same => spares (congrArg Use.call same)) service
  · rintro rfl
    exact lasting.elim

theorem Use.numbered (use : Use) (numbered : service.registry.Numbered) :
    (use.perform service).registry.Numbered := by
  have preserves : Act.Preserves Registry.Numbered service.registry
      (use.perform service).registry := by
    apply use.registry_within
    · intro registry key numbered
      exact numbered.of_ids_eq (Registry.lookup_ids registry key)
    · rintro call rfl numbered
      exact call.numbered numbered
    · rintro - - entry none
      cases none
  exact preserves numbered

/-- However services are used, every id leads to a codec that reports it. -/
theorem Reachable.numbered (reachable : Reachable starts allowed service) :
    service.registry.Numbered := by
  induction reachable with
  | start _ =>
    show ∀ entry ∈ (ofSettings .default).registry.ids, entry.2.typeId = entry.1
    decide
  | use _ use _ ih => exact use.numbered ih
  | share _ _ ih _ => exact ih

/-- From any state of a service on, and however it is used without taking a type's codec back or
    tearing it down: types and type ids stay bound to the instances they are bound to, every id is
    bound to a codec that reports it, and an active fallback stays until it is taken back. -/
theorem bindings_last (reachable : Reachable (fun _ => True) (fun _ => True) service)
    {uses : List Use} (lasting : ∀ use ∈ uses, use.Lasting) :
    let after := uses.foldl Use.perform service
    (∀ key codec, service.registry.binding key = some codec →
        after.registry.binding key = some codec) ∧
      (∀ id codec, service.codecForId id = some codec → after.codecForId id = some codec) ∧
      (∀ id codec, after.codecForId id = some codec → codec.typeId = id) ∧
      (.call .deregisterFallback ∉ uses → ∀ codec, service.registry.fallback = some codec →
        after.registry.fallback = some codec) := by
  intro after
  have keeps : service.registry.Keeps after.registry := by
    apply uses_within
    intro use member
    exact use.keeps (lasting use member)
  have continued : Reachable (fun _ => True) (fun _ => True) after :=
    reachable.uses fun _ _ => trivial
  refine ⟨keeps.binding, keeps.lookupId, fun id codec => continued.numbered.of_lookupId, ?_⟩
  intro spared
  have stays : service.registry.KeepsFallback after.registry := by
    apply uses_within
    intro use member
    apply use.keepsFallback (lasting use member)
    rintro rfl
    exact spared member
  exact stays

/-- A type that adopted the fallback stays bound to it although the fallback is taken back, and
    neither the type nor its id can be registered for another implementation. -/
theorem bindings_last_of_adopted :
    let codec : Codec := .custom ⟨"f", 0, 50, .typeName⟩
    let service := [Use.call (.registerFallback codec), .call (.find ⟨"a.A"⟩)].foldl Use.perform
      (ofSettings .default)
    let uses := [Use.call (.register ⟨"a.A"⟩ (.custom ⟨"g", 1, 51, .typeName⟩)),
      .call .deregisterFallback, .call (.register ⟨"a.B"⟩ (.custom ⟨"h", 1, 50, .typeName⟩)),
      .encode (.object (.carrying ⟨"a.A"⟩ none none))]
    let after := uses.foldl Use.perform service
    (∀ use ∈ uses, use.Lasting) ∧ after.registry.binding ⟨"a.A"⟩ = some codec ∧
      after.codecForId 50 = some codec := by
  intro codec service uses after
  have reachable : Reachable (fun _ => True) (fun _ => True) service :=
    (Reachable.start trivial).uses fun _ _ => trivial
  have lasting : ∀ use ∈ uses, use.Lasting := by simp [uses, Use.Lasting, Call.Lasting]
  obtain ⟨bound, answers, -, -⟩ := bindings_last reachable lasting
  exact ⟨lasting, bound _ _ (by decide), answers _ _ (by decide)⟩

end Service

end ObjectWire
