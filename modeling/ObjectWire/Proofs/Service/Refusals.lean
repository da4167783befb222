import ObjectWire.Proofs.Service.Coherence

/-!
# Calls that are refused

A call is refused for one of a few reasons, and a call that is refused changes nothing: neither a
binding of a type or a type id, nor the fallback, nor a declaration, nor the kinds of records.
Whatever is called next finds the service as if the call had not been made.
-/

namespace ObjectWire

namespace Service

variable {service after : Service} {failure : Failure}

/-- What a call is refused for. -/
inductive Call.Refused (service : Service) : Call → Failure → Prop
  | codec {key : TypeKey} {codec : Codec} {failure : Failure}
      (because : service.registry.Refuses service.codecShown key codec failure) :
      Refused service (.register key codec) failure
  | fallback {codec : Codec} {failure : Failure}
      (because : service.registry.RefusesFallback service.codecShown codec failure) :
      Refused service (.registerFallback codec) failure
  | record {key : TypeKey} {kind : RecordKind}
      (reserved : service.registry.hierarchy.isA key .portable = true ∨
        service.registry.hierarchy.isA key .identified = true) :
      Refused service (.registerRecord key kind) (.reservedForFamilies key.name)

/-- A step on the registry fails as the step does by itself, and then leaves what that leaves. -/
theorem onRegistry_error_iff (step : (Codec → String) → Act Registry Unit) :
    onRegistry step service = (.error failure, after) ↔
      ∃ registry, step service.codecShown service.registry = (.error failure, registry) ∧
        after = { service with registry := registry } := by
  rw [onRegistry, Act.on_apply]
  rcases step service.codecShown service.registry with ⟨outcome, reached⟩
  constructor
  · intro h
    cases h
    exact ⟨reached, rfl, rfl⟩
  · rintro ⟨registry, ran, rfl⟩
    cases ran
    rfl

theorem registerRecord_error {key : TypeKey} {kind : RecordKind}
    (h : registerRecord key kind service = (.error failure, after)) :
    after = service ∧ Call.Refused service (.registerRecord key kind) failure := by
  unfold registerRecord at h
  rw [Act.bind_of_ok (Act.get_apply service)] at h
  split at h
  case isTrue reserved =>
    cases h
    exact ⟨rfl, .record (by simpa using reserved)⟩
  case isFalse => cases h

theorem registerRecord_of_reserved {key : TypeKey} {kind : RecordKind}
    (reserved : service.registry.hierarchy.isA key .portable = true ∨
      service.registry.hierarchy.isA key .identified = true) :
    registerRecord key kind service = (.error (.reservedForFamilies key.name), service) := by
  unfold registerRecord
  rw [Act.bind_of_ok (Act.get_apply service), if_pos (by simpa using reserved)]
  rfl

/-- A refused call leaves the service as it was, and there was a reason to refuse it. -/
theorem Call.step_error {call : Call} (h : call.step service = (.error failure, after)) :
    after = service ∧ call.Refused service failure := by
  cases call with
  | register key codec =>
    obtain ⟨registry, refused, rfl⟩ :=
      (onRegistry_error_iff fun shown => Registry.register shown key codec).mp h
    obtain ⟨rfl, because⟩ := Registry.register_error refused
    exact ⟨rfl, .codec because⟩
  | registerFallback codec =>
    obtain ⟨registry, refused, rfl⟩ :=
      (onRegistry_error_iff fun shown => Registry.registerFallback shown codec).mp h
    obtain ⟨rfl, because⟩ := Registry.registerFallback_error refused
    exact ⟨rfl, .fallback because⟩
  | registerRecord key kind => exact registerRecord_error h
  | deregister key => cases h
  | deregisterFallback => cases h
  | declareType key parents => cases h
  | find key => cases h

/-- A call fails exactly if there is a reason to refuse it, and a call that fails leaves the whole
    service as it was. -/
theorem refused_call_changes_nothing (service : Service) (call : Call) :
    ((∃ failure after, call.step service = (.error failure, after)) ↔
      ∃ failure, call.Refused service failure) ∧
    ∀ failure after, call.step service = (.error failure, after) →
      after = service ∧ call.Refused service failure := by
  refine ⟨⟨?_, ?_⟩, fun failure after h => Call.step_error h⟩
  · rintro ⟨failure, after, h⟩
    exact ⟨failure, (Call.step_error h).2⟩
  · rintro ⟨_, @⟨key, codec, _, because⟩ | @⟨codec, _, because⟩ | reserved⟩
    · obtain ⟨failure, registry, h⟩ := Registry.register_refused_iff.mpr ⟨_, because⟩
      exact ⟨failure, _, (onRegistry_error_iff fun shown => Registry.register shown key codec).mpr
        ⟨registry, h, rfl⟩⟩
    · obtain ⟨failure, registry, h⟩ := Registry.registerFallback_refused_iff.mpr ⟨_, because⟩
      exact ⟨failure, _,
        (onRegistry_error_iff fun shown => Registry.registerFallback shown codec).mpr
          ⟨registry, h, rfl⟩⟩
    · exact ⟨_, _, registerRecord_of_reserved reserved⟩

/-- A codec whose type id another implementation holds is bound to a new type and unbound again,
    beside a type that adopted the fallback. -/
theorem refused_call_changes_nothing_id_taken :
    let service := run [.registerFallback (.custom ⟨"f", 0, 50, .typeName⟩), .find ⟨"a.A"⟩]
      (ofSettings .default)
    let call : Call := .register ⟨"a.B"⟩ (.custom ⟨"c", 1, 50, .nothing⟩)
    ∃ after, call.step service = (.error (.idBound 50 "Codec0(f, 50)"), after) ∧
      after = service := by
  intro service call
  have refused : (call.step service).1 = .error (.idBound 50 "Codec0(f, 50)") :=
    Act.failed_of_failure? (by decide +kernel)
  refine ⟨(call.step service).2, Prod.ext refused rfl, ?_⟩
  exact ((refused_call_changes_nothing service call).2 _ _ (Prod.ext refused rfl)).1

end Service

end ObjectWire
