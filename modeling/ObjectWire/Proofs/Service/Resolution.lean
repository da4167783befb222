import ObjectWire.Proofs.Registry.Stability
import ObjectWire.Proofs.Service.Families

/-!
# Finding a codec once

Which codec a type goes by is decided when it is first asked for.  Asking leaves a trace at the type
itself only, and as long as no parents are declared and no type's codec is taken back, nothing that
happens to the service makes another codec of it.
-/

namespace ObjectWire

namespace Service

variable {service : Service}

/-- The use declares no parents, takes no codec of a type back, and is not the teardown. -/
def Use.Steady : Use → Prop
  | .call (.deregister _) | .call (.declareType ..) | .call (.registerRecord ..) => False
  | .destroy => False
  | _ => True

theorem Call.grows {call : Call} (steady : (Use.call call).Steady) (service : Service) :
    service.registry.Grows (call.perform service).registry := by
  cases call with
  | register key codec => exact Registry.grows_register _ key codec service.registry
  | deregister key => exact steady.elim
  | registerFallback codec => exact Registry.grows_registerFallback _ codec service.registry
  | deregisterFallback => exact Registry.grows_deregisterFallback service.registry
  | declareType key parents => exact steady.elim
  | registerRecord key kind => exact steady.elim
  | find key =>
    rw [perform, step, Act.map_apply]
    exact Registry.grows_lookup service.registry key

/-- A steady use adds bindings at most. -/
theorem Use.grows {use : Use} (steady : use.Steady) (service : Service) :
    service.registry.Grows (use.perform service).registry := by
  apply use.registry_within
  · exact Registry.grows_lookup
  · rintro call rfl
    exact call.grows steady service
  · rintro rfl
    exact steady.elim

/-- In a service that was used in any way but for taking a type's codec back or tearing it down, and
    for every type: asking for its codec changes nothing but the count of walks and, if the type had
    no binding, the binding of the type.  If a codec is found, the same instance is found after any
    uses that are steady, the registry then staying as it is to the count of walks.  If none is
    found, there is no fallback, and neither the type nor any type above it is bound. -/
theorem codec_found_for_good (reachable : Reachable (fun _ => True) Use.Lasting service)
    (key : TypeKey) :
    let answer := (service.registry.lookup key).1
    let registry := (service.registry.lookup key).2
    codecFor key service = (.ok answer, { service with registry := registry }) ∧
      (registry.ids = service.registry.ids ∧ registry.fallback = service.registry.fallback ∧
        registry.hierarchy = service.registry.hierarchy ∧
        (∀ other, other ≠ key → registry.binding other = service.registry.binding other) ∧
        ∀ known codec, service.registry.binding known = some codec →
          registry.binding known = some codec) ∧
      (∀ codec, answer = some codec → ∀ uses : List Use, (∀ use ∈ uses, use.Steady) →
        let later := uses.foldl Use.perform { service with registry := registry }
        later.registry.lookup key = (some codec, later.registry)) ∧
      (answer = none → service.registry.fallback = none ∧
        ∀ known ∈ key :: service.registry.hierarchy.ancestors key,
          service.registry.binding known = none) := by
  intro answer registry
  refine ⟨rfl, ⟨?_, ?_, ?_, fun other distinct => ?_, ?_⟩, fun codec found uses steady => ?_,
    Registry.unbound_of_lookup_none⟩
  · exact Registry.lookup_ids service.registry key
  · exact Registry.lookup_fallback service.registry key
  · exact Registry.lookup_hierarchy service.registry key
  · exact Registry.binding_lookup_of_ne (Ne.symm distinct)
  · exact (Registry.grows_lookup service.registry key).binding
  · apply reachable.seated.grounded.lookup_again found
    exact uses_within (fun use member => use.grows (steady use member))
      { service with registry := (service.registry.lookup key).2 }

/-- A type without a binding adopts the fallback.  It keeps it while the fallback is exchanged, while
    another codec is refused for it, and while its supertype gets a codec of its own. -/
theorem codec_found_for_good_of_fallback :
    let general : Codec := .custom ⟨"f", 0, 50, .typeName⟩
    let other : Codec := .custom ⟨"g", 1, 51, .typeName⟩
    let service := [Use.call (.registerFallback general),
      .call (.declareType ⟨"a.B"⟩ ⟨[⟨"a.A"⟩], []⟩)].foldl Use.perform (ofSettings .default)
    let uses := [Use.call .deregisterFallback, .call (.registerFallback other),
      .call (.register ⟨"a.A"⟩ other), .call (.register ⟨"a.B"⟩ other)]
    let asked := { service with registry := (service.registry.lookup ⟨"a.B"⟩).2 }
    let later := uses.foldl Use.perform asked
    (service.registry.lookup ⟨"a.B"⟩).1 = some general ∧
      later.registry.fallback = some other ∧ later.registry.binding ⟨"a.A"⟩ = some other ∧
      later.registry.lookup ⟨"a.B"⟩ = (some general, later.registry) := by
  intro general other service uses asked later
  have reachable : Reachable (fun _ => True) Use.Lasting service :=
    (Reachable.start trivial).uses (by simp [Use.Lasting, Call.Lasting])
  have steady : ∀ use ∈ uses, use.Steady := by simp [uses, Use.Steady]
  obtain ⟨-, -, kept, -⟩ := codec_found_for_good reachable ⟨"a.B"⟩
  exact ⟨by decide, by decide, by decide, kept general (by decide) uses steady⟩

end Service

end ObjectWire
