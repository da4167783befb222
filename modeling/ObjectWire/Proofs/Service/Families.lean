import ObjectWire.Proofs.Registry.Families
import ObjectWire.Proofs.Service.Bindings

/-!
# Reserved families in services in use

A service in which no type's codec was taken back keeps the two reserved families on their codecs,
however types are declared and whatever was registered or adopted before.
-/

namespace ObjectWire

namespace Registry

theorem Seated.of_keeps {registry after : Registry} (seated : registry.Seated)
    (keeps : registry.Keeps after) : after.Seated where
  bound member among := keeps.binding _ _ (seated.bound member among)
  answers member among := keeps.lookupId _ _ (seated.answers member among)

end Registry

namespace Service

variable {service : Service}

theorem seated_ofSettings (settings : Settings) : (ofSettings settings).registry.Seated where
  bound := by
    show ∀ member ∈ Registry.families,
      (ofSettings .default).registry.binding member.1 = some (.builtin member.2)
    decide
  answers := by
    show ∀ member ∈ Registry.families,
      (ofSettings .default).registry.lookupId member.2.typeId = some (.builtin member.2)
    decide

/-- However a service is used without taking a type's codec back or tearing it down, the reserved
    families stay bound to their codecs. -/
theorem Reachable.seated (reachable : Reachable (fun _ => True) Use.Lasting service) :
    service.registry.Seated := by
  refine @Reachable.invariant _ _ service (fun service => service.registry.Seated)
    (fun settings _ => seated_ofSettings settings) (fun service use lasting seated => ?_)
    (fun service other _ seated => seated) reachable
  exact seated.of_keeps (use.keeps lasting service)

/-- In a service that was used in any way but for taking a type's codec back or tearing it down,
    and for every type: if it is of the portable family, a lookup answers with the portable codec,
    unless the type is the family itself and stands below the family of identified objects (then
    with the codec of that one); if it is of the family of identified objects alone, with the codec
    of these.  In both cases the type refuses every codec and nothing changes. -/
theorem reserved_families_win (reachable : Reachable (fun _ => True) Use.Lasting service)
    (key : TypeKey) :
    let hierarchy := service.registry.hierarchy
    (hierarchy.isA key .portable = true →
      (service.registry.lookup key).1 =
          (if key = .portable ∧ .identified ∈ hierarchy.ancestors key
            then some (.builtin .identified) else some (.builtin .portable)) ∧
        ∀ codec, register key codec service =
          (.error (Registry.familyRefusal key .portable codec), service)) ∧
    (hierarchy.isA key .portable = false → hierarchy.isA key .identified = true →
      (service.registry.lookup key).1 = some (.builtin .identified) ∧
        ∀ codec, register key codec service =
          (.error (Registry.familyRefusal key .identified codec), service)) := by
  intro hierarchy
  have seated := reachable.seated
  have refused : ∀ {family : TypeKey} (codec : Codec),
      (hierarchy.isA key .portable = true ∧ family = .portable ∨
        hierarchy.isA key .portable = false ∧
          hierarchy.isA key .identified = true ∧ family = .identified) →
      register key codec service =
        (.error (Registry.familyRefusal key family codec), service) := by
    intro family codec first
    rw [register, onRegistry, Act.on_apply, seated.register_refused service.codecShown first codec]
  refine ⟨fun member => ⟨seated.lookup_portable member, fun codec => ?_⟩, fun foreign member =>
    ⟨seated.lookup_identified foreign member, fun codec => ?_⟩⟩
  · exact refused codec (.inl ⟨member, rfl⟩)
  · exact refused codec (.inr ⟨foreign, member, rfl⟩)

/-- A type that adopted the fallback comes below both families in a circle of declarations, beside
    a bound type that comes below the family of identified objects. -/
theorem reserved_families_win_in_circle :
    let general : Codec := .custom ⟨"f", 0, 50, .typeName⟩
    let special : Codec := .custom ⟨"c", 1, 51, .typeName⟩
    let uses := [Use.call (.registerFallback general), .call (.find ⟨"a.A"⟩),
      .call (.register ⟨"a.B"⟩ special), .call (.declareType ⟨"a.A"⟩ ⟨[⟨"a.B"⟩], [.portable]⟩),
      .call (.declareType ⟨"a.B"⟩ ⟨[], [.identified]⟩),
      .call (.declareType .identified ⟨[⟨"a.B"⟩], []⟩)]
    let service := uses.foldl Use.perform (ofSettings .default)
    service.registry.binding ⟨"a.A"⟩ = some general ∧
      service.registry.hierarchy.isA ⟨"a.A"⟩ .portable = true ∧
      (service.registry.lookup ⟨"a.A"⟩).1 = some (.builtin .portable) ∧
      service.registry.binding ⟨"a.B"⟩ = some special ∧
      service.registry.hierarchy.isA ⟨"a.B"⟩ .portable = false ∧
      service.registry.hierarchy.isA ⟨"a.B"⟩ .identified = true ∧
      (service.registry.lookup ⟨"a.B"⟩).1 = some (.builtin .identified) ∧
      ∀ codec, ∃ failure, register ⟨"a.B"⟩ codec service = (.error failure, service) := by
  intro general special uses service
  have lasting : ∀ use ∈ uses, use.Lasting := by simp [uses, Use.Lasting, Call.Lasting]
  have reachable : Reachable (fun _ => True) Use.Lasting service :=
    (Reachable.start trivial).uses lasting
  have portable : service.registry.hierarchy.isA ⟨"a.A"⟩ .portable = true := by decide
  have foreign : service.registry.hierarchy.isA ⟨"a.B"⟩ .portable = false := by decide
  have identified : service.registry.hierarchy.isA ⟨"a.B"⟩ .identified = true := by decide
  obtain ⟨found, -⟩ := (reserved_families_win reachable ⟨"a.A"⟩).1 portable
  obtain ⟨other, refused⟩ := (reserved_families_win reachable ⟨"a.B"⟩).2 foreign identified
  refine ⟨by decide, portable, ?_, by decide, foreign, identified, other,
    fun codec => ⟨_, refused codec⟩⟩
  exact found.trans (if_neg fun both => absurd both.1 (by decide))

/-- The portable family is of its own family, but declared below the family of identified objects
    it goes by the codec of these. -/
theorem portable_below_identified :
    let service := run [.declareType .portable ⟨[.identified], []⟩] (ofSettings .default)
    service.registry.hierarchy.isA .portable .portable = true ∧
      (service.registry.lookup .portable).1 = some (.builtin .identified) ∧
      (service.registry.lookup .portable).1 ≠ some (.builtin .portable) := by
  refine ⟨by decide, by decide, by decide⟩

end Service

end ObjectWire
