import ObjectWire.Proofs.Service.Families

/-!
# Built-in codecs that stay in place

A service in which no type's codec was taken back has the built-in types and the built-in type ids
still bound to the built-in codecs, whatever was declared above them.  No other codec is found for
any type under one of these ids.
-/

namespace ObjectWire

namespace Registry

variable {registry : Registry} {key : TypeKey} {codec : Codec}

/-- Who is found for a type under the id of a built-in codec is that codec, if the id leads to it. -/
theorem Anchored.builtin_of_lookup (anchored : registry.Anchored) {known : BuiltinCodec}
    (answers : registry.lookupId known.typeId = some (.builtin known))
    (found : (registry.lookup key).1 = some codec) (own : codec.typeId = known.typeId) :
    codec = .builtin known := by
  obtain ⟨holder, held, same⟩ := anchored.of_lookup found
  rw [own, answers, Option.some.injEq] at held
  subst held
  cases codec with
  | builtin other =>
    have equal : known = other := by simpa [Codec.sameImplementation] using same
    rw [equal]
  | custom codec => cases same

end Registry

namespace Service

variable {service after : Service}

/-- The built-in types and type ids are bound to the built-in codecs, and every codec that may be
    found answers to its id, or one of its implementation does. -/
structure Equipped (service : Service) : Prop where
  bound : ∀ entry ∈ builtinBindings,
    service.registry.binding entry.1 = some (.builtin entry.2)
  answers : ∀ entry ∈ builtinBindings,
    service.codecForId entry.2.typeId = some (.builtin entry.2)
  anchored : service.registry.Anchored

theorem equipped_ofSettings (settings : Settings) : (ofSettings settings).Equipped where
  bound := binding_ofSettings settings
  answers := codecForId_ofSettings settings
  anchored := anchored_ofSettings settings

/-- A use that takes no type's codec back keeps the registry anchored. -/
theorem Use.anchored {use : Use} (lasting : use.Lasting) (anchored : service.registry.Anchored) :
    (use.perform service).registry.Anchored := by
  have preserves : Act.Preserves Registry.Anchored service.registry
      (use.perform service).registry := by
    apply use.registry_within
    · exact fun registry key anchored => anchored.lookup key
    · rintro call rfl anchored
      apply (call.anchored_iff anchored).mpr
      cases call with
      | deregister key => exact lasting.elim
      | _ => trivial
    · rintro rfl
      exact lasting.elim
  exact preserves anchored

theorem Use.equipped {use : Use} (lasting : use.Lasting) (equipped : service.Equipped) :
    (use.perform service).Equipped := by
  have keeps := use.keeps lasting service
  exact ⟨fun entry listed => keeps.binding _ _ (equipped.bound entry listed),
    fun entry listed => keeps.lookupId _ _ (equipped.answers entry listed),
    use.anchored lasting equipped.anchored⟩

/-- However a service is used without taking a type's codec back or tearing it down, it keeps the
    built-in codecs in place. -/
theorem Reachable.equipped (reachable : Reachable (fun _ => True) Use.Lasting service) :
    service.Equipped := by
  refine @Reachable.invariant _ _ service Equipped (fun settings _ => equipped_ofSettings settings)
    (fun service use lasting => use.equipped lasting) (fun service other _ equipped => ?_) reachable
  exact ⟨equipped.bound, equipped.answers, equipped.anchored⟩

/-- A type that is bound to a built-in codec from the start goes by a built-in codec, if not by this
    one then by that of a reserved family above it. -/
theorem Equipped.lookup (equipped : service.Equipped) {key : TypeKey} {own : BuiltinCodec}
    (listed : (key, own) ∈ builtinBindings) :
    ∃ codec, (service.registry.lookup key).1 = some (.builtin codec) := by
  have families : ∀ member ∈ Registry.families, member ∈ builtinBindings := by decide
  have above : ∃ front : List (TypeKey × BuiltinCodec),
      (∀ member ∈ front, member ∈ builtinBindings) ∧
      service.registry.asked key =
        front.map Prod.fst ++ key :: service.registry.hierarchy.ancestors key :=
    ⟨_, fun member among => families member (List.mem_filter.mp among).1,
      Registry.asked_eq service.registry key⟩
  obtain ⟨front, known, order⟩ := above
  rw [Registry.lookup_answer, order]
  cases front with
  | nil =>
    rw [List.map_nil, List.nil_append, List.findSome?_cons, equipped.bound _ listed]
    exact ⟨own, rfl⟩
  | cons member others =>
    rw [List.map_cons, List.cons_append, List.findSome?_cons,
      equipped.bound member (known member (by simp))]
    exact ⟨member.2, rfl⟩

end Service

end ObjectWire
