import ObjectWire.Registry
import ObjectWire.Proofs.Act
import ObjectWire.Proofs.Keyed

/-!
# Registrations, step by step

What a registration does to a registry, and what it is refused for.  A refused registration has
taken back whatever it did, so the registry is the one it found, down to the order of its bindings.
-/

namespace ObjectWire

namespace Registry

variable {registry after : Registry} {shown : Codec → String} {key : TypeKey} {codec : Codec}
  {failure : Failure}

/-- Another implementation holds the codec's id. -/
def IdTaken (registry : Registry) (shown : Codec → String) (codec : Codec) (failure : Failure) :
    Prop :=
  ∃ holder, registry.lookupId codec.typeId = some holder ∧
    holder.sameImplementation codec = false ∧ failure = .idBound codec.typeId (shown holder)

/-- Another implementation holds the type. -/
def TypeTaken (registry : Registry) (shown : Codec → String) (key : TypeKey) (codec : Codec)
    (failure : Failure) : Prop :=
  ∃ holder, registry.binding key = some holder ∧ holder.sameImplementation codec = false ∧
    failure = .typeBound key.name (shown holder)

/-- The type belongs to a family whose id is not bound to the codec's implementation. -/
def FamilyReserved (registry : Registry) (key : TypeKey) (codec : Codec)
    (members : List (TypeKey × BuiltinCodec)) (failure : Failure) : Prop :=
  ∃ family builtin, (family, builtin) ∈ members ∧ registry.hierarchy.isA key family = true ∧
    (∀ holder, registry.lookupId builtin.typeId = some holder →
      holder.sameImplementation codec = false) ∧
    failure = .reservedFamily key.name family.name

/-- What a registration of a codec for a type is refused for. -/
inductive Refuses (registry : Registry) (shown : Codec → String) (key : TypeKey) (codec : Codec)
    (failure : Failure) : Prop
  | negativeId (negative : codec.typeId < 0)
      (because : failure = .negativeTypeId codec.typeId key.name)
  | reserved (family : registry.FamilyReserved key codec families failure)
  | typeTaken (taken : registry.TypeTaken shown key codec failure)
  | idTaken (taken : registry.IdTaken shown codec failure)

/-- What a registration of a fallback is refused for. -/
inductive RefusesFallback (registry : Registry) (shown : Codec → String) (codec : Codec)
    (failure : Failure) : Prop
  | active (fallback : Codec) (present : registry.fallback = some fallback)
      (because : failure = .fallbackBound (shown fallback))
  | idTaken (taken : registry.IdTaken shown codec failure)

theorem bindId_ok (h : bindId shown codec registry = (.ok (), after)) :
    (after = registry ∧ ∃ holder, registry.lookupId codec.typeId = some holder ∧
        holder.sameImplementation codec = true) ∨
      registry.lookupId codec.typeId = none ∧
        after = { registry with ids := registry.ids ++ [(codec.typeId, codec)] } := by
  unfold bindId at h
  cases found : registry.lookupId codec.typeId with
  | none =>
    simp only [found, Prod.mk.injEq, true_and] at h
    exact .inr ⟨rfl, h.symm⟩
  | some holder =>
    by_cases same : holder.sameImplementation codec = true
    · simp only [found, same, if_true, Prod.mk.injEq, true_and] at h
      exact .inl ⟨h.symm, holder, rfl, same⟩
    · simp [found, same] at h

theorem bindId_error (h : bindId shown codec registry = (.error failure, after)) :
    after = registry ∧ registry.IdTaken shown codec failure := by
  unfold bindId at h
  cases found : registry.lookupId codec.typeId with
  | none => simp [found] at h
  | some holder =>
    by_cases same : holder.sameImplementation codec = true
    · simp [found, same] at h
    · simp only [found, if_neg same, Prod.mk.injEq, Except.error.injEq] at h
      exact ⟨h.2.symm, holder, found, by simpa using same, h.1.symm⟩

theorem bindId_of_taken (taken : registry.IdTaken shown codec failure) :
    bindId shown codec registry = (.error failure, registry) := by
  obtain ⟨holder, found, foreign, rfl⟩ := taken
  simp [bindId, found, foreign]

theorem bindType_ok {new : Bool} (h : bindType shown key codec registry = (.ok new, after)) :
    new = false ∧ after = registry ∨
      new = true ∧ registry.binding key = none ∧
        after = { registry with types := registry.types ++ [(key, codec)] } := by
  unfold bindType at h
  cases found : registry.binding key with
  | none =>
    simp only [found, Prod.mk.injEq, Except.ok.injEq] at h
    exact .inr ⟨h.1.symm, rfl, h.2.symm⟩
  | some holder =>
    by_cases same : holder.sameImplementation codec = true
    · simp only [found, same, if_true, Prod.mk.injEq, Except.ok.injEq] at h
      exact .inl ⟨h.1.symm, h.2.symm⟩
    · simp [found, same] at h

theorem bindType_error (h : bindType shown key codec registry = (.error failure, after)) :
    after = registry ∧ registry.TypeTaken shown key codec failure := by
  unfold bindType at h
  cases found : registry.binding key with
  | none => simp [found] at h
  | some holder =>
    by_cases same : holder.sameImplementation codec = true
    · simp [found, same] at h
    · simp only [found, if_neg same, Prod.mk.injEq, Except.error.injEq] at h
      exact ⟨h.2.symm, holder, found, by simpa using same, h.1.symm⟩

theorem bindType_of_taken (taken : registry.TypeTaken shown key codec failure) :
    bindType shown key codec registry = (.error failure, registry) := by
  obtain ⟨holder, found, foreign, rfl⟩ := taken
  simp [bindType, found, foreign]

/-- Taking back a binding that the type did not have before leaves no trace of it. -/
theorem unbindType_of_new (new : registry.binding key = none) :
    unbindType key codec { registry with types := registry.types ++ [(key, codec)] } =
      registry := by
  have bound : binding { registry with types := registry.types ++ [(key, codec)] } key =
      some codec := Keyed.lookup_append_of_none new
  rw [unbindType, if_pos bound, Keyed.erase_append_of_lookup_none new]

theorem bindBoth_ok (h : bindBoth shown key codec registry = (.ok (), after)) :
    ∃ new typed, bindType shown key codec registry = (.ok new, typed) ∧
      bindId shown codec typed = (.ok (), after) := by
  obtain ⟨new, typed, typeBound, h⟩ := Act.bind_ok h
  exact ⟨new, typed, typeBound, Act.undoing_ok h⟩

theorem bindBoth_error (h : bindBoth shown key codec registry = (.error failure, after)) :
    after = registry ∧
      (registry.TypeTaken shown key codec failure ∨ registry.IdTaken shown codec failure) := by
  rcases Act.bind_error h with refused | ⟨new, typed, typeBound, h⟩
  · obtain ⟨same, taken⟩ := bindType_error refused
    exact ⟨same, .inl taken⟩
  · obtain ⟨reached, idRefused, rfl⟩ := Act.undoing_error h
    obtain ⟨rfl, taken⟩ := bindId_error idRefused
    obtain ⟨rfl, rfl⟩ | ⟨rfl, fresh, rfl⟩ := bindType_ok typeBound
    · exact ⟨by simp, .inr taken⟩
    · exact ⟨unbindType_of_new fresh, .inr taken⟩

theorem checkFamilies_error {members : List (TypeKey × BuiltinCodec)}
    (h : registry.checkFamilies key codec members = .error failure) :
    registry.FamilyReserved key codec members failure := by
  induction members with
  | nil => cases h
  | cons member others ih =>
    obtain ⟨family, builtin⟩ := member
    rw [checkFamilies] at h
    split at h
    case isTrue refused =>
      cases h
      obtain ⟨member, foreign⟩ := Bool.and_eq_true_iff.mp refused
      refine ⟨family, builtin, by simp, member, fun holder held => ?_, rfl⟩
      simpa [held] using foreign
    case isFalse =>
      obtain ⟨other, held, among, rest⟩ := ih h
      exact ⟨other, held, List.mem_cons_of_mem _ among, rest⟩

theorem not_familyReserved_of_ok {members : List (TypeKey × BuiltinCodec)}
    (h : registry.checkFamilies key codec members = .ok ()) :
    ¬ registry.FamilyReserved key codec members failure := by
  rintro ⟨family, builtin, among, member, foreign, -⟩
  induction members with
  | nil => cases among
  | cons first others ih =>
    rw [checkFamilies] at h
    split at h
    case isTrue => cases h
    case isFalse allowed =>
      rcases List.mem_cons.mp among with same | later
      · cases same
        apply allowed
        cases held : registry.lookupId builtin.typeId with
        | none => simp [member]
        | some holder => simp [member, foreign holder held]
      · exact ih h later

theorem register_ok (h : register shown key codec registry = (.ok (), after)) :
    ¬ codec.typeId < 0 ∧ registry.checkFamilies key codec families = .ok () ∧
      ∃ new typed, bindType shown key codec registry = (.ok new, typed) ∧
        bindId shown codec typed = (.ok (), after) := by
  unfold register at h
  by_cases negative : codec.typeId < 0
  · rw [if_pos negative] at h
    cases h
  · rw [if_neg negative, Act.bind_of_ok (Act.get_apply registry)] at h
    obtain ⟨_, checked, allowed, bound⟩ := Act.bind_ok h
    obtain ⟨reserved, rfl⟩ := Act.lift_ok allowed
    exact ⟨negative, reserved, bindBoth_ok bound⟩

/-- A refused registration leaves the registry as it was, and there was a reason to refuse it. -/
theorem register_error (h : register shown key codec registry = (.error failure, after)) :
    after = registry ∧ registry.Refuses shown key codec failure := by
  unfold register at h
  by_cases negative : codec.typeId < 0
  · rw [if_pos negative] at h
    cases h
    exact ⟨rfl, .negativeId negative rfl⟩
  · rw [if_neg negative, Act.bind_of_ok (Act.get_apply registry)] at h
    rcases Act.bind_error h with refused | ⟨_, checked, allowed, unbound⟩
    · obtain ⟨reserved, rfl⟩ := Act.lift_error refused
      exact ⟨rfl, .reserved (checkFamilies_error reserved)⟩
    · obtain ⟨-, rfl⟩ := Act.lift_ok allowed
      obtain ⟨same, taken | taken⟩ := bindBoth_error unbound
      · exact ⟨same, .typeTaken taken⟩
      · exact ⟨same, .idTaken taken⟩

/-- A registration fails exactly if there is a reason to refuse it. -/
theorem register_refused_iff :
    (∃ failure after, register shown key codec registry = (.error failure, after)) ↔
      ∃ failure, registry.Refuses shown key codec failure := by
  constructor
  · rintro ⟨failure, after, h⟩
    exact ⟨failure, (register_error h).2⟩
  · rintro ⟨failure, refuses⟩
    rcases ran : register shown key codec registry with ⟨refusal | _, after⟩
    · exact ⟨refusal, after, rfl⟩
    · obtain ⟨positive, allowed, new, typed, typeBound, idBound⟩ := register_ok ran
      exfalso
      cases refuses with
      | negativeId negative => exact positive negative
      | reserved family => exact not_familyReserved_of_ok allowed family
      | typeTaken taken => simp [bindType_of_taken taken] at typeBound
      | idTaken taken =>
        have still : typed.IdTaken shown codec failure := by
          obtain ⟨-, rfl⟩ | ⟨-, -, rfl⟩ := bindType_ok typeBound
          · exact taken
          · exact taken
        simp [bindId_of_taken still] at idBound

theorem registerFallback_ok (h : registerFallback shown codec registry = (.ok (), after)) :
    registry.fallback = none ∧
      bindId shown codec { registry with fallback := some codec } = (.ok (), after) := by
  unfold registerFallback at h
  rw [Act.bind_of_ok (Act.get_apply registry)] at h
  cases present : registry.fallback with
  | some active =>
    rw [present] at h
    cases h
  | none =>
    rw [present] at h
    obtain ⟨_, filled, changed, h⟩ := Act.bind_ok h
    cases changed
    exact ⟨rfl, Act.undoing_ok h⟩

/-- A refused fallback leaves the registry as it was, and there was a reason to refuse it. -/
theorem registerFallback_error
    (h : registerFallback shown codec registry = (.error failure, after)) :
    after = registry ∧ registry.RefusesFallback shown codec failure := by
  unfold registerFallback at h
  rw [Act.bind_of_ok (Act.get_apply registry)] at h
  cases present : registry.fallback with
  | some active =>
    rw [present] at h
    cases h
    exact ⟨rfl, .active active present rfl⟩
  | none =>
    rw [present] at h
    rcases Act.bind_error h with refused | ⟨_, filled, changed, h⟩
    · cases refused
    · cases changed
      obtain ⟨reached, idRefused, rfl⟩ := Act.undoing_error h
      obtain ⟨rfl, taken⟩ := bindId_error idRefused
      refine ⟨?_, .idTaken taken⟩
      rw [vacate, if_pos rfl, ← present]

/-- Registering a fallback fails exactly if there is a reason to refuse it. -/
theorem registerFallback_refused_iff :
    (∃ failure after, registerFallback shown codec registry = (.error failure, after)) ↔
      ∃ failure, registry.RefusesFallback shown codec failure := by
  constructor
  · rintro ⟨failure, after, h⟩
    exact ⟨failure, (registerFallback_error h).2⟩
  · rintro ⟨failure, refuses⟩
    rcases ran : registerFallback shown codec registry with ⟨refusal | _, after⟩
    · exact ⟨refusal, after, rfl⟩
    · obtain ⟨vacant, idBound⟩ := registerFallback_ok ran
      exfalso
      cases refuses with
      | active fallback present => simp [vacant] at present
      | idTaken taken =>
        have still : IdTaken { registry with fallback := some codec } shown codec failure := taken
        simp [bindId_of_taken still] at idBound

end Registry

end ObjectWire
