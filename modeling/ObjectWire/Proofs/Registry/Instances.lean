import ObjectWire.Proofs.Registry.Anchored

/-!
# The instances in use

An instance is in use as long as a type or a type id is bound to it or it is the fallback.  Only
registrations that are accepted bring an instance in: what a lookup has a type adopt was in use
before.  No type and no id is ever filed twice, so what is listed can be looked up.
-/

namespace ObjectWire

/-- Erasing duplicates leaves none: it goes on with what differs from the first item. -/
theorem nodup_eraseDups {α : Type} [DecidableEq α] : (items : List α) → items.eraseDups.Nodup
  | [] => by simp
  | item :: items => by
    rw [List.eraseDups_cons, List.nodup_cons]
    exact ⟨by simp [List.mem_eraseDups], nodup_eraseDups _⟩
termination_by items => items.length
decreasing_by
  have shorter := List.length_filter_le (fun other => !other == item) items
  simp only [List.length_cons]
  omega

namespace Registry

variable {registry after : Registry} {shown : Codec → String} {key : TypeKey} {codec other : Codec}

theorem mem_instances : codec ∈ registry.instances ↔
    (∃ key, (key, codec) ∈ registry.types) ∨ (∃ id, (id, codec) ∈ registry.ids) ∨
      registry.fallback = some codec := by
  simp [instances, List.mem_eraseDups]

theorem nodup_instances (registry : Registry) : registry.instances.Nodup := nodup_eraseDups _

/-! What comes into use. -/

/-- Bindings that stand behind all others bring in what they are bindings to. -/
theorem mem_instances_of_append (registry : Registry) {types : List (TypeKey × Codec)}
    {ids : List (Int32 × Codec)} (member : other ∈ after.instances)
    (typed : after.types = registry.types ++ types) (numbered : after.ids = registry.ids ++ ids)
    (active : after.fallback = registry.fallback) :
    other ∈ registry.instances ∨ (∃ key, (key, other) ∈ types) ∨ ∃ id, (id, other) ∈ ids := by
  rw [mem_instances, typed, numbered, active] at member
  rw [mem_instances]
  rcases member with ⟨key, bound⟩ | ⟨id, bound⟩ | fallback
  · rcases List.mem_append.mp bound with old | new
    · exact .inl (.inl ⟨key, old⟩)
    · exact .inr (.inl ⟨key, new⟩)
  · rcases List.mem_append.mp bound with old | new
    · exact .inl (.inr (.inl ⟨id, old⟩))
    · exact .inr (.inr ⟨id, new⟩)
  · exact .inl (.inr (.inr fallback))

theorem bindId_instances (h : bindId shown codec registry = (.ok (), after))
    (member : other ∈ after.instances) : other ∈ registry.instances ∨ other = codec := by
  obtain ⟨rfl, -⟩ | ⟨-, rfl⟩ := bindId_ok h
  · exact .inl member
  · refine (mem_instances_of_append registry member (List.append_nil _).symm rfl rfl).imp_right ?_
    rintro (⟨_, none⟩ | ⟨id, new⟩)
    · cases none
    · exact congrArg Prod.snd (List.mem_singleton.mp new)

theorem bindType_instances {new : Bool} (h : bindType shown key codec registry = (.ok new, after))
    (member : other ∈ after.instances) : other ∈ registry.instances ∨ other = codec := by
  obtain ⟨-, rfl⟩ | ⟨-, -, rfl⟩ := bindType_ok h
  · exact .inl member
  · refine (mem_instances_of_append registry member rfl (List.append_nil _).symm rfl).imp_right ?_
    rintro (⟨known, new⟩ | ⟨_, none⟩)
    · exact congrArg Prod.snd (List.mem_singleton.mp new)
    · cases none

/-- A registration for a type brings in its codec at most, and only if it is accepted. -/
theorem register_instances (member : other ∈ (register shown key codec registry).2.instances) :
    other ∈ registry.instances ∨
      (register shown key codec registry).1 = .ok () ∧ other = codec := by
  rcases ran : register shown key codec registry with ⟨failure | _, after⟩
  · rw [ran, (register_error ran).1] at member
    exact .inl member
  · rw [ran] at member
    obtain ⟨-, -, new, typed, typeBound, idBound⟩ := register_ok ran
    rcases bindId_instances idBound member with between | same
    · exact (bindType_instances typeBound between).imp_right fun same => ⟨rfl, same⟩
    · exact .inr ⟨rfl, same⟩

/-- A registration of a fallback brings in its codec at most, and only if it is accepted. -/
theorem registerFallback_instances
    (member : other ∈ (registerFallback shown codec registry).2.instances) :
    other ∈ registry.instances ∨
      (registerFallback shown codec registry).1 = .ok () ∧ other = codec := by
  rcases ran : registerFallback shown codec registry with ⟨failure | _, after⟩
  · rw [ran, (registerFallback_error ran).1] at member
    exact .inl member
  · rw [ran] at member
    obtain ⟨-, idBound⟩ := registerFallback_ok ran
    rcases bindId_instances idBound member with between | same
    · rw [mem_instances] at between ⊢
      rcases between with typed | numbered | active
      · exact .inl (.inl typed)
      · exact .inl (.inr (.inl numbered))
      · exact .inr ⟨rfl, (Option.some.inj active).symm⟩
    · exact .inr ⟨rfl, same⟩

/-- What is found for a type is in use. -/
theorem mem_instances_of_lookup (h : (registry.lookup key).1 = some codec) :
    codec ∈ registry.instances := by
  rw [mem_instances]
  rcases lookup_source h with ⟨known, bound⟩ | active
  · exact .inl ⟨known, Keyed.mem_of_lookup bound⟩
  · exact .inr (.inr active)

theorem mem_instances_of_lookupId {id : Int32} (h : registry.lookupId id = some codec) :
    codec ∈ registry.instances :=
  mem_instances.mpr (.inr (.inl ⟨id, Keyed.mem_of_lookup h⟩))

/-- A lookup brings in nothing. -/
theorem lookup_instances (member : other ∈ (registry.lookup key).2.instances) :
    other ∈ registry.instances := by
  obtain ⟨walks, same | ⟨codec, found, grown⟩⟩ := lookup_registry registry key
  · rwa [same] at member
  · rw [grown] at member
    rcases mem_instances_of_append registry member rfl (List.append_nil _).symm rfl with
      old | ⟨known, new⟩ | ⟨_, none⟩
    · exact old
    · rw [show other = codec from congrArg Prod.snd (List.mem_singleton.mp new)]
      exact mem_instances_of_lookup found
    · cases none

theorem deregister_instances (member : other ∈ (registry.deregister key).instances) :
    other ∈ registry.instances := by
  rw [mem_instances] at member ⊢
  rcases member with ⟨known, bound⟩ | ⟨id, bound⟩ | active
  · exact .inl ⟨known, (mem_deregister_types.mp bound).1⟩
  · refine .inr (.inl ⟨id, ?_⟩)
    cases own : registry.binding key with
    | none => rwa [deregister_of_unbound own] at bound
    | some codec =>
      rw [deregister_ids own] at bound
      exact (List.mem_filter.mp bound).1
  · exact .inr (.inr (deregister_fallback.symm.trans active))

theorem deregisterFallback_instances (member : other ∈ registry.deregisterFallback.instances) :
    other ∈ registry.instances := by
  rw [mem_instances] at member ⊢
  rcases member with typed | numbered | none
  · exact .inl typed
  · exact .inr (.inl numbered)
  · cases none

theorem destroy_instances (registry : Registry) : registry.destroy.instances = [] := rfl

/-! What is filed. -/

/-- A type or a type id is bound to the instance, or it is the fallback. -/
def InUse (registry : Registry) (codec : Codec) : Prop :=
  (∃ key, registry.binding key = some codec) ∨ (∃ id, registry.lookupId id = some codec) ∨
    registry.fallback = some codec

/-- No type and no type id is filed twice. -/
structure Filed (registry : Registry) : Prop where
  types : (registry.types.map Prod.fst).Nodup
  ids : (registry.ids.map Prod.fst).Nodup

namespace Filed

/-- Where nothing is filed twice, the instances listed are those in use. -/
theorem mem_instances_iff (filed : registry.Filed) :
    codec ∈ registry.instances ↔ registry.InUse codec := by
  rw [mem_instances]
  constructor
  · rintro (⟨key, member⟩ | ⟨id, member⟩ | active)
    · exact .inl ⟨key, Keyed.lookup_of_mem filed.types member⟩
    · exact .inr (.inl ⟨id, Keyed.lookup_of_mem filed.ids member⟩)
    · exact .inr (.inr active)
  · rintro (⟨key, bound⟩ | ⟨id, bound⟩ | active)
    · exact .inl ⟨key, Keyed.mem_of_lookup bound⟩
    · exact .inr (.inl ⟨id, Keyed.mem_of_lookup bound⟩)
    · exact .inr (.inr active)

theorem of_eq (filed : registry.Filed) (types : after.types = registry.types)
    (ids : after.ids = registry.ids) : after.Filed :=
  ⟨types ▸ filed.types, ids ▸ filed.ids⟩

theorem bindId (filed : registry.Filed) (h : bindId shown codec registry = (.ok (), after)) :
    after.Filed := by
  obtain ⟨more, rfl, -, distinct⟩ := anchors_of_bindId h
  exact ⟨filed.types, distinct filed.ids⟩

theorem register (filed : registry.Filed) (shown : Codec → String) (key : TypeKey)
    (codec : Codec) : (register shown key codec registry).2.Filed := by
  rcases ran : Registry.register shown key codec registry with ⟨failure | _, after⟩
  · rw [(register_error ran).1]
    exact filed
  · obtain ⟨-, -, new, typed, typeBound, idBound⟩ := register_ok ran
    obtain ⟨-, rfl⟩ | ⟨-, free, rfl⟩ := bindType_ok typeBound
    · exact filed.bindId idBound
    · have typed : Filed { registry with types := registry.types ++ [(key, codec)] } :=
        ⟨Keyed.distinct_append filed.types free, filed.ids⟩
      exact typed.bindId idBound

theorem registerFallback (filed : registry.Filed) (shown : Codec → String) (codec : Codec) :
    (registerFallback shown codec registry).2.Filed := by
  rcases ran : Registry.registerFallback shown codec registry with ⟨failure | _, after⟩
  · rw [(registerFallback_error ran).1]
    exact filed
  · have filled : Filed { registry with fallback := some codec } := filed.of_eq rfl rfl
    exact filled.bindId (registerFallback_ok ran).2

theorem lookup (filed : registry.Filed) (key : TypeKey) : (registry.lookup key).2.Filed := by
  by_cases adopts : ∃ codec, registry.Adopts key codec
  · obtain ⟨codec, adopts⟩ := adopts
    rw [lookup_of_adopts adopts]
    exact ⟨Keyed.distinct_append filed.types adopts.2.1, filed.ids⟩
  · rw [lookup_of_not_adopts (not_exists.mp adopts)]
    exact filed.of_eq rfl rfl

theorem deregister (filed : registry.Filed) (key : TypeKey) : (registry.deregister key).Filed := by
  refine ⟨?_, deregister_distinct filed.ids⟩
  unfold Registry.deregister
  split
  case h_1 => exact filed.types
  case h_2 => exact filed.types.sublist (List.filter_sublist.map _)

theorem destroy (registry : Registry) : registry.destroy.Filed := ⟨.nil, .nil⟩

end Filed

end Registry

end ObjectWire
