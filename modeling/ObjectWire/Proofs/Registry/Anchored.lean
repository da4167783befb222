import ObjectWire.Proofs.Registry.Lookups

/-!
# Anchored registries

A codec is anchored in a registry if its type id is bound to a codec of its implementation, and a
registry is anchored if every codec it may answer with is: those that types are bound to and the
fallback.  Registering, adopting and declaring keep a registry anchored.  Taking a binding back
does so exactly if it spares the type id as long as something else goes by it.
-/

namespace ObjectWire

namespace Codec

theorem sameImplementation_refl (codec : Codec) : codec.sameImplementation codec = true := by
  cases codec <;> simp [sameImplementation]

end Codec

namespace Registry

variable {registry after : Registry} {shown : Codec → String} {key : TypeKey} {codec : Codec}

/-- The type id of the codec is bound to a codec of its implementation. -/
def Anchors (registry : Registry) (codec : Codec) : Prop :=
  ∃ holder, registry.lookupId codec.typeId = some holder ∧
    holder.sameImplementation codec = true

/-- Every codec in use is anchored, and no type id is bound twice. -/
structure Anchored (registry : Registry) : Prop where
  distinct : (registry.ids.map Prod.fst).Nodup
  bound : ∀ entry ∈ registry.types, registry.Anchors entry.2
  fallback : ∀ codec, registry.fallback = some codec → registry.Anchors codec

theorem Anchors.of_ids_eq (h : registry.Anchors codec) (same : after.ids = registry.ids) :
    after.Anchors codec := by
  unfold Anchors lookupId at *
  rwa [same]

theorem Anchors.of_append {more : List (Int32 × Codec)} (h : registry.Anchors codec)
    (grown : after.ids = registry.ids ++ more) : after.Anchors codec := by
  obtain ⟨holder, found, same⟩ := h
  refine ⟨holder, ?_, same⟩
  rw [lookupId, grown]
  exact Keyed.lookup_append_of_some found

theorem Anchored.of_binding (anchored : registry.Anchored) (h : registry.binding key = some codec) :
    registry.Anchors codec :=
  anchored.bound _ (Keyed.mem_of_lookup h)

/-- Binding an id leaves the other bindings alone, and whoever holds the id then is of the codec's
    implementation. -/
theorem anchors_of_bindId (h : bindId shown codec registry = (.ok (), after)) :
    ∃ more, after = { registry with ids := registry.ids ++ more } ∧ after.Anchors codec ∧
      ((registry.ids.map Prod.fst).Nodup → (after.ids.map Prod.fst).Nodup) := by
  obtain ⟨rfl, holder, found, same⟩ | ⟨found, rfl⟩ := bindId_ok h
  · exact ⟨[], by simp, ⟨holder, found, same⟩, id⟩
  · refine ⟨[(codec.typeId, codec)], rfl, ?_, fun distinct => ?_⟩
    · exact ⟨codec, Keyed.lookup_append_of_none found, codec.sameImplementation_refl⟩
    · exact Keyed.distinct_append distinct found

theorem Anchored.register (anchored : registry.Anchored)
    (h : register shown key codec registry = (.ok (), after)) : after.Anchored := by
  obtain ⟨-, -, new, typed, typeBound, idBound⟩ := register_ok h
  obtain ⟨more, rfl, anchors, distinct⟩ := anchors_of_bindId idBound
  obtain ⟨-, rfl⟩ | ⟨-, -, rfl⟩ := bindType_ok typeBound
  · refine ⟨distinct anchored.distinct, fun entry member => ?_, fun known active => ?_⟩
    · exact (anchored.bound entry member).of_append rfl
    · exact (anchored.fallback known active).of_append rfl
  · refine ⟨distinct anchored.distinct, fun entry member => ?_, fun known active => ?_⟩
    · rcases List.mem_append.mp member with old | new
      · exact (anchored.bound entry old).of_append rfl
      · rw [List.mem_singleton.mp new]
        exact anchors
    · exact (anchored.fallback known active).of_append rfl

theorem Anchored.registerFallback (anchored : registry.Anchored)
    (h : registerFallback shown codec registry = (.ok (), after)) : after.Anchored := by
  obtain ⟨-, idBound⟩ := registerFallback_ok h
  obtain ⟨more, rfl, anchors, distinct⟩ := anchors_of_bindId idBound
  refine ⟨distinct anchored.distinct, fun entry member => ?_, fun known only => ?_⟩
  · exact (anchored.bound entry member).of_append rfl
  · cases only
    exact anchors

theorem Anchored.deregisterFallback (anchored : registry.Anchored) :
    registry.deregisterFallback.Anchored :=
  ⟨anchored.distinct, fun entry member => (anchored.bound entry member).of_ids_eq rfl, nofun⟩

theorem Anchored.declare (anchored : registry.Anchored) (key : TypeKey) (parents : Parents) :
    (registry.declare key parents).Anchored :=
  ⟨anchored.distinct, fun entry member => (anchored.bound entry member).of_ids_eq rfl,
    fun known active => (anchored.fallback known active).of_ids_eq rfl⟩

/-- Lookups answer with anchored codecs only. -/
theorem Anchored.of_lookup (anchored : registry.Anchored)
    (h : (registry.lookup key).1 = some codec) : registry.Anchors codec := by
  rcases lookup_source h with ⟨known, bound⟩ | active
  · exact anchored.of_binding bound
  · exact anchored.fallback codec active

theorem Anchored.lookup (anchored : registry.Anchored) (key : TypeKey) :
    (registry.lookup key).2.Anchored := by
  obtain ⟨walks, same | ⟨codec, found, grown⟩⟩ := lookup_registry registry key
  · rw [same]
    exact ⟨anchored.distinct, fun entry member => (anchored.bound entry member).of_ids_eq rfl,
      fun known active => (anchored.fallback known active).of_ids_eq rfl⟩
  · rw [grown]
    refine ⟨anchored.distinct, fun entry member => ?_, fun known active => ?_⟩
    · rcases List.mem_append.mp member with old | new
      · exact (anchored.bound entry old).of_ids_eq rfl
      · rw [List.mem_singleton.mp new]
        exact (anchored.of_lookup found).of_ids_eq rfl
    · exact (anchored.fallback known active).of_ids_eq rfl

/-- Taking the binding of a type back does not free a type id that another type or the fallback
    still goes by. -/
def Spares (registry : Registry) (key : TypeKey) : Prop :=
  ∀ codec, registry.binding key = some codec → registry.lookupId codec.typeId = some codec →
    (∀ entry ∈ registry.types, entry.1 ≠ key → entry.2.typeId ≠ codec.typeId) ∧
    ∀ other, registry.fallback = some other → other.typeId ≠ codec.typeId

theorem deregister_of_unbound (h : registry.binding key = none) :
    registry.deregister key = registry := by
  simp only [deregister, h]

theorem deregister_ids (h : registry.binding key = some codec) :
    (registry.deregister key).ids =
      registry.ids.filter fun entry => ¬ (entry.1 = codec.typeId ∧ entry.2 = codec) := by
  simp only [deregister, h]

theorem mem_deregister_types {entry : TypeKey × Codec} :
    entry ∈ (registry.deregister key).types ↔ entry ∈ registry.types ∧ entry.1 ≠ key := by
  unfold deregister
  cases bound : registry.binding key with
  | some codec => simp [Keyed.erase]
  | none =>
    refine ⟨fun member => ⟨member, ?_⟩, And.left⟩
    rintro rfl
    have absent := List.lookup_eq_none_iff.mp bound entry member
    simp at absent

theorem deregister_fallback : (registry.deregister key).fallback = registry.fallback := by
  unfold deregister
  split <;> rfl

theorem deregister_distinct (distinct : (registry.ids.map Prod.fst).Nodup) :
    ((registry.deregister key).ids.map Prod.fst).Nodup := by
  unfold deregister
  split
  case h_1 => exact distinct
  case h_2 => exact distinct.sublist (List.filter_sublist.map _)

/-- An id stays with its holder unless the holder is the very codec that the type was bound to. -/
theorem lookupId_deregister_of_kept {id : Int32} {holder : Codec}
    (found : registry.lookupId id = some holder)
    (kept : ∀ codec, registry.binding key = some codec → ¬ (id = codec.typeId ∧ holder = codec)) :
    (registry.deregister key).lookupId id = some holder := by
  cases bound : registry.binding key with
  | none => rwa [deregister_of_unbound bound]
  | some codec =>
    obtain ⟨front, back, split, before⟩ := List.lookup_eq_some_iff.mp found
    have stays := kept codec bound
    rw [lookupId, deregister_ids bound, split, List.filter_append,
      List.filter_cons_of_pos (by exact decide_eq_true stays)]
    exact List.lookup_eq_some_iff.mpr
      ⟨_, _, rfl, fun entry member => before entry (List.mem_filter.mp member).1⟩

theorem lookupId_deregister_of_freed (distinct : (registry.ids.map Prod.fst).Nodup)
    (bound : registry.binding key = some codec)
    (held : registry.lookupId codec.typeId = some codec) :
    (registry.deregister key).lookupId codec.typeId = none := by
  rw [lookupId, deregister_ids bound]
  apply List.lookup_eq_none_iff.mpr
  intro entry member
  obtain ⟨among, stays⟩ := List.mem_filter.mp member
  simp only [bne_iff_ne]
  intro equal
  have holder : registry.lookupId entry.1 = some entry.2 := Keyed.lookup_of_mem distinct among
  rw [← equal, held] at holder
  simp [← equal, ← Option.some.inj holder] at stays

theorem Anchors.deregister (h : registry.Anchors codec)
    (kept : ∀ own, registry.binding key = some own → registry.lookupId own.typeId = some own →
      codec.typeId ≠ own.typeId) : (registry.deregister key).Anchors codec := by
  obtain ⟨holder, found, same⟩ := h
  refine ⟨holder, lookupId_deregister_of_kept found ?_, same⟩
  rintro own bound ⟨equal, rfl⟩
  exact kept holder bound (equal ▸ found) equal

/-- Taking a binding back keeps a registry anchored exactly if it spares what is in use. -/
theorem Anchored.deregister_iff (anchored : registry.Anchored) :
    (registry.deregister key).Anchored ↔ registry.Spares key := by
  constructor
  · intro still codec bound held
    have freed := lookupId_deregister_of_freed anchored.distinct bound held
    have lost : ∀ other : Codec, (registry.deregister key).Anchors other →
        other.typeId ≠ codec.typeId := by
      rintro other ⟨holder, found, -⟩ equal
      rw [equal, freed] at found
      cases found
    refine ⟨fun entry member other => ?_, fun other active => ?_⟩
    · exact lost _ (still.bound entry (mem_deregister_types.mpr ⟨member, other⟩))
    · exact lost _ (still.fallback other (deregister_fallback.trans active))
  · intro spares
    refine ⟨deregister_distinct anchored.distinct, fun entry member => ?_, fun other active => ?_⟩
    · obtain ⟨among, unequal⟩ := mem_deregister_types.mp member
      exact (anchored.bound entry among).deregister fun own bound held =>
        (spares own bound held).1 entry among unequal
    · rw [deregister_fallback] at active
      exact (anchored.fallback other active).deregister fun own bound held =>
        (spares own bound held).2 other active

end Registry

end ObjectWire
