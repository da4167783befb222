import Mathlib.Data.List.Basic
import ObjectWire.Proofs.Registry.Families
import ObjectWire.Proofs.Registry.Growth

/-!
# Lookups that are settled

What a lookup answers with comes from a family, from the type's own binding, from an ancestor or
from the fallback.  An answer of the last two kinds is adopted and turns into one of the second kind.
An answer of the first kind is safe if the families that types are declared to belong to are bound:
then no later binding puts another family in front.  So, while bindings are only added and no parents
are declared, a type that was looked up goes by the same codec for good, and looking it up again
leaves no trace at all.
-/

namespace ObjectWire.Registry

variable {registry later : Registry} {key : TypeKey} {codec : Codec}

instance : Std.Refl Grows := ⟨Grows.refl⟩

instance : Trans Grows Grows Grows := ⟨Grows.trans⟩

/-- The reserved families that types are declared to belong to are bound. -/
def Grounded (registry : Registry) : Prop :=
  ∀ member ∈ families, registry.hierarchy.Mentions member.1 →
    ∃ codec, registry.binding member.1 = some codec

theorem Grounded.of_grows (grounded : registry.Grounded) (grows : registry.Grows later) :
    later.Grounded := by
  intro member listed mentioned
  rw [grows.hierarchy] at mentioned
  obtain ⟨codec, bound⟩ := grounded member listed mentioned
  exact ⟨codec, grows.binding _ _ bound⟩

theorem Seated.grounded (seated : registry.Seated) : registry.Grounded :=
  fun member listed _ => ⟨_, seated.bound member listed⟩

/-- Added bindings do not change which family a type goes by. -/
theorem Grounded.familyCodec_eq (grounded : registry.Grounded) (grows : registry.Grows later)
    (key : TypeKey) : later.familyCodec key = registry.familyCodec key := by
  have kept : ∀ member ∈ families, member.1 ∈ registry.hierarchy.ancestors key →
      later.binding member.1 = registry.binding member.1 := by
    intro member listed above
    obtain ⟨codec, bound⟩ := grounded member listed (Hierarchy.mentions_of_mem_ancestors above)
    rw [bound, grows.binding _ _ bound]
  unfold familyCodec
  rw [grows.hierarchy]
  split
  case isTrue =>
    dsimp only
    rw [← List.head?_filterMap, ← List.head?_filterMap, List.filterMap_congr]
    intro member among
    obtain ⟨listed, above⟩ := List.mem_filter.mp among
    exact kept member listed (by simpa using above)
  case isFalse => rfl

/-- Whether by its family or by its own binding: a type that was looked up goes by what was found,
    and the next lookup finds it without a walk. -/
theorem Grounded.lookup_again (grounded : registry.Grounded)
    (found : (registry.lookup key).1 = some codec) (grows : (registry.lookup key).2.Grows later) :
    later.lookup key = (some codec, later) := by
  have family := grounded.familyCodec_eq ((grows_lookup registry key).trans grows) key
  cases first : registry.familyCodec key with
  | some own =>
    have same : own = codec := by simpa [lookup, first] using found
    simp only [lookup, family, first, same]
  | none =>
    have bound : later.binding key = some codec := by
      apply grows.binding
      by_cases adopts : registry.Adopts key codec
      · rw [binding_of_adopts adopts, if_pos rfl]
      · cases own : registry.binding key with
        | some held =>
          have same : held = codec := by simpa [lookup, first, own] using found
          rw [← same]
          exact (grows_lookup registry key).binding key held own
        | none => exact absurd ⟨first, own, found⟩ adopts
    simp only [lookup, family, first, bound]

/-- Nothing is found for a type only if there is no fallback and neither the type nor any type above
    it is bound. -/
theorem unbound_of_lookup_none (missed : (registry.lookup key).1 = none) :
    registry.fallback = none ∧
      ∀ known ∈ key :: registry.hierarchy.ancestors key, registry.binding known = none := by
  rw [lookup_answer, Option.or_eq_none_iff, List.findSome?_eq_none_iff] at missed
  exact ⟨missed.2, fun known among => missed.1 known (List.mem_append_right _ among)⟩

end ObjectWire.Registry
