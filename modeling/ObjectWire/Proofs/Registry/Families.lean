import ObjectWire.Proofs.Hierarchy
import ObjectWire.Proofs.Registry.Lookups

/-!
# Reserved families

While the reserved families and their type ids are bound to the codecs they belong to, every type
below a family goes by the family's codec, whatever it is bound to itself, and refuses every codec.
The portable family comes first.  Only the family type itself is no member of its own family in a
lookup: declared below the family of identified objects, it goes by the codec of that one.
-/

namespace ObjectWire

/-- The type ids of built-in codecs are negative. -/
theorem BuiltinCodec.typeId_neg (codec : BuiltinCodec) : codec.typeId < 0 := by
  cases codec <;> decide

namespace Registry

variable {registry : Registry} {key : TypeKey}

/-- The reserved families and their type ids are bound to the codecs they belong to. -/
structure Seated (registry : Registry) : Prop where
  bound : ∀ member ∈ families, registry.binding member.1 = some (.builtin member.2)
  answers : ∀ member ∈ families,
    registry.lookupId member.2.typeId = some (.builtin member.2)

/-- What a type below a reserved family refuses a codec for. -/
def familyRefusal (key family : TypeKey) (codec : Codec) : Failure :=
  if codec.typeId < 0 then .negativeTypeId codec.typeId key.name
  else .reservedFamily key.name family.name

/-- The types that are asked first are the reserved families above the type, in their order. -/
theorem asked_eq (registry : Registry) (key : TypeKey) :
    registry.asked key =
      (families.filter fun (family, _) => family ∈ registry.hierarchy.ancestors key).map Prod.fst ++
        key :: registry.hierarchy.ancestors key := by
  unfold asked
  cases declared : registry.hierarchy.isDeclared key with
  | true => rfl
  | false =>
    have none : ∀ family, family ∉ registry.hierarchy.ancestors key := by
      intro family above
      rw [Hierarchy.isDeclared_of_mem_ancestors above] at declared
      cases declared
    simp [none]

namespace Seated

variable (seated : registry.Seated)
include seated

/-- A lookup that asks one of the families first answers with that family's codec. -/
theorem lookup_of_asked {family : TypeKey} {builtin : BuiltinCodec} {others : List TypeKey}
    (member : (family, builtin) ∈ families) (asked : registry.asked key = family :: others) :
    (registry.lookup key).1 = some (.builtin builtin) := by
  rw [lookup_answer, asked, List.findSome?_cons, seated.bound _ member]
  rfl

/-- A type of the portable family goes by the portable codec, unless it is the family itself and
    has the other family above it. -/
theorem lookup_portable (member : registry.hierarchy.isA key .portable = true) :
    (registry.lookup key).1 =
      if key = .portable ∧ .identified ∈ registry.hierarchy.ancestors key
      then some (.builtin .identified) else some (.builtin .portable) := by
  have order := asked_eq registry key
  rcases Hierarchy.isA_iff.mp member with rfl | above
  · have itself := Hierarchy.not_mem_ancestors_self registry.hierarchy .portable
    by_cases other : .identified ∈ registry.hierarchy.ancestors .portable
    · rw [if_pos ⟨rfl, other⟩]
      simp only [families, List.filter_cons, itself, other, decide_false, decide_true] at order
      exact seated.lookup_of_asked (by simp [families]) order
    · rw [if_neg fun both => other both.2]
      simp only [families, List.filter_cons, itself, other, decide_false] at order
      exact seated.lookup_of_asked (by simp [families]) order
  · have apart : ¬ (key = .portable ∧ .identified ∈ registry.hierarchy.ancestors key) := by
      rintro ⟨rfl, -⟩
      exact Hierarchy.not_mem_ancestors_self registry.hierarchy .portable above
    rw [if_neg apart]
    simp only [families, List.filter_cons, above, decide_true] at order
    exact seated.lookup_of_asked (by simp [families]) order

/-- A type of the family of identified objects that is not of the portable one goes by the codec of
    identified objects. -/
theorem lookup_identified (foreign : registry.hierarchy.isA key .portable = false)
    (member : registry.hierarchy.isA key .identified = true) :
    (registry.lookup key).1 = some (.builtin .identified) := by
  have order := asked_eq registry key
  have outside : .portable ∉ registry.hierarchy.ancestors key := by
    intro above
    rw [Hierarchy.isA_iff.mpr (.inr above)] at foreign
    cases foreign
  rcases Hierarchy.isA_iff.mp member with rfl | above
  · have itself := Hierarchy.not_mem_ancestors_self registry.hierarchy .identified
    simp only [families, List.filter_cons, itself, outside, decide_false] at order
    exact seated.lookup_of_asked (by simp [families]) order
  · simp only [families, List.filter_cons, above, outside, decide_true, decide_false] at order
    exact seated.lookup_of_asked (by simp [families]) order

/-- A type that belongs to a reserved family refuses every codec; the portable family is checked
    first. -/
theorem register_refused {family : TypeKey} (shown : Codec → String)
    (first : registry.hierarchy.isA key .portable = true ∧ family = .portable ∨
      registry.hierarchy.isA key .portable = false ∧
        registry.hierarchy.isA key .identified = true ∧ family = .identified)
    (codec : Codec) :
    register shown key codec registry = (.error (familyRefusal key family codec), registry) := by
  unfold register familyRefusal
  by_cases negative : codec.typeId < 0
  · rw [if_pos negative, if_pos negative]
    rfl
  · rw [if_neg negative, if_neg negative, Act.bind_of_ok (Act.get_apply registry)]
    cases codec with
    | builtin codec => exact absurd codec.typeId_neg negative
    | custom codec =>
      have portable := seated.answers (.portable, .portable) (by simp [families])
      have identified := seated.answers (.identified, .identified) (by simp [families])
      have refused : registry.checkFamilies key (.custom codec) families =
          .error (.reservedFamily key.name family.name) := by
        rcases first with ⟨member, rfl⟩ | ⟨foreign, member, rfl⟩
        · simp [families, checkFamilies, member, portable, Codec.sameImplementation]
        · simp [families, checkFamilies, foreign, member, identified, Codec.sameImplementation]
      exact Act.bind_of_error (by rw [Act.lift_apply, refused])

end Seated

end Registry

end ObjectWire
