import ObjectWire.Service
import ObjectWire.Proofs.Registry.Registering

/-!
# What lookups find and what they leave behind

A lookup asks types for their bindings in a fixed order and answers with the first codec it meets,
or else with the fallback.  It leaves a trace only where a type adopts what was found for it: then
the type is bound to it from there on, which later registrations for the type and later lookups of
its descendants can see.
-/

namespace ObjectWire

namespace Registry

variable {registry after : Registry} {shown : Codec → String} {key a b : TypeKey} {codec : Codec}

/-- The types that are asked for their bindings when a type is looked up, in this order: the
    reserved families that a declared type belongs to, the type itself, and what is above it. -/
def asked (registry : Registry) (key : TypeKey) : List TypeKey :=
  let above := registry.hierarchy.ancestors key
  (if registry.hierarchy.isDeclared key then
    (families.filter fun (family, _) => family ∈ above).map Prod.fst else []) ++ key :: above

/-- The type is not bound and does not go by a family, and a lookup finds a codec for it. -/
def Adopts (registry : Registry) (key : TypeKey) (codec : Codec) : Prop :=
  registry.familyCodec key = none ∧ registry.binding key = none ∧
    (registry.lookup key).1 = some codec

instance : Decidable (registry.Adopts key codec) := inferInstanceAs (Decidable (_ ∧ _ ∧ _))

/-- Looking `b` up asks `a`, and neither `a` nor any type that is asked before it is bound. -/
def Consults (registry : Registry) (b a : TypeKey) : Prop :=
  a ∈ (registry.asked b).takeWhile fun known => (registry.binding known).isNone

instance : Decidable (registry.Consults b a) := inferInstanceAs (Decidable (_ ∈ _))

theorem familyCodec_eq (registry : Registry) (key : TypeKey) :
    registry.familyCodec key =
      ((if registry.hierarchy.isDeclared key then
        (families.filter fun (family, _) => family ∈ registry.hierarchy.ancestors key).map Prod.fst
        else []).findSome? registry.binding) := by
  unfold familyCodec
  by_cases declared : registry.hierarchy.isDeclared key = true
  · simp only [declared, if_true, List.findSome?_map]
    rfl
  · simp [declared]

/-- A lookup answers with the first codec that the types it asks are bound to. -/
theorem lookup_answer (registry : Registry) (key : TypeKey) :
    (registry.lookup key).1 =
      ((registry.asked key).findSome? registry.binding).or registry.fallback := by
  have order : (registry.asked key).findSome? registry.binding =
      (registry.familyCodec key).or ((registry.binding key).or (registry.inheritedCodec key)) := by
    rw [asked, List.findSome?_append, ← familyCodec_eq, List.findSome?_cons]
    cases registry.binding key <;> simp [inheritedCodec]
  rw [order]
  unfold lookup
  cases registry.familyCodec key with
  | some family => simp
  | none =>
    cases registry.binding key with
    | some own => simp
    | none => cases h : (registry.inheritedCodec key).or registry.fallback <;> simp [h]

/-- A type adopts one codec at most. -/
theorem Adopts.unique {other : Codec} (adopts : registry.Adopts key codec)
    (also : registry.Adopts key other) : codec = other :=
  Option.some.inj (adopts.2.2.symm.trans also.2.2)

/-- A lookup changes nothing but the count of walks, unless the type adopts a codec. -/
theorem lookup_of_not_adopts (none : ∀ codec, ¬ registry.Adopts key codec) :
    (registry.lookup key).2 = { registry with walks := (registry.lookup key).2.walks } := by
  unfold Adopts at none
  unfold lookup at none ⊢
  cases family : registry.familyCodec key with
  | some codec => rfl
  | none =>
    cases own : registry.binding key with
    | some codec => rfl
    | none =>
      cases found : (registry.inheritedCodec key).or registry.fallback with
      | none => rfl
      | some codec => simp [family, own, found] at none

/-- A type that adopts a codec is bound to it, and nothing else changes but the count of walks. -/
theorem lookup_of_adopts (adopts : registry.Adopts key codec) :
    (registry.lookup key).2 =
      { registry with
        walks := (registry.lookup key).2.walks
        types := registry.types ++ [(key, codec)] } := by
  obtain ⟨family, own, found⟩ := adopts
  unfold lookup at found ⊢
  simp only [family, own] at found ⊢
  cases adopted : (registry.inheritedCodec key).or registry.fallback with
  | none => simp [adopted] at found
  | some held =>
    simp only [adopted, Option.some.injEq] at found
    simp [found]

/-- What a lookup answers with is bound to a type or is the fallback. -/
theorem lookup_source (h : (registry.lookup key).1 = some codec) :
    (∃ known, registry.binding known = some codec) ∨ registry.fallback = some codec := by
  rw [lookup_answer] at h
  rcases Option.or_eq_some_iff.mp h with found | ⟨-, fallback⟩
  · obtain ⟨known, -, bound⟩ := List.exists_of_findSome?_eq_some found
    exact .inl ⟨known, bound⟩
  · exact .inr fallback

/-- A lookup changes the bindings at most by one for the key, to the codec it answers with. -/
theorem lookup_registry (registry : Registry) (key : TypeKey) :
    ∃ walks, (registry.lookup key).2 = { registry with walks := walks } ∨
      ∃ codec, (registry.lookup key).1 = some codec ∧
        (registry.lookup key).2 =
          { registry with walks := walks, types := registry.types ++ [(key, codec)] } := by
  by_cases adopts : ∃ codec, registry.Adopts key codec
  · obtain ⟨codec, adopts⟩ := adopts
    exact ⟨_, .inr ⟨codec, adopts.2.2, lookup_of_adopts adopts⟩⟩
  · exact ⟨_, .inl (lookup_of_not_adopts (not_exists.mp adopts))⟩

theorem lookup_ids (registry : Registry) (key : TypeKey) :
    (registry.lookup key).2.ids = registry.ids := by
  obtain ⟨walks, same | ⟨codec, -, grown⟩⟩ := lookup_registry registry key
  · rw [same]
  · rw [grown]

theorem lookup_hierarchy (registry : Registry) (key : TypeKey) :
    (registry.lookup key).2.hierarchy = registry.hierarchy := by
  obtain ⟨walks, same | ⟨codec, -, grown⟩⟩ := lookup_registry registry key
  · rw [same]
  · rw [grown]

theorem binding_of_adopts (adopts : registry.Adopts a codec) (known : TypeKey) :
    (registry.lookup a).2.binding known =
      if known = a then some codec else registry.binding known := by
  rw [lookup_of_adopts adopts]
  show (registry.types ++ [(a, codec)]).lookup known = _
  by_cases own : known = a
  · rw [if_pos own, own]
    exact Keyed.lookup_append_of_none adopts.2.1
  · rw [if_neg own, List.lookup_append]
    have other : ¬ (known == a) = true := by simpa using own
    simp [List.lookup_cons, other, binding]

theorem asked_lookup (registry : Registry) (a b : TypeKey) :
    (registry.lookup a).2.asked b = registry.asked b := by
  unfold asked
  rw [lookup_hierarchy]

/-- With one more type bound, the first codec met is that type's if it is met before any other. -/
theorem findSome?_of_bound {binding bound : TypeKey → Option Codec} (unbound : binding a = none)
    (more : ∀ known, bound known = if known = a then some codec else binding known)
    (keys : List TypeKey) :
    keys.findSome? bound =
      if a ∈ keys.takeWhile fun known => (binding known).isNone then some codec
      else keys.findSome? binding := by
  induction keys with
  | nil => simp
  | cons first keys ih =>
    by_cases own : first = a
    · subst own
      simp [more, unbound]
    · cases held : binding first with
      | some codec => simp [more, own, held]
      | none => simp [more, own, held, ih, Ne.symm own]

/-- What is found for a type once another one has adopted a codec. -/
theorem lookup_after_adopts (adopts : registry.Adopts a codec) (b : TypeKey) :
    ((registry.lookup a).2.lookup b).1 =
      if registry.Consults b a then some codec else (registry.lookup b).1 := by
  have active : (registry.lookup a).2.fallback = registry.fallback := by
    rw [lookup_of_adopts adopts]
  rw [lookup_answer, lookup_answer, asked_lookup, active,
    findSome?_of_bound adopts.2.1 (binding_of_adopts adopts)]
  show Option.or (if registry.Consults b a then _ else _) _ = _
  split <;> simp

/-- A registration looks at the type ids, the hierarchy and the binding of its type only. -/
theorem register_outcome_congr (ids : after.ids = registry.ids)
    (hierarchy : after.hierarchy = registry.hierarchy)
    (own : after.binding key = registry.binding key) (codec : Codec) :
    (register shown key codec after).1 = (register shown key codec registry).1 := by
  have holders : ∀ id, after.lookupId id = registry.lookupId id := by
    intro id
    rw [lookupId, lookupId, ids]
  have reserved : after.checkFamilies key codec families =
      registry.checkFamilies key codec families := by
    simp only [families, checkFamilies, hierarchy, holders]
  have bound : (bindBoth shown key codec after).1 = (bindBoth shown key codec registry).1 := by
    have held : ∀ grown : List (TypeKey × Codec), ∀ known : Registry,
        lookupId { known with types := grown } codec.typeId = known.lookupId codec.typeId :=
      fun _ _ => rfl
    unfold bindBoth
    simp only [Act.bind_apply, bindType, bindId, Act.undoing, own]
    cases registry.binding key with
    | none =>
      simp only [held, holders]
      cases registry.lookupId codec.typeId with
      | none => rfl
      | some holder => cases same : holder.sameImplementation codec <;> simp [same]
    | some holder =>
      cases same : holder.sameImplementation codec with
      | false => simp [same]
      | true =>
        simp only [same, if_true, holders]
        cases registry.lookupId codec.typeId with
        | none => rfl
        | some holder => cases same : holder.sameImplementation codec <;> simp [same]
  unfold register
  by_cases negative : codec.typeId < 0
  · simp [negative]
  · simp only [if_neg negative, Act.bind_apply, Act.get_apply, Act.lift_apply, reserved]
    cases registry.checkFamilies key codec families with
    | error failure => rfl
    | ok _ => exact bound

/-- A registration succeeds exactly if there is no reason to refuse it. -/
theorem register_accepted_iff :
    (register shown key codec registry).1 = .ok () ↔
      ∀ failure, ¬ registry.Refuses shown key codec failure := by
  constructor
  · intro accepted failure refuses
    obtain ⟨refusal, after, h⟩ := register_refused_iff.mpr ⟨failure, refuses⟩
    simp [h] at accepted
  · intro allowed
    rcases ran : register shown key codec registry with ⟨refusal | _, after⟩
    · exact absurd (register_error ran).2 (allowed refusal)
    · rfl

/-- A type that has adopted a codec accepts, of those it would have accepted before, the codecs of
    the adopted implementation. -/
theorem register_after_adopts {adopted : Codec} (adopts : registry.Adopts a adopted) :
    (register shown a codec (registry.lookup a).2).1 = .ok () ↔
      (register shown a codec registry).1 = .ok () ∧
        adopted.sameImplementation codec = true := by
  have bound := binding_of_adopts adopts a
  rw [if_pos rfl] at bound
  rw [register_accepted_iff, register_accepted_iff]
  rw [lookup_of_adopts adopts] at bound ⊢
  constructor
  · intro allowed
    refine ⟨fun failure refuses => ?_, ?_⟩
    · cases refuses with
      | negativeId negative because => exact allowed failure (.negativeId negative because)
      | reserved family => exact allowed failure (.reserved family)
      | typeTaken taken =>
        obtain ⟨holder, held, -⟩ := taken
        simp [adopts.2.1] at held
      | idTaken taken => exact allowed failure (.idTaken taken)
    · by_cases same : adopted.sameImplementation codec = true
      · exact same
      · exact absurd (.typeTaken ⟨adopted, bound, by simpa using same, rfl⟩) (allowed _)
  · rintro ⟨allowed, same⟩ failure refuses
    cases refuses with
    | negativeId negative because => exact allowed failure (.negativeId negative because)
    | reserved family => exact allowed failure (.reserved family)
    | typeTaken taken =>
      obtain ⟨holder, held, foreign, -⟩ := taken
      rw [bound, Option.some.injEq] at held
      rw [held, foreign] at same
      cases same
    | idTaken taken => exact allowed failure (.idTaken taken)

theorem binding_lookup_of_ne (distinct : a ≠ b) :
    (registry.lookup a).2.binding b = registry.binding b := by
  by_cases adopts : ∃ codec, registry.Adopts a codec
  · obtain ⟨codec, adopts⟩ := adopts
    rw [binding_of_adopts adopts, if_neg (Ne.symm distinct)]
  · rw [lookup_of_not_adopts (not_exists.mp adopts)]
    rfl

/-- A type that was looked up accepts what it would have accepted, if it is of what the type
    adopted. -/
theorem register_after_lookup (registry : Registry) (shown : Codec → String) (a : TypeKey)
    (codec : Codec) :
    (register shown a codec (registry.lookup a).2).1 = .ok () ↔
      (register shown a codec registry).1 = .ok () ∧
        ∀ adopted, registry.Adopts a adopted → adopted.sameImplementation codec = true := by
  by_cases adopts : ∃ adopted, registry.Adopts a adopted
  · obtain ⟨adopted, adopts⟩ := adopts
    rw [register_after_adopts adopts]
    refine and_congr_right fun _ => ⟨fun same known also => ?_, fun same => same adopted adopts⟩
    rwa [also.unique adopts]
  · have never := not_exists.mp adopts
    have own : (registry.lookup a).2.binding a = registry.binding a := by
      rw [lookup_of_not_adopts never]
      rfl
    rw [register_outcome_congr (lookup_ids registry a) (lookup_hierarchy registry a) own]
    exact ⟨fun accepted => ⟨accepted, fun adopted also => absurd also (never adopted)⟩, And.left⟩

/-- What is found for `b` after `a` was looked up is what would have been found, exactly if it is
    what `a` adopted or `a` is not consulted. -/
theorem lookup_after_lookup (registry : Registry) (a b : TypeKey) :
    ((registry.lookup a).2.lookup b).1 = (registry.lookup b).1 ↔
      ∀ adopted, registry.Adopts a adopted → registry.Consults b a →
        (registry.lookup b).1 = some adopted := by
  by_cases adopts : ∃ adopted, registry.Adopts a adopted
  · obtain ⟨adopted, adopts⟩ := adopts
    rw [lookup_after_adopts adopts]
    constructor
    · intro same known also consults
      rw [if_pos consults] at same
      rw [← same, also.unique adopts]
    · intro same
      split
      case isTrue consults => exact (same adopted adopts consults).symm
      case isFalse => rfl
  · have never := not_exists.mp adopts
    refine iff_of_true ?_ fun adopted also => absurd also (never adopted)
    rw [lookup_answer, lookup_answer, lookup_of_not_adopts never]
    rfl

/-- Looking `a` up changes nothing but the count of walks, except that `a` is bound to the codec
    it adopts.  A later registration for another type `b` ends as it would have; one for `a`
    succeeds if it would have and is of what `a` adopted.  What is found for `b` is the same
    unless `a` is consulted: then it is what `a` adopted. -/
theorem lookup_leaves_what_it_adopts (registry : Registry) (shown : Codec → String)
    {a b : TypeKey} (distinct : a ≠ b) :
    let after := (registry.lookup a).2
    ((∀ codec, ¬ registry.Adopts a codec) → after = { registry with walks := after.walks }) ∧
    (∀ codec, registry.Adopts a codec → after =
      { registry with walks := after.walks, types := registry.types ++ [(a, codec)] }) ∧
    (∀ codec, (register shown b codec after).1 = (register shown b codec registry).1) ∧
    (∀ codec, (register shown a codec after).1 = .ok () ↔
      (register shown a codec registry).1 = .ok () ∧
        ∀ adopted, registry.Adopts a adopted → adopted.sameImplementation codec = true) ∧
    ((after.lookup b).1 = (registry.lookup b).1 ↔
      ∀ adopted, registry.Adopts a adopted → registry.Consults b a →
        (registry.lookup b).1 = some adopted) ∧
    ∀ adopted, registry.Adopts a adopted → registry.Consults b a →
      (after.lookup b).1 = some adopted := by
  have elsewhere : (registry.lookup a).2.binding b = registry.binding b :=
    binding_lookup_of_ne distinct
  refine ⟨lookup_of_not_adopts, fun codec => lookup_of_adopts, fun codec => ?_, fun codec => ?_,
    lookup_after_lookup registry a b, fun adopted adopts consults => ?_⟩
  · exact register_outcome_congr (lookup_ids registry a) (lookup_hierarchy registry a) elsewhere
      codec
  · exact register_after_lookup registry shown a codec
  · rw [lookup_after_adopts adopts, if_pos consults]

/-- A type adopts the codec of its supertype; an interface that has another codec keeps it. -/
theorem lookup_leaves_what_it_adopts_of_supertype :
    let held : Codec := .custom ⟨"h", 0, 50, .typeName⟩
    let other : Codec := .custom ⟨"o", 1, 51, .typeName⟩
    let hierarchy := Hierarchy.empty.declare ⟨"a.B"⟩ ⟨[⟨"a.A"⟩], [⟨"a.I"⟩]⟩
    let registry : Registry :=
      ⟨[(⟨"a.A"⟩, held), (⟨"a.I"⟩, other)], [(50, held), (51, other)], none, hierarchy, 0⟩
    let after := (registry.lookup ⟨"a.B"⟩).2
    (⟨"a.B"⟩ : TypeKey) ≠ ⟨"a.I"⟩ ∧ registry.Adopts ⟨"a.B"⟩ held ∧
      after.types = registry.types ++ [(⟨"a.B"⟩, held)] ∧
      (after.lookup ⟨"a.I"⟩).1 = some other ∧
      ∀ shown, (register shown ⟨"a.B"⟩ other after).1 ≠ .ok () := by
  intro held other hierarchy registry after
  have adopts : registry.Adopts ⟨"a.B"⟩ held := by decide
  have distinct : (⟨"a.B"⟩ : TypeKey) ≠ ⟨"a.I"⟩ := by decide
  have left : ∀ shown, _ := fun shown => lookup_leaves_what_it_adopts registry shown distinct
  obtain ⟨-, bound, -, -, found, -⟩ := left fun _ => ""
  refine ⟨distinct, adopts, ?_, ?_, fun shown accepted => ?_⟩
  · exact congrArg Registry.types (bound held adopts)
  · have apart : ¬ registry.Consults ⟨"a.I"⟩ ⟨"a.B"⟩ := by decide
    exact found.mpr fun adopted _ consults => absurd consults apart
  · obtain ⟨-, -, -, accepts, -⟩ := left shown
    have foreign : held.sameImplementation other = true :=
      ((accepts other).mp accepted).2 held adopts
    revert foreign
    decide

/-- A type that adopts the fallback hides from its descendants the codec of an interface of theirs,
    and refuses that codec itself. -/
theorem fallback_adopted_before_interface :
    let general : Codec := .custom ⟨"f", 0, 50, .typeName⟩
    let special : Codec := .custom ⟨"i", 1, 51, .typeName⟩
    let service := Service.ofSettings .default
    let declared := service.registry.declare ⟨"a.B"⟩ ⟨[⟨"a.A"⟩], [⟨"a.I"⟩]⟩
    let registered := (register service.codecShown ⟨"a.I"⟩ special declared).2
    let registry := (registerFallback service.codecShown general registered).2
    let after := (registry.lookup ⟨"a.A"⟩).2
    (registry.lookup ⟨"a.B"⟩).1 = some special ∧ (after.lookup ⟨"a.B"⟩).1 = some general ∧
      (register service.codecShown ⟨"a.A"⟩ special registry).1 = .ok () ∧
      (register service.codecShown ⟨"a.A"⟩ special after).1 =
        .error (.typeBound "a.A" "Codec0(f, 50)") := by
  refine ⟨by decide, by decide, rfl, Act.failed_of_failure? (by decide +kernel)⟩

end Registry

end ObjectWire
