import ObjectWire.Proofs.Registry.Families
import ObjectWire.Proofs.Service.Instances

/-!
# Negative type ids

Negative type ids are those of the built-in codecs.  A registration for a type refuses any other
codec with such an id, but the registration of a fallback does not look at the sign of the id.  As
long as no codec made to order is accepted as the fallback under a negative id, every negative id is
bound to the built-in codec it was bound to at first or to nothing, and no envelope with such an id
comes from a codec made to order or goes to one.
-/

namespace ObjectWire

/-- The codec is built in, or its id is not negative. -/
def Codec.Entitled : Codec → Prop
  | .builtin _ => True
  | .custom codec => 0 ≤ codec.typeId

namespace Codec

variable {codec : Codec}

instance : Decidable codec.Entitled :=
  match codec with
  | .builtin _ => isTrue trivial
  | .custom codec => inferInstanceAs (Decidable (0 ≤ codec.typeId))

theorem entitled_of_nonneg (h : ¬ codec.typeId < 0) : codec.Entitled := by
  cases codec with
  | builtin _ => trivial
  | custom codec => exact Int32.not_lt.mp h

/-- Under a negative id only a built-in codec is entitled. -/
theorem Entitled.builtin (entitled : codec.Entitled) (negative : codec.typeId < 0) :
    ∃ known, codec = .builtin known := by
  cases codec with
  | builtin known => exact ⟨known, rfl⟩
  | custom codec => exact absurd negative (Int32.not_lt.mpr entitled)

end Codec

namespace Registry

variable {registry : Registry} {shown : Codec → String} {key : TypeKey} {codec : Codec}

/-- Every codec in use is entitled to its id, and ids are bound to codecs that report them. -/
structure Rightful (registry : Registry) : Prop where
  entitled : ∀ codec ∈ registry.instances, codec.Entitled
  numbered : registry.Numbered

/-- In a rightful registry a negative id leads to the built-in codec with this id, if to any. -/
theorem Rightful.lookupId (rightful : registry.Rightful) {id : Int32} (negative : id < 0)
    (bound : registry.lookupId id = some codec) :
    ∃ known : BuiltinCodec, codec = .builtin known ∧ known.typeId = id := by
  have own : codec.typeId = id := rightful.numbered.of_lookupId bound
  have entitled := rightful.entitled codec (mem_instances_of_lookupId bound)
  obtain ⟨known, rfl⟩ := entitled.builtin (own ▸ negative)
  exact ⟨known, rfl, own⟩

/-- An accepted fallback has its id bound, to itself or to another codec of its kind. -/
theorem anchors_of_registerFallback
    (accepted : (registerFallback shown codec registry).1 = .ok ()) :
    (registerFallback shown codec registry).2.Anchors codec := by
  rcases ran : registerFallback shown codec registry with ⟨failure | _, after⟩
  · rw [ran] at accepted
    cases accepted
  · obtain ⟨-, bound⟩ := registerFallback_ok ran
    obtain ⟨more, rfl, anchors, -⟩ := anchors_of_bindId bound
    exact anchors

theorem nonneg_of_register (accepted : (register shown key codec registry).1 = .ok ()) :
    ¬ codec.typeId < 0 := by
  rcases ran : register shown key codec registry with ⟨failure | _, after⟩
  · rw [ran] at accepted
    cases accepted
  · exact (register_ok ran).1

end Registry

namespace Service

variable {service : Service} {settings : Settings}

/-- Every negative id is bound to the codec it was bound to in a new service, or to nothing. -/
def KeepsNegativeIds (settings : Settings) (service : Service) : Prop :=
  ∀ id codec, id < 0 → service.codecForId id = some codec →
    (ofSettings settings).codecForId id = some codec

/-- If the use registers a fallback that is accepted, the codec is entitled to its id. -/
def Use.Honours (service : Service) : Use → Prop
  | .call (.registerFallback codec) =>
    (Service.registerFallback codec service).1 = .ok () → codec.Entitled
  | _ => True

theorem rightful_ofSettings (settings : Settings) : (ofSettings settings).registry.Rightful := by
  have new : Reachable (fun _ => True) (fun _ => True) (ofSettings settings) := .start trivial
  have entitled : ∀ codec ∈ (ofSettings .default).registry.instances, codec.Entitled := by decide
  exact ⟨entitled, new.numbered⟩

theorem codecForId_builtin (settings : Settings) (known : BuiltinCodec) :
    (ofSettings settings).codecForId known.typeId = some (.builtin known) := by
  cases known <;> rfl

theorem keepsNegativeIds_of_rightful (service : Service) (rightful : service.registry.Rightful) :
    service.KeepsNegativeIds settings := by
  intro id codec negative bound
  obtain ⟨known, rfl, rfl⟩ := rightful.lookupId negative bound
  exact codecForId_builtin settings known

/-- A use that honours the reservation leaves the registry rightful. -/
theorem Use.rightful (service : Service) (use : Use) (honours : use.Honours service)
    (rightful : service.registry.Rightful) : (use.perform service).registry.Rightful := by
  refine ⟨fun codec member => ?_, use.numbered rightful.numbered⟩
  rcases use.brings service codec member with old | introduced
  · exact rightful.entitled codec old
  · cases use with
    | call call =>
      cases call with
      | register key codec =>
        obtain ⟨accepted, rfl⟩ := introduced
        exact Codec.entitled_of_nonneg (Registry.nonneg_of_register accepted)
      | registerFallback codec =>
        obtain ⟨accepted, rfl⟩ := introduced
        exact honours accepted
      | _ => exact introduced.elim
    | _ => exact introduced.elim

/-- A use after which every negative id leads where it did honours the reservation. -/
theorem Use.honours_of_keeps (service : Service) (use : Use)
    (keeps : (use.perform service).KeepsNegativeIds settings) : use.Honours service := by
  unfold Use.Honours
  split
  case h_2 => trivial
  case h_1 codec =>
    intro accepted
    by_cases negative : codec.typeId < 0
    · obtain ⟨holder, bound, same⟩ := Registry.anchors_of_registerFallback accepted
      have first := keeps codec.typeId holder negative bound
      obtain ⟨known, rfl, -⟩ := (rightful_ofSettings settings).lookupId negative first
      cases codec with
      | builtin _ => trivial
      | custom _ => cases same
    · exact Codec.entitled_of_nonneg negative

/-- Along any run of a new service, every negative id is bound to the built-in codec it was bound to
    at first or to nothing, exactly if every fallback that is accepted along the run is built in or
    has an id that is not negative.  Then an envelope with a negative id is only ever made by a
    built-in codec, and one that holds something is either of unknown type or decoded by the
    built-in codec with its id. -/
theorem negative_ids_reserved (settings : Settings) (uses : List Use) :
    let final := uses.foldl Use.perform (ofSettings settings)
    (Along Use.Honours uses (ofSettings settings) ↔ ∀ front, front <+: uses →
      (front.foldl Use.perform (ofSettings settings)).KeepsNegativeIds settings) ∧
    (Along Use.Honours uses (ofSettings settings) →
      (∀ value e after, (∀ held, value ≠ .envelope held) →
        toData value final = (.ok (some e), after) → e.typeId < 0 →
        ∃ key known, value.typeKey? = some key ∧
          (final.registry.lookup key).1 = some (.builtin known) ∧ e.typeId = known.typeId) ∧
      ∀ e : Envelope, e.typeId < 0 → e.payload.isEmpty = false →
        toObject (some e) final = (.error (.unknownType e.typeId), final) ∨
          ∃ known : BuiltinCodec, known.typeId = e.typeId ∧
            toObject (some e) final =
              guarded id (fun service _ => service) (decodeBy (.builtin known) e) final) := by
  intro final
  have new := rightful_ofSettings settings
  refine ⟨along_iff new Use.rightful keepsNegativeIds_of_rightful Use.honours_of_keeps,
    fun honoured => ?_⟩
  have rightful : final.registry.Rightful := honoured.foldl new Use.rightful
  constructor
  · intro value e after fresh encoded negative
    obtain ⟨key, codec, typed, found, own, -⟩ := toData_ok fresh encoded
    have entitled := rightful.entitled codec (Registry.mem_instances_of_lookup found)
    obtain ⟨known, rfl⟩ := entitled.builtin (own ▸ negative)
    exact ⟨key, known, typed, found, own⟩
  · intro e negative holds
    cases bound : final.codecForId e.typeId with
    | none => exact .inl (toObject_of_unbound holds bound)
    | some holder =>
      obtain ⟨known, rfl, own⟩ := rightful.lookupId negative bound
      exact .inr ⟨known, own, toObject_of_bound holds bound⟩

/-- The id of texts is free once their codec is taken back, and no codec made to order takes it:
    neither a fallback with an id of its own nor one that is registered with this id. -/
theorem negative_ids_reserved_of_freed :
    let uses := [Use.call (.deregister .text),
      .call (.registerFallback (.custom ⟨"f", 0, 50, .typeName⟩)), .encode (.text "a"),
      .call (.register ⟨"a.A"⟩ (.custom ⟨"g", 1, -11, .typeName⟩))]
    let final := uses.foldl Use.perform (ofSettings .default)
    let e : Envelope := ⟨-11, [0], none, none⟩
    Along Use.Honours uses (ofSettings .default) ∧ final.KeepsNegativeIds .default ∧
      final.codecForId (-11) = none ∧
      (toObject (some e) final = (.error (.unknownType e.typeId), final) ∨
        ∃ known : BuiltinCodec, known.typeId = e.typeId ∧ toObject (some e) final =
          guarded id (fun service _ => service) (decodeBy (.builtin known) e) final) := by
  intro uses final e
  have honoured : Along Use.Honours uses (ofSettings .default) :=
    ⟨trivial, fun _ => by decide, trivial, trivial, trivial⟩
  obtain ⟨throughout, holds⟩ := negative_ids_reserved .default uses
  obtain ⟨-, decoded⟩ := holds honoured
  exact ⟨honoured, throughout.mp honoured uses (List.prefix_refl uses), by decide,
    decoded e (by decide) rfl⟩

/-- The registration of a fallback accepts a codec made to order under a negative id; values are
    encoded under that id from there on, and envelopes with it are decoded by that codec. -/
theorem negative_id_of_fallback :
    let codec : Codec := .custom ⟨"f", 0, -50, .typeName⟩
    let value : Value := .object (.carrying ⟨"a.A"⟩ none none)
    let service := (Service.registerFallback codec (ofSettings .default)).2
    (ofSettings .default).codecForId (-50) = none ∧ service.codecForId (-50) = some codec ∧
      ∃ e after, toData value service = (.ok (some e), after) ∧ e.typeId = -50 ∧
        (toObject (some e) after).1 = .ok (.text "a.A") := by
  exact ⟨by decide, by decide, _, _, rfl, rfl, rfl⟩

end Service

end ObjectWire
