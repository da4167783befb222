import ObjectWire.Proofs.Act
import ObjectWire.Proofs.Service.Dispatch
import ObjectWire.Proofs.Service.Guarded

/-!
# What decoding does to a service

Decoding touches the service in few ways: it registers the definition that an envelope brings, it
imports definitions that arrive in compressed form, and where it is called from outside the handler
may hear that memory ran out.  A relation between services that each of these accepts, and that
holds from a service to itself and along two changes in a row, therefore relates the service before
any decoding to the service after it, whether the decoding succeeds or fails and however deep the
value nests.
-/

namespace ObjectWire

namespace Service

/-- The single changes that reading a value makes to a service stay within a relation: it imports
    definitions. -/
structure Imports (related : Service → Service → Prop) : Prop where
  importCompressed : ∀ form, (onContext (PortableContext.importCompressed form)).Within related

/-- The single changes that learning definitions makes to a service stay within a relation: those
    that are imported, and those that envelopes bring. -/
structure Learns (related : Service → Service → Prop) : Prop extends Imports related where
  register : ∀ definition, (onContext (PortableContext.register definition)).Within related

/-- The single changes that decoding makes to a service stay within a relation. -/
structure Accepts (related : Service → Service → Prop) : Prop extends Learns related where
  report : ∀ failure service, related service (report failure service).2

/-- The relation between the services behind two inputs in use. -/
def Beneath (related : Service → Service → Prop) (before after : Receiving) : Prop :=
  related before.service after.service

variable {related : Service → Service → Prop} [Std.Refl related] {α : Type}

instance : Std.Refl (Beneath related) :=
  ⟨fun receiving => Std.Refl.refl (r := related) receiving.service⟩

theorem within_onInput (step : Act Input α) : (Receiving.onInput step).Within (Beneath related) :=
  fun receiving => Std.Refl.refl (r := related) receiving.service

variable [Trans related related related]

instance : Trans (Beneath related) (Beneath related) (Beneath related) :=
  ⟨fun {a b c} (first : related a.service b.service) (second : related b.service c.service) =>
    (Trans.trans first second : related a.service c.service)⟩

/-- Adopting the definition that an envelope brings stays within a relation if registering it
    does. -/
theorem within_adopt {e : Envelope} (register : ∀ definition, e.definition = some definition →
    (onContext (PortableContext.register definition)).Within related) :
    (adopt e).Within related := by
  unfold Service.adopt
  split
  case h_1 => exact Act.within_pure _
  case h_2 definition brought =>
    refine Act.within_get.bind fun service => ?_
    split
    case h_1 => exact Act.within_pure _
    case h_2 => exact (register definition brought).bind fun _ => Act.within_pure _

theorem Learns.adopt (learns : Learns related) (e : Envelope) : (adopt e).Within related :=
  within_adopt fun definition _ => learns.register definition

/-- Reading by a codec stays within a relation. -/
structure Decoder.Stays (related : Service → Service → Prop) (decoder : Decoder) : Prop where
  read : ∀ codec, (decoder.read codec).Within (Beneath related)

namespace Decoder.Stays

variable {decoder : Decoder} (stays : decoder.Stays related)
include stays

theorem readValue : decoder.readValue.Within (Beneath related) := by
  apply (within_onInput _).bind
  intro id
  refine Act.within_get.bind fun receiving => ?_
  split
  case h_1 => exact Act.within_fail _
  case h_2 codec _ =>
    apply (stays.read codec).bind
    intro value
    exact Act.within_get.bind fun _ => Act.within_pure _

theorem decode {e : Envelope} (adopts : (adopt e).Within related) :
    (decoder.decode e).Within related := by
  refine Act.within_get.bind fun service => ?_
  split
  case h_1 => exact Act.within_fail _
  case h_2 codec _ =>
    apply adopts.bind
    intro _
    refine Act.Within.bind ?_ fun value => Act.within_get.bind fun _ => Act.within_pure _
    exact fun service => stays.read codec ⟨.ofBytes e.payload, service, true⟩

theorem revert {e : Option Envelope}
    (adopts : ∀ brought, e = some brought → (adopt brought).Within related) :
    (decoder.revert e).Within related := by
  cases e with
  | none => exact Act.within_pure _
  | some e =>
    unfold Decoder.revert
    dsimp only
    split
    case isTrue => exact Act.within_pure _
    case isFalse => exact stays.decode (adopts e rfl)

end Decoder.Stays

namespace Imports

variable (imports : Imports related)
include imports

theorem resolve (key : ClassKey) (compressed : Bytes) :
    (Receiving.resolve key compressed).Within (Beneath related) := by
  refine Act.within_get.bind fun receiving => ?_
  split
  case isTrue =>
    refine Act.within_get.bind fun receiving => ?_
    split
    case h_1 => exact Act.within_pure _
    case h_2 => exact fun receiving => imports.importCompressed compressed receiving.service
  case isFalse => exact Act.within_fail _

theorem envelope : Receiving.envelope.Within (Beneath related) := by
  apply (within_onInput _).bind
  intro present
  split
  case isFalse => exact Act.within_pure _
  case isTrue =>
    have rest : ∀ typeId (definition : Option ClassDefinition), (do
        let hash ← do
          if ← Receiving.onInput Input.bool then some <$> Receiving.onInput Input.int
          else pure none
        let payload ← Receiving.onInput Input.byteArray
        pure (some (⟨typeId, payload, definition, hash⟩ : Envelope))).Within (Beneath related) := by
      intro typeId definition
      apply (within_onInput _).bind
      intro brought
      split
      case isTrue =>
        exact ((within_onInput _).map _).bind fun _ =>
          (within_onInput _).bind fun _ => Act.within_pure _
      case isFalse =>
        exact (Act.within_pure _).bind fun _ => (within_onInput _).bind fun _ => Act.within_pure _
    apply (within_onInput _).bind
    intro typeId
    apply (within_onInput _).bind
    intro brought
    split
    case isFalse => exact (Act.within_pure _).bind (rest typeId)
    case isTrue =>
      apply (within_onInput _).bind
      intro key
      apply (within_onInput _).bind
      intro compressed
      apply (imports.resolve key compressed).bind
      intro definition
      split
      case isTrue => exact (Act.within_pure _).bind (rest typeId)
      case isFalse => exact (Act.within_fail _).bind (rest typeId)

omit imports in
theorem object {nested : Act Receiving Value} (inside : nested.Within (Beneath related)) :
    (Receiving.object nested).Within (Beneath related) := by
  refine Act.within_get.bind fun receiving => ?_
  split
  case isTrue => exact inside
  case isFalse => exact Act.within_fail _

theorem performRead {nested : Act Receiving Value} (inside : nested.Within (Beneath related))
    (step : InputStep) : (performRead nested step).Within (Beneath related) := by
  cases step with
  | plain read => exact within_onInput _
  | object => exact (object inside).map _
  | envelope => exact imports.envelope.map _

theorem performPlan {nested : Act Receiving Value} (inside : nested.Within (Beneath related))
    (plan : InputPlan) : (performPlan nested plan).Within (Beneath related) := by
  induction plan with
  | done => exact Act.within_pure _
  | step read next ih =>
    apply (imports.performRead inside read).bind
    intro first
    exact (ih first).bind fun _ => Act.within_pure _

theorem readIdentified {nested : Act Receiving Value} (inside : nested.Within (Beneath related))
    (blank : BlankIdentified) : (readIdentified nested blank).Within (Beneath related) := by
  cases blank with
  | planned factoryId classId plan =>
    exact (imports.performPlan inside plan).bind fun _ => Act.within_pure _
  | reading => exact (within_onInput _).map _

omit imports in
theorem readDocument : readDocument.Within (Beneath related) := by
  apply (within_onInput _).bind
  intro key
  refine Act.within_get.bind fun receiving => ?_
  split
  case h_1 => exact Act.within_fail _
  case h_2 =>
    apply (within_onInput _).bind
    intro document
    split
    case h_1 => exact Act.within_pure _
    case h_2 => exact Act.within_fail _

theorem readBuiltin {nested : Act Receiving Value} (inside : nested.Within (Beneath related))
    (codec : BuiltinCodec) : (readBuiltin nested codec).Within (Beneath related) := by
  cases codec with
  | portable => exact Act.within_get.bind fun _ => (within_onInput _).map _
  | identified =>
    apply (within_onInput _).bind
    intro factoryId
    apply (within_onInput _).bind
    intro classId
    refine Act.within_get.bind fun receiving => ?_
    split
    case h_1 => exact Act.within_fail _
    case h_2 blank _ => exact (imports.readIdentified inside blank).map _
  | document => exact readDocument.map _
  | _ => exact within_onInput _

theorem readCustom {nested : Act Receiving Value} (inside : nested.Within (Beneath related))
    (codec : CustomCodec) : (readCustom nested codec).Within (Beneath related) := by
  unfold Service.readCustom
  split
  case h_1 => exact within_onInput _
  case h_2 => exact Act.within_pure _
  case h_3 =>
    apply (within_onInput _).bind
    intro present
    split
    case isTrue => exact ((object inside).map _).bind fun _ => Act.within_pure _
    case isFalse => exact (Act.within_pure _).bind fun _ => Act.within_pure _
  case h_4 => exact imports.envelope.bind fun _ => Act.within_pure _
  case h_5 => exact Act.within_fail _

theorem readBy {nested : Act Receiving Value} (inside : nested.Within (Beneath related))
    (codec : Codec) : (readBy nested codec).Within (Beneath related) := by
  cases codec with
  | builtin codec => exact imports.readBuiltin inside codec
  | custom codec => exact imports.readCustom inside codec

theorem readTagged {nested : Act Receiving Value} (inside : nested.Within (Beneath related)) :
    (readTagged nested).Within (Beneath related) := by
  have stays : (Decoder.atHand nested).Stays related := ⟨imports.readBy inside⟩
  rw [readTagged_eq]
  exact stays.readValue

theorem readWithin (levels : Nat) : (readWithin levels).Within (Beneath related) := by
  induction levels with
  | zero => exact Act.within_fail _
  | succ levels ih => exact imports.readTagged ih

theorem readValue : readValue.Within (Beneath related) := by
  intro receiving
  have stays : (Decoder.atHand (Service.readWithin receiving.input.remaining)).Stays related :=
    ⟨imports.readBy (imports.readWithin _)⟩
  rw [readValue_eq]
  exact stays.readValue receiving

section Outside

variable (report : ∀ failure service, related service (Service.report failure service).2)
include report

theorem readObject : readObject.Within (Beneath related) :=
  within_guarded (fun failure receiving => report failure receiving.service)
    (fun _ _ => Iff.rfl) (fun _ _ => rfl) imports.readValue

theorem toObject {e : Option Envelope}
    (adopts : ∀ brought, e = some brought → (adopt brought).Within related) :
    (toObject e).Within related := by
  have stays : (Decoder.atHand Service.readValue).Stays related :=
    ⟨imports.readBy imports.readValue⟩
  rw [toObject_eq]
  exact within_guarded report (fun _ _ => Iff.rfl) (fun _ _ => rfl) (stays.revert adopts)

end Outside

end Imports

theorem Learns.decode (learns : Learns related) (e : Envelope) : (decode e).Within related := by
  have stays : (Decoder.atHand readValue).Stays related := ⟨learns.readBy learns.readValue⟩
  rw [decode_eq]
  exact stays.decode (learns.adopt e)

namespace Accepts

variable (accepts : Accepts related)
include accepts

theorem readObject : readObject.Within (Beneath related) :=
  accepts.toImports.readObject accepts.report

theorem toObject (e : Option Envelope) : (toObject e).Within related :=
  accepts.toImports.toObject accepts.report fun brought _ => accepts.adopt brought

end Accepts

end Service

end ObjectWire
