import ObjectWire.Proofs.Act
import ObjectWire.Proofs.Service.Composition

/-!
# What encoding does to a service

Encoding touches the service in few ways: it looks codecs up, frames portable objects, makes the
compressed forms of definitions, and borrows buffers and gives them back.  A relation between
services that each of these respects, and that holds from a service to itself and along two changes
in a row, therefore relates the service before any encoding to the service after it, whether the
encoding succeeds or fails and however deep the value nests.
-/

namespace ObjectWire

namespace Service

/-- The single changes that encoding makes to a service stay within a relation. -/
structure Respects (related : Service → Service → Prop) : Prop where
  codecFor : ∀ key, (codecFor key).Within related
  close : ∀ p, (onContext (Frame.close p)).Within related
  binaryOf : ∀ definition, (onContext (PortableContext.binaryOf definition)).Within related
  borrow : ∀ service : Service, related service
    { service with context := { service.context with pool := service.context.pool.acquire.2 } }
  giveBack : ∀ (service : Service) (buffer : Output), related service
    { service with
      context := { service.context with pool := service.context.pool.release buffer } }

/-- The relation between the services behind two outputs in use. -/
def Behind (related : Service → Service → Prop) (before after : Writing) : Prop :=
  related before.service after.service

/-- What encoding a value comes down to stays within a relation. -/
structure Encoder.Stays (related : Service → Service → Prop) (encoder : Encoder) : Prop where
  write : ∀ codec, (encoder.write codec).Within (Behind related)
  frame : ∀ p, (encoder.frame p).Within (Behind related)
  keyHash : encoder.keyHash.Within related

/-- What the values inside a value contribute stays within a relation. -/
structure Contained (related : Service → Service → Prop) (parts : Parts) : Prop where
  steps : parts.steps.Within (Behind related)
  payload : ∀ step, parts.payload = some step → step.Within (Behind related)
  keyHash : parts.keyHash.Within related

variable {related : Service → Service → Prop} {α : Type}

theorem within_onService {step : Act Service α} (h : step.Within related) :
    (Writing.onService step).Within (Behind related) := by
  intro writing
  exact h writing.service

theorem Encoder.Stays.has {encoder : Encoder} (stays : encoder.Stays related) :
    encoder.Has (fun step => step.Within (Behind related)) (fun step => step.Within related) :=
  ⟨stays.write, stays.frame, stays.keyHash⟩

theorem Contained.stays {parts : Parts} (inside : Contained related parts) :
    parts.Have (fun step => step.Within (Behind related)) (fun step => step.Within related) :=
  ⟨inside.steps, inside.payload, inside.keyHash⟩

section Reflexive

variable [Std.Refl related]

instance : Std.Refl (Behind related) :=
  ⟨fun writing => Std.Refl.refl (r := related) writing.service⟩

theorem within_onOutput (step : Act Output α) :
    (Writing.onOutput step).Within (Behind related) := by
  intro writing
  show related writing.service (Act.on _ _ step writing).2.service
  unfold Act.on
  exact Std.Refl.refl writing.service

theorem contained_none : Contained related Parts.none :=
  ⟨Act.within_pure _, nofun, Act.within_pure _⟩

end Reflexive

section Transitive

variable [Trans related related related]

instance : Trans (Behind related) (Behind related) (Behind related) :=
  ⟨fun {a b c} (first : related a.service b.service) (second : related b.service c.service) =>
    (Trans.trans first second : related a.service c.service)⟩

theorem Respects.inBuffer {step : Act Writing α} (respects : Respects related)
    (h : step.Within (Behind related)) : (inBuffer step).Within related := by
  intro service
  let lent : Writing := ⟨service.context.pool.acquire.1,
    { service with context := { service.context with pool := service.context.pool.acquire.2 } },
    true⟩
  have returned := respects.giveBack (step lent).2.service (step lent).2.output
  exact Trans.trans (respects.borrow service) (Trans.trans (h lent) returned)

end Transitive

variable [Std.Refl related] [Trans related related related]

theorem within_writeDocument (o : UserObject) : (writeDocument o).Within (Behind related) := by
  refine Act.within_get.bind fun writing => ?_
  split
  case h_1 => exact Act.within_fail _
  case h_2 kind _ =>
    split
    case h_1 =>
      split
      case isTrue => exact (within_onOutput _).bind fun _ => within_onOutput _
      case isFalse => exact Act.within_fail _
    case h_2 => exact Act.within_fail _

namespace Respects

variable (respects : Respects related)
include respects

theorem codecForValue (value : Value) : (codecForValue value).Within related := by
  unfold Service.codecForValue
  split
  case h_1 => exact Act.within_fail _
  case h_2 key _ =>
    apply (respects.codecFor key).bind
    intro found
    cases found with
    | none => exact Act.within_fail _
    | some codec => exact Act.within_pure codec

theorem compressedForm (definition : ClassDefinition) :
    (Writing.compressedForm definition).Within (Behind related) := by
  refine Act.within_get.bind fun writing => ?_
  split
  case isTrue => exact within_onService (respects.binaryOf definition)
  case isFalse => exact Act.within_get.bind fun _ => within_onOutput _

/-- Staying within the relation is a property of all that encoding is made of. -/
theorem pervades : Pervades (fun step => step.Within (Behind related))
    (fun step => step.Within related) where
  writing := Act.composes_within
  service := Act.composes_within
  onOutput _ := within_onOutput _
  onService := within_onService
  codecForValue := respects.codecForValue
  close := respects.close
  compressedForm := respects.compressedForm
  writeDocument := within_writeDocument
  nested h := by
    refine Act.within_get.bind fun writing => ?_
    split
    case isTrue => exact h
    case isFalse => exact Act.within_fail _
  inBuffer := respects.inBuffer

theorem envelope (e : Option Envelope) : (Writing.envelope e).Within (Behind related) :=
  respects.pervades.envelope e

end Respects

namespace Encoder.Stays

variable {encoder : Encoder} (stays : encoder.Stays related) (respects : Respects related)
include stays respects

theorem writeValue (value : Value) : (encoder.writeValue value).Within (Behind related) :=
  respects.pervades.writeValue stays.has value

theorem writeNested (value : Value) : (encoder.writeNested value).Within (Behind related) :=
  respects.pervades.writeNested stays.has value

theorem hash (key : Value) : (encoder.hash key).Within related :=
  respects.pervades.hash stays.has key

theorem convert (value : Value) : (encoder.convert value).Within related :=
  respects.pervades.convert stays.has value

end Encoder.Stays

namespace Respects

variable (respects : Respects related) {parts : Parts} (inside : Contained related parts)
include respects inside

theorem writeBuiltin (codec : BuiltinCodec) (value : Value) :
    (writeBuiltin codec value parts).Within (Behind related) :=
  respects.pervades.writeBuiltin inside.stays codec value

theorem atHand (value : Value) : (Encoder.atHand value parts).Stays related := by
  have has := respects.pervades.atHand inside.stays value
  exact ⟨has.write, has.frame, has.keyHash⟩

theorem writeValueBy (value : Value) : (writeValueBy value parts).Within (Behind related) := by
  rw [writeValueBy_eq]
  exact (respects.atHand inside value).writeValue respects value

theorem writeDefined (codec : Codec) (value : Value) :
    (writeDefined codec value parts).Within (Behind related) := by
  rw [writeDefined_eq]
  exact respects.pervades.writeDefined (respects.pervades.atHand inside.stays value) codec value

end Respects

theorem contained_partsOf (respects : Respects related) (value : Value) :
    Contained related (partsOf value) := by
  have parts := respects.pervades.partsOf value
  exact ⟨parts.steps, parts.payload, parts.keyHash⟩

theorem within_encodeBy (respects : Respects related) (value : Value) :
    (encodeBy value (partsOf value)).Within related :=
  respects.pervades.encodeBy value

end Service

end ObjectWire
