import ObjectWire.Proofs.Portable.Borrowing
import ObjectWire.Proofs.Service.Dispatch

/-!
# What encoding is made of

Writing and encoding a value, however deep it nests, are made of few kinds of steps: bytes are put on
the output, codecs are looked up, portable objects are framed, compressed forms are made, documents
are written, and buffers are borrowed.  A property of steps that all of these have, and that carries
over from steps to what is made of them, is one of writing and of encoding any value.
-/

namespace ObjectWire

theorem Reading.borrows_write {levels : Nat} (r : Reading) : r.write.Borrows levels :=
  (Output.borrows_writeItem _).bind fun _ => (Output.borrows_writeItem _).bind fun _ =>
    (Output.borrows_writeItem _).bind fun _ => (Output.borrows_write _).bind fun _ =>
      (Output.borrows_write _).bind fun _ => (Output.borrows_write _).bind fun _ =>
        (Output.borrows_write _).bind fun _ => (Output.borrows_write _).bind fun _ =>
          Output.borrows_writeItem _

theorem PlainWrite.borrows_perform {levels : Nat} (write : PlainWrite) :
    write.perform.Borrows levels := by
  cases write with
  | scalar kind item => exact Output.borrows_writeItem _
  | bytes run => exact Output.borrows_write run
  | text s => exact Output.borrows_writeItem _
  | byteArray run => exact Output.borrows_writeItem _
  | intAt position n => exact Act.borrows_of_blind (Output.blind_patchInt position n)
  | clear => exact Act.borrows_of_blind fun _ _ _ => rfl
  | fail message => exact Act.borrows_fail _

/-- What the values inside a value contribute has a property. -/
structure Parts.Have (written : {α : Type} → Act Writing α → Prop)
    (served : {α : Type} → Act Service α → Prop) (parts : Parts) : Prop where
  steps : written parts.steps
  payload : ∀ step, parts.payload = some step → written step
  keyHash : served parts.keyHash

namespace Service

/-- The kinds of steps that encoding is made of have a property, which carries over to what is made
    of them. -/
structure Pervades (written : {α : Type} → Act Writing α → Prop)
    (served : {α : Type} → Act Service α → Prop) : Prop where
  writing : Act.Composes written
  service : Act.Composes served
  onOutput : ∀ {step : Act Output Unit}, step.Borrows 0 → written (Writing.onOutput step)
  onService : ∀ {α : Type} {step : Act Service α}, served step → written (Writing.onService step)
  codecForValue : ∀ value, served (codecForValue value)
  close : ∀ p, served (onContext (Frame.close p))
  compressedForm : ∀ definition, written (Writing.compressedForm definition)
  writeDocument : ∀ o, written (writeDocument o)
  nested : ∀ {step : Act Writing Unit}, written step → written (do
    if (← get).bound then step else Act.fail (.unboundOutput "write_object"))
  inBuffer : ∀ {α : Type} {step : Act Writing α}, written step → served (inBuffer step)

/-- What encoding a value comes down to has a property. -/
structure Encoder.Has (written : {α : Type} → Act Writing α → Prop)
    (served : {α : Type} → Act Service α → Prop) (encoder : Encoder) : Prop where
  write : ∀ codec, written (encoder.write codec)
  frame : ∀ p, written (encoder.frame p)
  keyHash : served encoder.keyHash

variable {written : {α : Type} → Act Writing α → Prop} {served : {α : Type} → Act Service α → Prop}

namespace Pervades

variable (pervades : Pervades written served)
include pervades

theorem put (run : Bytes) : written (Writing.onOutput (Output.write run)) :=
  pervades.onOutput (Output.borrows_write run)

theorem putItem (item : Except Failure Bytes) : written (Writing.onOutput (Output.writeItem item)) :=
  pervades.onOutput (Output.borrows_writeItem item)

theorem envelope (e : Option Envelope) : written (Writing.envelope e) := by
  cases e with
  | none => exact pervades.put _
  | some e =>
    obtain ⟨typeId, payload, definition, explicitHash⟩ := e
    have tail : ∀ mark : Bytes, written (do
        Writing.onOutput (Output.write mark)
        Writing.onOutput (Output.writeItem (Wire.byteArray payload))) :=
      fun _ => pervades.writing.bind (pervades.put _) fun _ => pervades.putItem _
    apply pervades.writing.bind (pervades.put _)
    intro _
    cases definition with
    | none =>
      apply pervades.writing.bind (pervades.put _)
      intro _
      cases explicitHash <;> exact tail _
    | some definition =>
      apply pervades.writing.bind (pervades.compressedForm definition)
      intro _
      apply pervades.writing.bind (pervades.put _)
      intro _
      apply pervades.writing.bind (pervades.putItem _)
      intro _
      cases explicitHash <;> exact tail _

theorem writePortable (p : Portable) : written (writePortable p) := by
  apply pervades.writing.bind (pervades.onService (pervades.close p))
  intro frame
  exact pervades.writing.bind (pervades.onOutput (Frame.borrows_write frame))
    fun _ => pervades.writing.pure _

section Encoder

variable {encoder : Encoder} (has : encoder.Has written served)
include has

theorem writeDefined (codec : Codec) (value : Value) :
    written (encoder.writeDefined codec value) := by
  have plainly : written (do
      encoder.write codec
      pure (none : Option ClassDefinition)) :=
    pervades.writing.bind (has.write codec) fun _ => pervades.writing.pure _
  unfold Encoder.writeDefined
  split
  case h_1 p =>
    split
    case isTrue => exact pervades.writing.map (has.frame p) _
    case isFalse => exact plainly
  case h_2 => exact plainly

theorem writeValue (value : Value) : written (encoder.writeValue value) := by
  unfold Encoder.writeValue
  split
  case h_1 => exact pervades.writing.fail _
  case h_2 => exact pervades.put _
  case h_3 =>
    apply pervades.writing.bind (pervades.onService (pervades.codecForValue _))
    intro codec
    exact pervades.writing.bind (pervades.put _) fun _ => has.write codec

theorem writeNested (value : Value) : written (encoder.writeNested value) :=
  pervades.nested (pervades.writeValue has value)

theorem encode (value : Value) : served (encoder.encode value) := by
  apply pervades.service.bind (pervades.codecForValue value)
  intro codec
  apply pervades.service.bind (pervades.inBuffer (pervades.writeDefined has codec value))
  intro answer
  exact pervades.service.bind has.keyHash fun hash => pervades.service.pure _

theorem hash (key : Value) : served (encoder.hash key) := by
  unfold Encoder.hash
  split
  case h_1 => exact pervades.service.pure _
  case h_2 => exact pervades.service.pure _
  case h_3 => exact pervades.service.bind (pervades.encode has _) fun _ => pervades.service.pure _

theorem convert (value : Value) : served (encoder.convert value) := by
  unfold Encoder.convert
  split
  case h_1 => exact pervades.service.pure _
  case h_2 => exact pervades.service.pure _
  case h_3 => exact pervades.service.map (pervades.encode has _) _

end Encoder

theorem none : Parts.none.Have written served :=
  ⟨pervades.writing.pure _, nofun, pervades.service.pure _⟩

section Parts

variable {parts : Parts} (inside : parts.Have written served)
include inside

theorem writeBuiltin (codec : BuiltinCodec) (value : Value) :
    written (writeBuiltin codec value parts) := by
  unfold Service.writeBuiltin
  split
  case h_8 p =>
    exact pervades.writing.bind (pervades.writePortable p) fun _ => pervades.writing.pure _
  case h_9 o => exact pervades.writing.bind (pervades.put _) fun _ => inside.steps
  case h_10 o => exact pervades.writeDocument o
  case h_11 => exact pervades.writing.fail _
  all_goals first | exact pervades.put _ | exact pervades.putItem _

theorem writeCustom (codec : CustomCodec) (value : Value) :
    written (writeCustom codec value parts) := by
  unfold Service.writeCustom
  split
  case h_1 => exact pervades.putItem _
  case h_2 => exact pervades.writing.pure _
  case h_3 =>
    apply pervades.writing.bind (pervades.put _)
    intro _
    cases held : parts.payload with
    | none => exact pervades.writing.pure _
    | some step => exact inside.payload step held
  case h_4 => split <;> exact pervades.envelope _
  case h_5 => exact pervades.writing.bind (pervades.put _) fun _ => pervades.writing.fail _

theorem writeBy (codec : Codec) (value : Value) : written (writeBy codec value parts) := by
  cases codec with
  | builtin codec => exact pervades.writeBuiltin inside codec value
  | custom codec => exact pervades.writeCustom inside codec value

theorem atHand (value : Value) : (Encoder.atHand value parts).Has written served :=
  ⟨fun codec => pervades.writeBy inside codec value, pervades.writePortable, inside.keyHash⟩

theorem writeNestedBy (value : Value) : written (writeNestedBy value parts) := by
  rw [writeNestedBy_eq]
  exact pervades.writeNested (pervades.atHand inside value) value

theorem keyHashBy (key : Value) : served (keyHashBy key parts) := by
  rw [keyHashBy_eq]
  exact pervades.hash (pervades.atHand inside key) key

end Parts

/-! The parts of a value, by recursion over the value. -/

mutual

theorem partsOf : (value : Value) → (Service.partsOf value).Have written served
  | .portable p => partsOfPortable p
  | .identified o => partsOfIdentified o
  | .object o => partsOfObject o
  | .null | .text _ | .integer _ | .long _ | .boolean _ | .bytes _ | .instant _ | .bigInteger _
  | .envelope _ => pervades.none

theorem partsOfPortable : (p : Portable) → (Service.partsOfPortable p).Have written served
  | .scripted _ _ _ key _ => ⟨pervades.writing.pure _, nofun, keyHash key⟩
  | .link .. | .silent _ | .customer _ => pervades.none

theorem partsOfIdentified : (o : Identified) → (Service.partsOfIdentified o).Have written served
  | .scripted _ _ writes key _ => ⟨performAll writes, nofun, keyHash key⟩
  | .reading r => ⟨pervades.onOutput r.borrows_write, nofun, pervades.service.pure _⟩

theorem partsOfObject : (o : UserObject) → (Service.partsOfObject o).Have written served
  | .carrying _ payload key => ⟨pervades.writing.pure _, writePayload payload, keyHash key⟩
  | .record .. => pervades.none

theorem performAll : (steps : List OutputStep) → written (Service.performAll steps)
  | [] => pervades.writing.pure _
  | step :: steps => pervades.writing.bind (perform step) fun _ => performAll steps

theorem perform : (step : OutputStep) → written (Service.perform step)
  | .plain write => pervades.onOutput write.borrows_perform
  | .object value => pervades.writeNestedBy (partsOf value) value
  | .envelope e => pervades.envelope e

theorem writePayload : (payload : Option Value) → ∀ step,
    Service.writePayload payload = some step → written step
  | .none => nofun
  | some value => fun step h => by
    cases h
    exact pervades.writeNestedBy (partsOf value) value

theorem keyHash : (key : Option Value) → served (Service.keyHash key)
  | .none => pervades.service.pure _
  | some key => pervades.keyHashBy (partsOf key) key

end

theorem encodeBy (value : Value) : served (encodeBy value (Service.partsOf value)) := by
  rw [encodeBy_eq]
  exact pervades.encode (pervades.atHand (pervades.partsOf value) value) value

end Pervades

end Service

end ObjectWire
