import ObjectWire.Service.Reading
import ObjectWire.Service.Writing

/-!
# How the service calls codecs

The service finds the codec for a value or for a type id, has it called, and puts what comes of it
in its place.  None of this depends on what codecs do.  Here it is set apart from that: an `Encoder`
is what encoding a value comes down to, whoever does it, and a `Decoder` is what reading by a codec
comes down to.  The codecs at hand are one case.
-/

namespace ObjectWire.Service

/-- What encoding a value comes down to. -/
structure Encoder where
  /-- What a codec writes for the value. -/
  write : Codec → Act Writing Unit
  /-- How the frame of a portable object is written; answers with its definition. -/
  frame : Portable → Act Writing ClassDefinition
  /-- The partition hash that the key yields, if it yields one. -/
  keyHash : Act Service (Option Int32)

namespace Encoder

/-- The codecs at hand. -/
def atHand (value : Value) (parts : Parts) : Encoder :=
  ⟨fun codec => writeBy codec value parts, writePortable, parts.keyHash⟩

/-- Writes a value as an object: the type id, then what the codec or an envelope has. -/
def writeValue (encoder : Encoder) (value : Value) : Act Writing Unit :=
  match value with
  | .null => Act.fail .nullObject
  | .envelope e => Writing.onOutput (Output.write (Wire.int e.typeId ++ e.payload))
  | value => do
    let codec ← Writing.onService (codecForValue value)
    Writing.onOutput (Output.write (Wire.int codec.typeId))
    encoder.write codec

/-- Writes an object inside an object, which takes a bound output. -/
def writeNested (encoder : Encoder) (value : Value) : Act Writing Unit := do
  if (← get).bound then encoder.writeValue value
  else Act.fail (.unboundOutput "write_object")

/-- Writes a value by its codec and answers with the definition, if it is a portable object that
    goes by the portable type id. -/
def writeDefined (encoder : Encoder) (codec : Codec) (value : Value) :
    Act Writing (Option ClassDefinition) :=
  match value with
  | .portable p =>
    if codec.typeId = BuiltinCodec.portable.typeId then some <$> encoder.frame p
    else do
      encoder.write codec
      pure none
  | _ => do
    encoder.write codec
    pure none

/-- Encodes a value into an envelope. -/
def encode (encoder : Encoder) (value : Value) : Act Service Envelope := do
  let codec ← codecForValue value
  let (definition, payload) ← inBuffer (encoder.writeDefined codec value)
  let hash ← encoder.keyHash
  pure ⟨codec.typeId, payload, definition, hash⟩

/-- The partition hash that a key yields: none if it is nothing, that of an envelope, or else that
    of its encoding. -/
def hash (encoder : Encoder) (key : Value) : Act Service (Option Int32) :=
  match key with
  | .null => pure none
  | .envelope e => pure (some e.partitionHash)
  | key => do return some (← encoder.encode key).partitionHash

/-- Encodes a value, unreported.  Nothing yields no envelope, and an envelope yields itself. -/
def convert (encoder : Encoder) (value : Value) : Act Service (Option Envelope) :=
  match value with
  | .null => pure none
  | .envelope e => pure (some e)
  | value => some <$> encoder.encode value

/-- Encodes a value. -/
def toData (encoder : Encoder) (value : Value) : Act Service (Option Envelope) :=
  guarded id (fun service _ => service) (encoder.convert value)

/-- Writes a value to an output that is not bound to the service. -/
def writeObject (encoder : Encoder) (value : Value) : Act Writing Unit :=
  guarded Writing.service (fun service writing => { writing with service := service })
    (encoder.writeValue value)

end Encoder

theorem writeValueBy_eq (value : Value) (parts : Parts) :
    writeValueBy value parts = (Encoder.atHand value parts).writeValue value := by
  cases value <;> rfl

theorem writeNestedBy_eq (value : Value) (parts : Parts) :
    writeNestedBy value parts = (Encoder.atHand value parts).writeNested value := by
  unfold writeNestedBy
  rw [writeValueBy_eq]
  rfl

theorem writeDefined_eq (codec : Codec) (value : Value) (parts : Parts) :
    writeDefined codec value parts = (Encoder.atHand value parts).writeDefined codec value := by
  cases value <;> rfl

theorem encodeBy_eq (value : Value) (parts : Parts) :
    encodeBy value parts = (Encoder.atHand value parts).encode value := by
  unfold encodeBy
  simp only [writeDefined_eq]
  rfl

theorem keyHashBy_eq (key : Value) (parts : Parts) :
    keyHashBy key parts = (Encoder.atHand key parts).hash key := by
  cases key <;> simp only [keyHashBy, Encoder.hash, encodeBy_eq]

theorem toData_eq (value : Value) :
    toData value = (Encoder.atHand value (partsOf value)).toData value := by
  cases value <;> simp only [toData, Encoder.toData, Encoder.convert, encodeBy_eq] <;> rfl

theorem writeObject_eq (value : Value) :
    writeObject value = (Encoder.atHand value (partsOf value)).writeObject value := by
  unfold writeObject
  rw [writeValueBy_eq]
  rfl

/-- What reading comes down to: a value by a codec. -/
structure Decoder where
  read : Codec → Act Receiving Value

namespace Decoder

/-- The codecs at hand, where `nested` reads an object inside the object. -/
def atHand (nested : Act Receiving Value) : Decoder := ⟨readBy nested⟩

/-- Reads a value behind its type id. -/
def readValue (decoder : Decoder) : Act Receiving Value := do
  let id ← Receiving.onInput Input.int
  match (← get).service.codecForId id with
  | none => Act.fail (.unknownType id)
  | some codec => do
    let value ← decoder.read codec
    pure ((← get).service.handOut value)

/-- Decodes an envelope. -/
def decode (decoder : Decoder) (e : Envelope) : Act Service Value := do
  match (← get).codecForId e.typeId with
  | none => Act.fail (.unknownType e.typeId)
  | some codec => do
    adopt e
    let value ← fun service =>
      match decoder.read codec ⟨.ofBytes e.payload, service, true⟩ with
      | (outcome, reached) => (outcome, reached.service)
    pure ((← get).handOut value)

/-- Decodes an envelope, unreported.  No envelope and an empty one stand for nothing. -/
def revert (decoder : Decoder) (e : Option Envelope) : Act Service Value :=
  match e with
  | none => pure .null
  | some e => if e.payload.isEmpty then pure .null else decoder.decode e

/-- Decodes an envelope. -/
def toObject (decoder : Decoder) (e : Option Envelope) : Act Service Value :=
  guarded id (fun service _ => service) (decoder.revert e)

/-- Reads a value from an input bound to the service. -/
def readObject (decoder : Decoder) : Act Receiving Value :=
  guarded Receiving.service (fun service receiving => { receiving with service := service })
    decoder.readValue

end Decoder

theorem readTagged_eq (nested : Act Receiving Value) :
    readTagged nested = (Decoder.atHand nested).readValue := rfl

theorem readValue_eq (receiving : Receiving) :
    readValue receiving =
      (Decoder.atHand (readWithin receiving.input.remaining)).readValue receiving := rfl

theorem decode_eq (e : Envelope) : decode e = (Decoder.atHand readValue).decode e := rfl

theorem toObject_eq (e : Option Envelope) :
    toObject e = (Decoder.atHand readValue).toObject e := by
  cases e with
  | none => rfl
  | some e =>
    unfold toObject Decoder.toObject Decoder.revert
    dsimp only
    split
    case isTrue => rfl
    case isFalse => rfl

end ObjectWire.Service
