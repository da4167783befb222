import ObjectWire.ClassDefinition.Layout
import ObjectWire.Envelope

/-!
# Envelopes in transit

An envelope travels as its type id, its definition in compressed form under its class and version,
its explicit hash and its payload; flags say which of them are there.  How a compressed form is
come by and what becomes of one that arrives depends on the place, so both are parameters.
-/

namespace ObjectWire.Transport

variable {σ : Type}

/-- Writes an envelope, or the mark for none. -/
def write (onOutput : Act Output Unit → Act σ Unit)
    (compressedForm : ClassDefinition → Act σ Bytes) : Option Envelope → Act σ Unit
  | none => onOutput (Output.write (Wire.bool false))
  | some envelope => do
    onOutput (Output.write (Wire.bool true ++ Wire.int envelope.typeId))
    match envelope.definition with
    | none => onOutput (Output.write (Wire.bool false))
    | some definition => do
      let compressed ← compressedForm definition
      onOutput (Output.write (Wire.bool true ++ Wire.classKey definition.key))
      onOutput (Output.writeItem (Wire.byteArray compressed))
    match envelope.explicitHash with
    | none => onOutput (Output.write (Wire.bool false))
    | some hash => onOutput (Output.write (Wire.bool true ++ Wire.int hash))
    onOutput (Output.writeItem (Wire.byteArray envelope.payload))

/-- Reads an envelope, or the mark for none.  `resolve` yields the definition for a class and
    version that arrives in a compressed form; it must be the one that the envelope names. -/
def read (onInput : {α : Type} → Act Input α → Act σ α)
    (resolve : ClassKey → Bytes → Act σ ClassDefinition) : Act σ (Option Envelope) := do
  if ← onInput Input.bool then
    let typeId ← onInput Input.int
    let definition ← do
      if ← onInput Input.bool then
        let key ← onInput Input.classKey
        let compressed ← onInput Input.byteArray
        let definition ← resolve key compressed
        if definition.key = key then pure (some definition)
        else
          Act.fail
            (.headerMismatch key.classId key.version definition.classId definition.version)
      else pure none
    let hash ← do
      if ← onInput Input.bool then some <$> onInput Input.int else pure none
    let payload ← onInput Input.byteArray
    pure (some ⟨typeId, payload, definition, hash⟩)
  else pure none

/-- The compressed form of a definition where no service is there to make one. -/
def formAtHand (forms : CompressedForms) (definition : ClassDefinition) : Act Output Bytes :=
  match forms.formOf definition with
  | some form => pure form
  | none => Act.fail (.noCompressedForm definition.classId definition.version)

/-- Writes an envelope to an output without a service. -/
def writeUnbound (forms : CompressedForms) (envelope : Option Envelope) : Act Output Unit :=
  write id (formAtHand forms) envelope

/-- Reads an envelope from an input without a service; it must not bring a definition. -/
def readUnbound : Act Input (Option Envelope) :=
  read id fun _ _ => Act.fail (.unboundInput "read_data")

/-- The wire form of an envelope that brings a definition, taken apart: what stands in front of the
    length of the compressed form, the compressed form, and what follows it. -/
def takeApart? (run : Bytes) : Option (Bytes × Bytes × Bytes) :=
  if 18 ≤ run.length && run.getD 0 0 ≠ 0 && run.getD 5 0 ≠ 0 then
    let size := BigEndian.decode ((run.drop 14).take 4)
    some (run.take 14, (run.drop 18).take size, run.drop (18 + size))
  else none

end ObjectWire.Transport
