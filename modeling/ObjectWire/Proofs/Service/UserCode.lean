import ObjectWire.Proofs.Service.Decoding
import ObjectWire.Proofs.Service.Encoding

/-!
# User code

Codecs made to order, objects that write and read themselves, and partition keys are user code, and
nothing is known of it but what it has at hand.  Writing code appends to the output, has values
written inside its own, and may look at what was written so far; reading code takes from the input
and has values read inside its own.  After each step it goes on as the outcome says, and the outcome
may be a failure, which it may swallow; in the end it fails in any way it likes or comes to an end.
Portable objects have nothing at hand but the class definitions and what is read; what they do is
any step on these.

As a run ends, what user code does in it is a tree: of every value that it has written or read
inside its own, the tree also has what user code does about that value.
-/

namespace ObjectWire

namespace Service

mutual

/-- What user code does with an output. -/
inductive WritingCode
  | done
  | fail (failure : Failure)
  /-- Goes on as what was written so far says. -/
  | inspect (next : Output → WritingCode)
  | plain (write : PlainWrite) (next : Except Failure Unit → WritingCode)
  /-- Has a value written as an object inside the object. -/
  | object (value : Value) (conduct : Conduct) (next : Except Failure Unit → WritingCode)
  | envelope (e : Option Envelope) (next : Except Failure Unit → WritingCode)

/-- What user code does about a value that is written: how portable objects are framed, the steps of
    an identified object, and what a codec made to order writes. -/
inductive Conduct
  | keyless (close : Portable → Act PortableContext Frame.Closed) (steps : WritingCode)
    (custom : CustomCodec → WritingCode)
  /-- It also has a partition key. -/
  | keyed (close : Portable → Act PortableContext Frame.Closed) (steps : WritingCode)
    (custom : CustomCodec → WritingCode) (key : Value) (keyConduct : Conduct)

end

/-- Writes the frame that a portable object is given and answers with its definition. -/
def writeFrame (close : Portable → Act PortableContext Frame.Closed) (p : Portable) :
    Act Writing ClassDefinition := do
  let frame ← Writing.onService (onContext (close p))
  Writing.onOutput frame.write
  pure frame.definition

example (p : Portable) : writePortable p = writeFrame Frame.close p := rfl

/-- What encoding a value comes down to, given what user code does. -/
def Encoder.ofUser (value : Value) (close : Portable → Act PortableContext Frame.Closed)
    (steps : Act Writing Unit) (custom : CustomCodec → Act Writing Unit)
    (keyHash : Act Service (Option Int32)) : Encoder where
  write
    | .builtin .portable =>
      match value with
      | .portable p => do
        let _ ← writeFrame close p
      | value => writeBuiltin .portable value .none
    | .builtin codec => writeBuiltin codec value { Parts.none with steps := steps }
    | .custom codec => custom codec
  frame := writeFrame close
  keyHash := keyHash

mutual

/-- Runs user code on an output. -/
def WritingCode.run : WritingCode → Act Writing Unit
  | .done => pure ()
  | .fail failure => Act.fail failure
  | .inspect next => fun writing => (next writing.output).run writing
  | .plain write next => do
    let outcome ← (Writing.onOutput write.perform).attempt
    (next outcome).run
  | .object value conduct next => do
    let outcome ← ((conduct.encoder value).writeNested value).attempt
    (next outcome).run
  | .envelope e next => do
    let outcome ← (Writing.envelope e).attempt
    (next outcome).run
termination_by structural code => code

/-- What encoding a value comes down to. -/
def Conduct.encoder (value : Value) : Conduct → Encoder
  | .keyless close steps custom =>
    .ofUser value close steps.run (fun codec => (custom codec).run) (pure none)
  | .keyed close steps custom key keyConduct =>
    .ofUser value close steps.run (fun codec => (custom codec).run)
      ((keyConduct.encoder key).hash key)
termination_by structural conduct => conduct

end

mutual

/-- What user code does with an input. -/
inductive ReadingCode
  | answer (value : Value)
  | fail (failure : Failure)
  /-- Goes on as what is left of the input says. -/
  | inspect (next : Input → ReadingCode)
  | plain (read : PlainRead) (next : Except Failure PlainResult → ReadingCode)
  /-- Has an object inside the object read. -/
  | object (readers : Readers) (next : Except Failure Value → ReadingCode)
  | envelope (next : Except Failure (Option Envelope) → ReadingCode)

/-- What user code does about a value that is read: how frames are opened, how a blank identified
    object reads itself, and what a codec made to order reads. -/
inductive Readers
  | of (openFrame : Frame.Source → Act Input Portable) (identified : BlankIdentified → ReadingCode)
    (custom : CustomCodec → ReadingCode)

end

/-- What reading comes down to, given what user code does. -/
def Decoder.ofUser (openFrame : Frame.Source → Act Input Portable)
    (identified : BlankIdentified → Act Receiving Value)
    (custom : CustomCodec → Act Receiving Value) : Decoder where
  read
    | .builtin .portable => do
      let source := (← get).service.source
      .portable <$> Receiving.onInput (openFrame source)
    | .builtin .identified => do
      let factoryId ← Receiving.onInput Input.int
      let classId ← Receiving.onInput Input.int
      match (← get).service.factories.create factoryId classId with
      | none => Act.fail (.noIdentifiedFactory factoryId classId)
      | some blank => identified blank
    -- the other codecs read no objects inside theirs
    | .builtin codec => readBuiltin (pure .null) codec
    | .custom codec => custom codec

mutual

/-- Runs user code on an input. -/
def ReadingCode.run : ReadingCode → Act Receiving Value
  | .answer value => pure value
  | .fail failure => Act.fail failure
  | .inspect next => fun receiving => (next receiving.input).run receiving
  | .plain read next => do
    let outcome ← (Receiving.onInput read.perform).attempt
    (next outcome).run
  | .object readers next => do
    let outcome ← (Receiving.object readers.decoder.readValue).attempt
    (next outcome).run
  | .envelope next => do
    let outcome ← Receiving.envelope.attempt
    (next outcome).run
termination_by structural code => code

/-- What reading comes down to. -/
def Readers.decoder : Readers → Decoder
  | .of openFrame identified custom =>
    .ofUser openFrame (fun blank => (identified blank).run) fun codec => (custom codec).run
termination_by structural readers => readers

end

/-! Whatever user code does, it stays within a relation that what it has at hand stays within. -/

variable {related : Service → Service → Prop} [Std.Refl related] [Trans related related related]

/-- Besides what encoding does to a service, anything may be done to the class definitions. -/
structure Indulges (related : Service → Service → Prop) : Prop extends Respects related where
  context : ∀ {α : Type} (step : Act PortableContext α), (onContext step).Within related

theorem Encoder.stays_ofUser (indulges : Indulges related) (value : Value)
    (close : Portable → Act PortableContext Frame.Closed) {steps : Act Writing Unit}
    {custom : CustomCodec → Act Writing Unit} {keyHash : Act Service (Option Int32)}
    (own : steps.Within (Behind related))
    (customs : ∀ codec, (custom codec).Within (Behind related)) (key : keyHash.Within related) :
    (Encoder.ofUser value close steps custom keyHash).Stays related := by
  have respects := indulges.toRespects
  have framed : ∀ p, (writeFrame close p).Within (Behind related) := by
    intro p
    apply (within_onService (indulges.context (close p))).bind
    intro frame
    exact (within_onOutput _).bind fun _ => Act.within_pure _
  have inside : Contained related { Parts.none with steps := steps } :=
    ⟨own, nofun, Act.within_pure _⟩
  refine ⟨fun codec => ?_, framed, key⟩
  unfold Encoder.ofUser
  dsimp only
  split
  case h_1 =>
    split
    case h_1 p => exact (framed p).bind fun _ => Act.within_pure _
    case h_2 => exact respects.writeBuiltin contained_none .portable _
  case h_2 codec _ => exact respects.writeBuiltin inside codec value
  case h_3 codec => exact customs codec

theorem Decoder.stays_ofUser (learns : Learns related)
    (openFrame : Frame.Source → Act Input Portable)
    {identified : BlankIdentified → Act Receiving Value}
    {custom : CustomCodec → Act Receiving Value}
    (own : ∀ blank, (identified blank).Within (Beneath related))
    (customs : ∀ codec, (custom codec).Within (Beneath related)) :
    (Decoder.ofUser openFrame identified custom).Stays related := by
  refine ⟨fun codec => ?_⟩
  unfold Decoder.ofUser
  dsimp only
  split
  case h_1 => exact Act.within_get.bind fun _ => (within_onInput _).map _
  case h_2 =>
    apply (within_onInput _).bind
    intro factoryId
    apply (within_onInput _).bind
    intro classId
    refine Act.within_get.bind fun receiving => ?_
    split
    case h_1 => exact Act.within_fail _
    case h_2 blank _ => exact own blank
  case h_3 codec _ _ => exact learns.readBuiltin (Act.within_pure _) codec
  case h_4 codec => exact customs codec

mutual

theorem WritingCode.within_run (indulges : Indulges related) :
    (code : WritingCode) → code.run.Within (Behind related)
  | .done => Act.within_pure _
  | .fail _ => Act.within_fail _
  | .inspect next => fun writing => (next writing.output).within_run indulges writing
  | .plain _ next => (within_onOutput _).attempt.bind fun outcome =>
      (next outcome).within_run indulges
  | .object value conduct next =>
      ((conduct.stays indulges value).writeNested indulges.toRespects value).attempt.bind
        fun outcome => (next outcome).within_run indulges
  | .envelope e next => (indulges.toRespects.envelope e).attempt.bind fun outcome =>
      (next outcome).within_run indulges

theorem Conduct.stays (indulges : Indulges related) :
    (conduct : Conduct) → ∀ value, (conduct.encoder value).Stays related
  | .keyless close steps custom => fun value =>
      Encoder.stays_ofUser indulges value close (steps.within_run indulges)
        (fun codec => (custom codec).within_run indulges) (Act.within_pure _)
  | .keyed close steps custom key keyConduct => fun value =>
      Encoder.stays_ofUser indulges value close (steps.within_run indulges)
        (fun codec => (custom codec).within_run indulges)
        ((keyConduct.stays indulges key).hash indulges.toRespects key)

end

mutual

theorem ReadingCode.within_run (learns : Learns related) :
    (code : ReadingCode) → code.run.Within (Beneath related)
  | .answer _ => Act.within_pure _
  | .fail _ => Act.within_fail _
  | .inspect next => fun receiving => (next receiving.input).within_run learns receiving
  | .plain _ next => (within_onInput _).attempt.bind fun outcome =>
      (next outcome).within_run learns
  | .object readers next =>
      (Imports.object (readers.stays learns).readValue).attempt.bind fun outcome =>
        (next outcome).within_run learns
  | .envelope next => learns.envelope.attempt.bind fun outcome =>
      (next outcome).within_run learns

theorem Readers.stays (learns : Learns related) :
    (readers : Readers) → readers.decoder.Stays related
  | .of openFrame identified custom =>
      Decoder.stays_ofUser learns openFrame (fun blank => (identified blank).within_run learns)
        fun codec => (custom codec).within_run learns

end

end Service

end ObjectWire
