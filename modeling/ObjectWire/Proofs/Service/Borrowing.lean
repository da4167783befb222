import ObjectWire.Proofs.Portable.Borrowing
import ObjectWire.Proofs.Service.Uses

/-!
# Buffers that encoding borrows

Encoding a value has a buffer out for the payload and, meanwhile, those that writing takes: frames
inside frames, and a buffer for each compressed form that is made.  The buffer of the payload is
back before the partition key is encoded.
-/

namespace ObjectWire

open Equipped (equip)

mutual

/-- The most buffers that are out at the same time while a value is written as an object or its key
    is encoded.  Encoding the value takes one more at most. -/
def Value.levels : Value → Nat
  | .portable p => p.levels
  | .identified o => o.levels
  | .object o => o.levels
  | _ => 0
termination_by structural value => value

/-- One for every level of objects, or those for the key. -/
def Portable.levels : Portable → Nat
  | .scripted classId version writes key got =>
    max (Portable.depth (.scripted classId version writes key got) + 1) (levelsInside key)
  | p => p.depth + 1
termination_by structural p => p

/-- Those for the steps, or those for the key. -/
def Identified.levels : Identified → Nat
  | .scripted _ _ writes key _ => max (levelsOfSteps writes) (levelsInside key)
  | .reading _ => 0
termination_by structural o => o

/-- Those for the payload, or those for the key. -/
def UserObject.levels : UserObject → Nat
  | .carrying _ payload key => max (levelsInside payload) (levelsInside key)
  | .record .. => 0
termination_by structural o => o

/-- The most for one of the steps: one has its buffers back before the next one begins. -/
def levelsOfSteps : List OutputStep → Nat
  | [] => 0
  | step :: steps => max (levelsOfStep step) (levelsOfSteps steps)
termination_by structural steps => steps

/-- Those for the object that is written inside.  An envelope may need a compressed form. -/
def levelsOfStep : OutputStep → Nat
  | .plain _ => 0
  | .object value => value.levels
  | .envelope _ => 1
termination_by structural step => step

/-- Those for encoding a value, if there is one. -/
def levelsInside : Option Value → Nat
  | none => 0
  | some value => value.levels + 1
termination_by structural inside => inside

end

/-- The service with another pool. -/
def Service.withPool (pool : Pool) (service : Service) : Service :=
  { service with context := { service.context with pool := pool } }

instance : Equipped Service := ⟨fun pool _ service => service.withPool pool⟩

instance : Equipped Writing :=
  ⟨fun pool room writing =>
    ⟨equip pool room writing.output, equip pool room writing.service, writing.bound⟩⟩

namespace Service

variable {levels : Nat}

theorem borrows_onContext {α : Type} {step : Act PortableContext α}
    (borrows : step.Borrows levels) : (onContext step).Borrows levels :=
  borrows.on_pool (fun _ _ _ => rfl) fun _ _ _ _ _ _ => rfl

theorem borrows_onOutput {α : Type} {step : Act Output α} (borrows : step.Borrows 0) :
    (Writing.onOutput step).Borrows levels :=
  borrows.on_buffer (fun _ _ _ => rfl) fun _ _ _ _ _ _ => rfl

theorem borrows_onService {α : Type} {step : Act Service α} (borrows : step.Borrows levels) :
    (Writing.onService step).Borrows levels :=
  borrows.on_pool (fun _ _ _ => rfl) fun _ _ _ _ _ _ => rfl

theorem borrows_put (run : Bytes) : (Writing.onOutput (Output.write run)).Borrows levels :=
  borrows_onOutput (Output.borrows_write run)

theorem borrows_putItem (item : Except Failure Bytes) :
    (Writing.onOutput (Output.writeItem item)).Borrows levels :=
  borrows_onOutput (Output.borrows_writeItem item)

theorem borrows_codecForValue (value : Value) : (codecForValue value).Borrows levels := by
  unfold codecForValue
  split
  case h_1 => exact Act.borrows_fail _
  case h_2 key _ =>
    apply (Act.borrows_of_blind fun _ _ _ => rfl : (codecFor key).Borrows levels).bind
    intro found
    cases found with
    | none => exact Act.borrows_fail _
    | some codec => exact Act.borrows_pure codec

theorem borrows_compressedForm (definition : ClassDefinition) :
    (Writing.compressedForm definition).Borrows (levels + 1) := by
  refine Act.borrows_get (fun _ _ _ => rfl) fun writing => ?_
  split
  case isTrue =>
    exact borrows_onService (borrows_onContext (PortableContext.borrows_binaryOf definition))
  case isFalse =>
    refine Act.borrows_get (fun _ _ _ => rfl) fun writing => borrows_onOutput ?_
    unfold Transport.formAtHand
    split
    case h_1 => exact Act.borrows_pure _
    case h_2 => exact Act.borrows_fail _

theorem borrows_envelope (e : Envelope) : (Writing.envelope (some e)).Borrows (levels + 1) := by
  obtain ⟨typeId, payload, definition, explicitHash⟩ := e
  have tail : ∀ mark : Bytes, (do
      Writing.onOutput (Output.write mark)
      Writing.onOutput (Output.writeItem (Wire.byteArray payload))).Borrows (levels + 1) :=
    fun _ => (borrows_put _).bind fun _ => borrows_putItem _
  apply (borrows_put _).bind
  intro _
  cases definition with
  | none =>
    apply (borrows_put _).bind
    intro _
    cases explicitHash <;> exact tail _
  | some definition =>
    apply (borrows_compressedForm definition).bind
    intro _
    apply (borrows_put _).bind
    intro _
    apply (borrows_putItem _).bind
    intro _
    cases explicitHash <;> exact tail _

theorem borrows_writeDocument (o : UserObject) : (writeDocument o).Borrows levels := by
  refine Act.borrows_get (fun _ _ _ => rfl) fun writing => ?_
  split
  case h_1 => exact Act.borrows_fail _
  case h_2 kind _ =>
    split
    case h_1 =>
      split
      case isTrue => exact (borrows_putItem _).bind fun _ => borrows_putItem _
      case isFalse => exact Act.borrows_fail _
    case h_2 => exact Act.borrows_fail _

theorem borrows_writePortable (p : Portable) : (writePortable p).Borrows (p.depth + 1) := by
  apply (borrows_onService (borrows_onContext (Frame.borrows_close p))).bind
  intro frame
  exact (borrows_onOutput (Frame.borrows_write frame)).bind fun _ => Act.borrows_pure _

theorem borrows_inBuffer {α : Type} {step : Act Writing α} (borrows : step.Borrows levels) :
    (inBuffer step).Borrows (levels + 1) := by
  refine borrows.lend (fun service => ⟨.empty 0, service, true⟩) (fun _ => [])
    (fun outcome reached => (fun value => (value, reached.output.content)) <$> outcome)
    (fun reached => reached.service.withPool (reached.service.context.pool.release reached.output))
    ?_ (fun _ _ _ _ => rfl) ?_
  · intro pool room service clean
    have taken : equip pool.acquire.2 pool.acquire.1.room
        (⟨.empty 0, service, true⟩ : Writing) =
        ⟨pool.acquire.1, service.withPool pool.acquire.2, true⟩ := by
      have lent : pool.acquire.1 = ⟨[], pool.acquire.1.room⟩ := by
        rw [← clean.acquire_content]
      rw [lent]
      rfl
    rw [Room.after, List.foldl_nil, taken]
    rfl
  · intro pool room other reached
    have same : pool.release ⟨reached.output.content, room⟩ = pool.release ⟨[], room⟩ :=
      Pool.release_congr rfl
    show reached.service.withPool (pool.release ⟨reached.output.content, room⟩) = _
    rw [same]
    rfl

/-- What writing a value and encoding its key take is covered by a number of buffers. -/
structure Covers (levels : Nat) (value : Value) (parts : Parts) : Prop where
  framed : ∀ p, value = .portable p → p.depth < levels
  enveloped : ∀ e, value.payload? = some (.envelope e) → 0 < levels
  steps : parts.steps.Borrows levels
  payload : ∀ step, parts.payload = some step → step.Borrows levels
  keyHash : parts.keyHash.Borrows levels

namespace Covers

variable {value : Value} {parts : Parts} (covers : Covers levels value parts)
include covers

theorem writePortable {p : Portable} (is : value = .portable p) :
    (writePortable p).Borrows levels :=
  (borrows_writePortable p).mono (covers.framed p is)

theorem writeBuiltin (codec : BuiltinCodec) : (writeBuiltin codec value parts).Borrows levels := by
  unfold Service.writeBuiltin
  split
  case h_8 p => exact (covers.writePortable rfl).bind fun _ => Act.borrows_pure _
  case h_9 o => exact (borrows_put _).bind fun _ => covers.steps
  case h_10 o => exact borrows_writeDocument o
  case h_11 => exact Act.borrows_fail _
  all_goals first | exact borrows_put _ | exact borrows_putItem _

theorem writeCustom (codec : CustomCodec) : (writeCustom codec value parts).Borrows levels := by
  unfold Service.writeCustom
  split
  case h_1 => exact borrows_putItem _
  case h_2 => exact Act.borrows_pure _
  case h_3 =>
    apply (borrows_put _).bind
    intro _
    cases held : parts.payload with
    | none => exact Act.borrows_pure _
    | some step => exact covers.payload step held
  case h_4 =>
    split
    case h_1 e held =>
      have some_level := covers.enveloped e held
      obtain ⟨below, rfl⟩ : ∃ below, levels = below + 1 := ⟨levels - 1, by omega⟩
      exact borrows_envelope e
    case h_2 => exact borrows_put _
  case h_5 => exact (borrows_put _).bind fun _ => Act.borrows_fail _

theorem writeBy (codec : Codec) : (writeBy codec value parts).Borrows levels := by
  cases codec with
  | builtin codec => exact covers.writeBuiltin codec
  | custom codec => exact covers.writeCustom codec

theorem writeValueBy : (writeValueBy value parts).Borrows levels := by
  unfold Service.writeValueBy
  split
  case h_1 => exact Act.borrows_fail _
  case h_2 => exact borrows_put _
  case h_3 =>
    apply (borrows_onService (borrows_codecForValue _)).bind
    intro codec
    exact (borrows_put _).bind fun _ => covers.writeBy codec

theorem writeNestedBy : (writeNestedBy value parts).Borrows levels := by
  refine Act.borrows_get (fun _ _ _ => rfl) fun writing => ?_
  split
  case isTrue => exact covers.writeValueBy
  case isFalse => exact Act.borrows_fail _

theorem writeDefined (codec : Codec) : (writeDefined codec value parts).Borrows levels := by
  have plainly : (do
      Service.writeBy codec value parts
      pure (none : Option ClassDefinition)).Borrows levels :=
    (covers.writeBy codec).bind fun _ => Act.borrows_pure _
  unfold Service.writeDefined
  split
  case h_1 p =>
    split
    case isTrue => exact (covers.writePortable rfl).map _
    case isFalse => exact plainly
  case h_2 => exact plainly

theorem encodeBy : (encodeBy value parts).Borrows (levels + 1) := by
  apply (borrows_codecForValue value).bind
  intro codec
  apply (borrows_inBuffer (covers.writeDefined codec)).bind
  intro answer
  exact (covers.keyHash.mono (Nat.le_succ _)).bind fun hash => Act.borrows_pure _

theorem keyHashBy : (keyHashBy value parts).Borrows (levels + 1) := by
  unfold Service.keyHashBy
  split
  case h_1 => exact Act.borrows_pure _
  case h_2 => exact Act.borrows_pure _
  case h_3 => exact covers.encodeBy.bind fun _ => Act.borrows_pure _

end Covers

theorem covers_none {value : Value} (plain : ∀ p, value ≠ .portable p)
    (empty : value.payload? = none) : Covers levels value Parts.none where
  framed p is := absurd is (plain p)
  enveloped e held := by rw [empty] at held; cases held
  steps := Act.borrows_pure _
  payload := nofun
  keyHash := Act.borrows_pure _

/-! The buffers that a value takes, by recursion over the value. -/

mutual

theorem covers_partsOf : (value : Value) → Covers value.levels value (partsOf value)
  | .portable p => covers_partsOfPortable p
  | .identified o => covers_partsOfIdentified o
  | .object o => covers_partsOfObject o
  | .null | .text _ | .integer _ | .long _ | .boolean _ | .bytes _ | .instant _ | .bigInteger _
  | .envelope _ => covers_none nofun rfl

theorem covers_partsOfPortable : (p : Portable) →
    Covers p.levels (.portable p) (partsOfPortable p)
  | .scripted _ _ _ key _ =>
    { framed := fun _ is => by cases is; exact Nat.le_max_left ..
      enveloped := nofun
      steps := Act.borrows_pure _
      payload := nofun
      keyHash := (borrows_keyHash key).mono (Nat.le_max_right ..) }
  | .link .. | .silent _ | .customer _ =>
    { framed := fun _ is => by cases is; exact Nat.lt_succ_self _
      enveloped := nofun
      steps := Act.borrows_pure _
      payload := nofun
      keyHash := Act.borrows_pure _ }

theorem covers_partsOfIdentified : (o : Identified) →
    Covers o.levels (.identified o) (partsOfIdentified o)
  | .scripted _ _ writes key _ =>
    { framed := nofun
      enveloped := nofun
      steps := (borrows_performAll writes).mono (Nat.le_max_left ..)
      payload := nofun
      keyHash := (borrows_keyHash key).mono (Nat.le_max_right ..) }
  | .reading r =>
    { framed := nofun
      enveloped := nofun
      steps := borrows_onOutput r.borrows_write
      payload := nofun
      keyHash := Act.borrows_pure _ }

theorem covers_partsOfObject : (o : UserObject) → Covers o.levels (.object o) (partsOfObject o)
  | .carrying _ payload key =>
    { framed := nofun
      enveloped := fun e held => by
        cases held
        exact Nat.lt_of_lt_of_le (Nat.succ_pos _) (Nat.le_max_left ..)
      steps := Act.borrows_pure _
      payload := fun step h => (borrows_writePayload payload step h).mono (Nat.le_max_left ..)
      keyHash := (borrows_keyHash key).mono (Nat.le_max_right ..) }
  | .record .. => covers_none nofun rfl

theorem borrows_performAll : (steps : List OutputStep) →
    (performAll steps).Borrows (levelsOfSteps steps)
  | [] => Act.borrows_pure _
  | step :: steps => ((borrows_perform step).mono (Nat.le_max_left ..)).bind fun _ =>
      (borrows_performAll steps).mono (Nat.le_max_right ..)

theorem borrows_perform : (step : OutputStep) → (perform step).Borrows (levelsOfStep step)
  | .plain write => borrows_onOutput (PlainWrite.borrows_perform write)
  | .object value => (covers_partsOf value).writeNestedBy
  | .envelope none => borrows_put _
  | .envelope (some e) => borrows_envelope e

theorem borrows_writePayload : (payload : Option Value) → ∀ step,
    writePayload payload = some step → step.Borrows (levelsInside payload)
  | none => nofun
  | some value => fun step h => by
    cases h
    exact (covers_partsOf value).writeNestedBy.mono (Nat.le_succ _)

theorem borrows_keyHash : (key : Option Value) → (keyHash key).Borrows (levelsInside key)
  | none => Act.borrows_pure _
  | some key => (covers_partsOf key).keyHashBy

end

theorem blind_report (failure : Failure) (service : Service) (pool : Pool) :
    report failure (service.withPool pool) =
      ((report failure service).1, (report failure service).2.withPool pool) := by
  unfold report
  cases failure.kind <;> rfl

theorem borrows_guarded {α : Type} {step : Act Service α} (borrows : step.Borrows levels) :
    (guarded id (fun service _ => service) step).Borrows levels := by
  intro service
  obtain ⟨moves, balanced, needs, outcome, reached, ran⟩ := borrows service
  cases outcome with
  | ok value =>
    refine ⟨moves, balanced, needs, .ok value, reached, fun loans room clean => ?_⟩
    unfold guarded
    rw [ran loans room clean]
  | error failure =>
    refine ⟨moves, balanced, needs, .error (report failure reached).1, (report failure reached).2,
      fun loans room clean => ?_⟩
    have reported := blind_report failure reached (loans.run moves).pool
    unfold guarded
    rw [ran loans room clean]
    show (Except.error (report failure (reached.withPool (loans.run moves).pool)).1,
      (report failure (reached.withPool (loans.run moves).pool)).2) = _
    rw [reported]
    rfl

theorem borrows_toData (value : Value) : (toData value).Borrows (value.levels + 1) := by
  unfold toData
  split
  case h_1 => exact Act.borrows_pure _
  case h_2 => exact Act.borrows_pure _
  case h_3 => exact borrows_guarded ((covers_partsOf _).encodeBy.map _)

end Service

end ObjectWire
