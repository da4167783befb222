import ObjectWire.Proofs.Service.Borrowing
import ObjectWire.Proofs.Service.Equipped
import ObjectWire.Proofs.Service.Repeats

/-!
# Values written in place

A value can be written to an output in place, or be encoded first and written as an envelope.  The
payload of the envelope comes about in a buffer of its own, from the first byte on, by a service that
may have registered a definition on the way; in place the value stands behind whatever the output
holds.  Where writing only appends, this makes no difference: both ways append the type id and the
payload.
-/

namespace ObjectWire

open Equipped (equip)

/-- The other output has the service in common and holds the same behind further bytes. -/
structure Writing.Behind (front : Bytes) (writing other : Writing) : Prop where
  service : other.service = writing.service
  content : other.output.content = front ++ writing.output.content

namespace Act

open Writing (Behind)

variable {α β : Type}

/-- Behind further bytes the step does the same. -/
def Floats (step : Act Writing α) : Prop :=
  ∀ ⦃front writing other⦄, Behind front writing other →
    (step other).1 = (step writing).1 ∧ Behind front (step writing).2 (step other).2

theorem Floats.bind {step : Act Writing α} {next : α → Act Writing β} (first : step.Floats)
    (rest : ∀ value, (next value).Floats) : (step >>= next).Floats := by
  intro front writing other behind
  obtain ⟨same, reached⟩ := first behind
  rw [bind_apply, bind_apply]
  rcases ran : step writing with ⟨failure | value, middle⟩
  all_goals
    rcases also : step other with ⟨outcome, between⟩
    rw [ran, also] at same reached
    cases same
  · exact ⟨rfl, reached⟩
  · exact rest value reached

theorem composes_floats : Composes fun step => step.Floats where
  pure _ _ _ _ behind := ⟨rfl, behind⟩
  fail _ _ _ _ behind := ⟨rfl, behind⟩
  bind := Floats.bind

/-- What a step does after a look at the state may depend on the service. -/
theorem floats_get {next : Writing → Act Writing β}
    (same : ∀ {writing other : Writing}, other.service = writing.service →
      next other = next writing)
    (each : ∀ writing, (next writing).Floats) :
    ((get : Act Writing Writing) >>= next).Floats := by
  intro front writing other behind
  rw [bind_of_ok (get_apply writing), bind_of_ok (get_apply other), same behind.service]
  exact each writing behind

theorem floats_onService (step : Act Service α) : (Writing.onService step).Floats := by
  intro front writing other behind
  rw [Writing.onService, on_apply, on_apply, behind.service]
  exact ⟨rfl, rfl, behind.content⟩

theorem floats_write (run : Bytes) : (Writing.onOutput (Output.write run)).Floats := by
  intro front writing other behind
  refine ⟨rfl, behind.service, ?_⟩
  show other.output.content ++ run = front ++ (writing.output.content ++ run)
  rw [behind.content, List.append_assoc]

theorem floats_writeItem (item : Except Failure Bytes) :
    (Writing.onOutput (Output.writeItem item)).Floats := by
  cases item with
  | error failure => exact fun _ _ _ behind => ⟨rfl, behind⟩
  | ok run => exact floats_write run

end Act

namespace Service

variable {service after : Service} {value : Value} {d : Envelope} {parts : Parts}

theorem floats_writePortable (p : Portable) : (writePortable p).Floats := by
  apply (Act.floats_onService _).bind
  intro frame
  have framed : (Writing.onOutput frame.write).Floats := by
    have parts : Writing.onOutput frame.write = (do
        Writing.onOutput (Output.write (Wire.classKey frame.definition.key))
        Writing.onOutput (Output.writeItem (Wire.byteArray frame.body))) :=
      Act.on_bind (fun _ _ => rfl) fun _ _ _ => rfl
    rw [parts]
    exact (Act.floats_write _).bind fun _ => Act.floats_writeItem _
  exact framed.bind fun _ => Act.composes_floats.pure _

theorem floats_writeDocument (o : UserObject) : (writeDocument o).Floats := by
  refine Act.floats_get (fun same => by rw [same]) fun writing => ?_
  split
  case h_1 => exact Act.composes_floats.fail _
  case h_2 kind _ =>
    split
    case h_1 =>
      split
      case isTrue => exact (Act.floats_writeItem _).bind fun _ => Act.floats_writeItem _
      case isFalse => exact Act.composes_floats.fail _
    case h_2 => exact Act.composes_floats.fail _

theorem floats_writeBuiltin (codec : BuiltinCodec) (direct : ∀ o, value ≠ .identified o) :
    (writeBuiltin codec value parts).Floats := by
  unfold writeBuiltin
  split
  case h_8 p => exact (floats_writePortable p).bind fun _ => Act.composes_floats.pure _
  case h_9 o => exact absurd rfl (direct o)
  case h_10 o => exact floats_writeDocument o
  case h_11 => exact Act.composes_floats.fail _
  all_goals first | exact Act.floats_write _ | exact Act.floats_writeItem _

theorem floats_writeCustom (codec : CustomCodec) (empty : parts.payload = none)
    (none : value.payload? = none) : (writeCustom codec value parts).Floats := by
  unfold writeCustom
  split
  case h_1 => exact Act.floats_writeItem _
  case h_2 => exact Act.composes_floats.pure _
  case h_3 =>
    rw [empty]
    exact (Act.floats_write _).bind fun _ => Act.composes_floats.pure _
  case h_4 =>
    rw [none]
    exact Act.floats_write _
  case h_5 => exact (Act.floats_write _).bind fun _ => Act.composes_floats.fail _

/-- A value of which a codec writes the same wherever it stands: a built-in value, a portable object,
    or an object that goes by the codec for documents. -/
def Inline (service : Service) : Value → Prop
  | .null | .identified _ => False
  | .object o => (service.registry.lookup o.typeKey).1 = some (.builtin .document)
  | _ => True

theorem Inline.floats {codec : Codec} (inline : Inline service value)
    (fresh : ∀ held, value ≠ .envelope held)
    (document : ∀ o, value = .object o → codec = .builtin .document) :
    (writeBy codec value (partsOf value)).Floats := by
  have direct : ∀ o, value ≠ .identified o := by
    rintro o rfl
    exact inline
  cases codec with
  | builtin codec => exact floats_writeBuiltin codec direct
  | custom codec =>
    cases value with
    | identified o => exact absurd rfl (direct o)
    | object o => cases document o rfl
    | portable p => cases p <;> exact floats_writeCustom codec rfl rfl
    | _ => exact floats_writeCustom codec rfl rfl

/-- What encoding a value writes is what its codec writes, unless a portable object goes by another
    codec that has the id of portable objects. -/
theorem writeBy_of_writeDefined {codec : Codec} {definition : Option ClassDefinition}
    {writing last : Writing}
    (own : codec.typeId = BuiltinCodec.portable.typeId → codec = .builtin .portable)
    (h : writeDefined codec value parts writing = (.ok definition, last)) :
    writeBy codec value parts writing = (.ok (), last) := by
  have plainly : ∀ {answer}, (do
      writeBy codec value parts
      pure (none : Option ClassDefinition)) writing = (.ok answer, last) →
      writeBy codec value parts writing = (.ok (), last) := by
    intro answer h
    obtain ⟨_, reached, written, h⟩ := Act.bind_ok h
    cases h
    exact written
  unfold writeDefined at h
  split at h
  case h_1 p =>
    split at h
    case isTrue named =>
      obtain ⟨closed, written, -⟩ := Act.map_ok h
      rw [own named]
      exact Act.bind_of_ok written
    case isFalse => exact plainly h
  case h_2 => exact plainly h

/-- Writing an envelope appends its type id and its payload. -/
theorem writeObject_envelope (e : Envelope) (writing : Writing) :
    writeObject (.envelope e) writing = (.ok (),
      { writing with output := writing.output.append (Wire.int e.typeId ++ e.payload) }) := rfl

theorem writeValueBy_of_codec {codec : Codec} {reached : Service} {writing : Writing}
    (present : value.isNull = false) (fresh : ∀ held, value ≠ .envelope held)
    (looked : codecForValue value writing.service = (.ok codec, reached)) :
    writeValueBy value parts writing = writeBy codec value parts
      { writing with
        output := writing.output.append (Wire.int codec.typeId)
        service := reached } := by
  have found : Writing.onService (codecForValue value) writing =
      (.ok codec, { writing with service := reached }) := by
    rw [Writing.onService, Act.on_apply, looked]
  unfold writeValueBy
  split
  case h_1 => cases present
  case h_2 e => exact absurd rfl (fresh e)
  case h_3 => exact Act.bind_of_ok found

/-- What a codec writes in a borrowed buffer it appends to any output. -/
theorem writeBy_of_buffered {codec : Codec} {reached : Service} {last : Writing}
    (floats : (writeBy codec value (partsOf value)).Floats) (clean : reached.context.pool.Clean)
    (written : writeBy codec value (partsOf value)
      ⟨reached.context.pool.acquire.1, reached.withPool reached.context.pool.acquire.2, true⟩ =
        (.ok (), last)) (output : Output) (bound : Bool) :
    ∃ final, writeBy codec value (partsOf value) ⟨output, reached, bound⟩ = (.ok (), final) ∧
      final.output.content = output.content ++ last.output.content := by
  let blank : Writing := ⟨.empty 0, reached, true⟩
  have borrows := (covers_partsOf value).writeBy codec
  have buffered : (⟨reached.context.pool.acquire.1,
      reached.withPool reached.context.pool.acquire.2, true⟩ : Writing) =
      equip reached.context.pool.acquire.2 reached.context.pool.acquire.1.room blank := by
    have lent : reached.context.pool.acquire.1 = ⟨[], reached.context.pool.acquire.1.room⟩ := by
      rw [← clean.acquire_content]
    rw [lent]
    rfl
  rw [buffered] at written
  -- neither the pool nor the room in the buffer matters
  obtain ⟨final, _, _, pool, room, rfl, ran⟩ :=
    borrows.elsewhere clean.acquire clean blank.output.room written
  have start : Writing.Behind output.content blank ⟨output, reached, bound⟩ :=
    ⟨rfl, (List.append_nil _).symm⟩
  obtain ⟨same, behind⟩ := floats start
  have ran : writeBy codec value (partsOf value) blank = (.ok (), equip pool room final) := ran
  rcases also : writeBy codec value (partsOf value) ⟨output, reached, bound⟩ with ⟨outcome, ahead⟩
  rw [ran, also] at same behind
  cases same
  exact ⟨ahead, rfl, behind.content⟩

/-- In a service that was used in any way but for taking a type's codec back or tearing it down, let
    a built-in value, a portable object or an object that goes by the codec for documents be encoded.
    From then on, whatever an output holds and whether or not it is bound to the service, writing the
    value and writing the envelope it was encoded to append the same bytes, the type id and the
    payload of the envelope, and leave those in front as they are. -/
theorem written_inline_as_encoded (reachable : Reachable (fun _ => True) Use.Lasting service)
    (inline : Inline service value) (encoded : toData value service = (.ok (some d), after))
    (output : Output) (bound : Bool) :
    ∃ inPlace through, writeObject value ⟨output, after, bound⟩ = (.ok (), inPlace) ∧
      writeObject (.envelope d) ⟨output, after, bound⟩ = (.ok (), through) ∧
      inPlace.output.content = output.content ++ (Wire.int d.typeId ++ d.payload) ∧
      through.output.content = output.content ++ (Wire.int d.typeId ++ d.payload) := by
  by_cases fresh : ∀ held, value ≠ .envelope held
  case neg =>
    simp only [not_forall, not_not] at fresh
    obtain ⟨held, rfl⟩ := fresh
    cases encoded
    exact ⟨_, _, writeObject_envelope d _, writeObject_envelope d _, rfl, rfl⟩
  have present : value.isNull = false := by
    cases value with
    | null => exact inline.elim
    | _ => rfl
  -- encoded again, the value has the same envelope
  have settled : service.Settled := ⟨reachable.tidy, reachable.seated.grounded⟩
  obtain ⟨afterSettled, -, repeated⟩ :=
    pervades_repeats.encodeBy value settled (encodeBy_of_toData fresh encoded)
  obtain ⟨later, again, -⟩ := repeated afterSettled (Persists.refl after) rfl
  obtain ⟨codec, reached, looked, again⟩ := Act.bind_ok again
  obtain ⟨⟨definition, payload⟩, _, packed, again⟩ := Act.bind_ok again
  obtain ⟨hash, _, -, again⟩ := Act.bind_ok again
  cases again
  obtain ⟨last, written, rfl, -⟩ := inBuffer_ok packed
  -- only the built-in codecs have their ids
  have equipped := (reachable.use (.encode value) trivial).equipped
  rw [show Use.perform service (.encode value) = after from congrArg Prod.snd encoded] at equipped
  have builtin : ∀ entry ∈ builtinBindings, codec.typeId = entry.2.typeId →
      codec = .builtin entry.2 := by
    intro entry listed own
    obtain ⟨key, -, found, -⟩ := codecForValue_ok looked
    exact equipped.anchored.builtin_of_lookup (equipped.answers entry listed) found own
  have document : ∀ o, value = .object o → codec = .builtin .document := by
    rintro o rfl
    obtain ⟨key, first, typed, found, typeId, -⟩ := toData_ok fresh encoded
    cases typed
    rw [show (service.registry.lookup o.typeKey).1 = some (.builtin .document) from inline] at found
    cases found
    exact builtin (.document, .document) (by decide) typeId
  have wrote := writeBy_of_writeDefined (builtin (.portable, .portable) (by decide)) written
  have clean := (repeats_codecForValue value afterSettled looked).1.tidy.clean
  obtain ⟨final, ran, content⟩ := writeBy_of_buffered (inline.floats fresh document) clean wrote
    (output.append (Wire.int codec.typeId)) bound
  have inPlace : writeObject value ⟨output, after, bound⟩ = (.ok (), final) :=
    guarded_of_ok ((writeValueBy_of_codec present fresh looked).trans ran)
  refine ⟨final, _, inPlace, writeObject_envelope _ _, ?_, rfl⟩
  rw [content]
  exact List.append_assoc ..

/-- A portable object with another one inside, whose first encoding registers both their
    definitions. -/
theorem written_inline_as_encoded_of_nested :
    let service := ofSettings .default
    let inner := Portable.scripted 2 none [.data "s" (.text (some "x"))] none []
    let value := Value.portable (.scripted 1 none
      [.portable "inner" (some inner), .data "n" (.scalar .int (7 : Int32))] none [])
    ∃ d after, toData value service = (.ok (some d), after) ∧ d.typeId = -1 ∧
      ∀ output bound, ∃ inPlace through,
        writeObject value ⟨output, after, bound⟩ = (.ok (), inPlace) ∧
        writeObject (.envelope d) ⟨output, after, bound⟩ = (.ok (), through) ∧
        inPlace.output.content = output.content ++ (Wire.int d.typeId ++ d.payload) ∧
        through.output.content = output.content ++ (Wire.int d.typeId ++ d.payload) := by
  intro service inner value
  have reachable : Reachable (fun _ => True) Use.Lasting service := .start trivial
  have typed : (toData value service).1.toOption.join.map Envelope.typeId = some (-1) := by
    decide +kernel
  obtain ⟨d, after, encoded, typeId⟩ := exists_toData typed
  exact ⟨d, after, encoded, typeId, written_inline_as_encoded reachable trivial encoded⟩

end Service

end ObjectWire
