import ObjectWire.Proofs.Service.Derived
import ObjectWire.Proofs.Service.Inline
import ObjectWire.Proofs.Service.Sturdy
import ObjectWire.Proofs.Service.Transit

/-!
# What is written to be read

A step of writing is matched with the step that reads what it writes.  A service may learn
definitions on the way, so what counts is the service that there is in the end: the bytes that the
one puts on an output are exactly those that the other takes from an input bound to that service.
Steps that are so matched are so in a row, and so are values in each other: reading an object needs
as many levels as objects lie in each other in it, and those are less than the bytes it takes.
-/

namespace ObjectWire

/-- What a read must be to take what a write puts, and what it then gives. -/
inductive PlainWrite.Mirrors : PlainWrite → PlainRead → PlainResult → Prop
  | scalar (kind : ScalarKind) (item : kind.Item) :
      Mirrors (.scalar kind item) (.scalar kind) (.scalar kind item)
  | bytes (run : Bytes) : Mirrors (.bytes run) (.bytes run.length) (.bytes run)
  | text (s : String) : Mirrors (.text s) .text (.text s)
  | byteArray (run : Bytes) : Mirrors (.byteArray run) .byteArray (.bytes run)

/-- A plain write puts what its mirror takes. -/
theorem PlainWrite.Mirrors.exchanges {write : PlainWrite} {read : PlainRead} {result : PlainResult}
    (mirrors : write.Mirrors read result) {output after : Output}
    (wrote : write.perform output = (.ok (), after)) :
    ∃ run, after.content = output.content ++ run ∧ Input.Takes read.perform run result := by
  cases mirrors with
  | scalar kind i =>
    obtain ⟨run, formed, content⟩ := Output.writeItem_ok wrote
    exact ⟨run, content, (ScalarKind.takes_decode formed).map _⟩
  | bytes run =>
    cases wrote
    exact ⟨run, rfl, (Input.takes_bytes run).map _⟩
  | text s =>
    obtain ⟨run, formed, content⟩ := Output.writeItem_ok wrote
    exact ⟨run, content, (Input.takes_string formed).map _⟩
  | byteArray content =>
    obtain ⟨run, formed, content⟩ := Output.writeItem_ok wrote
    exact ⟨run, content, (Input.takes_byteArray formed).map _⟩

/-- The value is of a built-in kind and not outside the calendar. -/
def Value.Builtin : Value → Prop
  | .text _ | .integer _ | .long _ | .boolean _ | .bytes _ | .bigInteger _ => True
  | .instant t => t.Valid
  | _ => False

/-- The built-in codec that writes a value. -/
def Value.codec? : Value → Option BuiltinCodec
  | .null | .envelope _ => none
  | .text _ => some .text
  | .integer _ => some .integer
  | .long _ => some .long
  | .boolean _ => some .boolean
  | .bytes _ => some .bytes
  | .instant _ => some .instant
  | .bigInteger _ => some .bigInteger
  | .portable _ => some .portable
  | .identified _ => some .identified
  | .object _ => some .document

namespace Service

variable {final : Service} {α β : Type} {run : Bytes} {value back : Value}

/-! ### Reading with enough levels -/

/-- The value is read from the run, wherever that stands, with as many levels as the run has bytes
    or more. -/
def Sent (final : Service) (value : Value) (run : Bytes) : Prop :=
  ∀ levels, run.length ≤ levels → Receiving.Takes (readWithin levels) run final final value

/-- Reading objects by `nested` goes as deep as so many bytes can hold objects in each other. -/
def Fathoms (final : Service) (nested : Act Receiving Value) (most : Nat) : Prop :=
  ∀ run value, run.length ≤ most → Sent final value run →
    Receiving.Takes nested run final final value

theorem Fathoms.mono {nested : Act Receiving Value} {most less : Nat}
    (fathoms : Fathoms final nested most) (short : less ≤ most) : Fathoms final nested less :=
  fun run value small => fathoms run value (Nat.le_trans small short)

theorem fathoms_readWithin (levels : Nat) : Fathoms final (readWithin levels) levels :=
  fun _ _ small sent => sent levels small

/-- Reading a value goes by the unread bytes, so it is never short of levels. -/
theorem fathoms_readValue (most : Nat) : Fathoms final readValue most := by
  intro run value _ sent rest position
  have enough : run.length ≤ (⟨run ++ rest, position⟩ : Input).remaining + 1 := by
    simp only [Input.remaining, List.length_append]
    omega
  exact sent _ enough rest position

/-- What reads objects by `nested` takes the run if `nested` goes deep enough, and gives the
    value. -/
def Reads (final : Service) (read : Act Receiving Value → Act Receiving α) (run : Bytes)
    (value : α) : Prop :=
  ∀ nested, Fathoms final nested run.length → Receiving.Takes (read nested) run final final value

theorem reads_of_takes {step : Act Receiving α} {value : α}
    (takes : Receiving.Takes step run final final value) : Reads final (fun _ => step) run value :=
  fun _ _ => takes

theorem Reads.bind {read : Act Receiving Value → Act Receiving α}
    {next : α → Act Receiving Value → Act Receiving β} {more : Bytes} {value : α} {answer : β}
    (first : Reads final read run value) (second : Reads final (next value) more answer) :
    Reads final (fun nested => read nested >>= fun value => next value nested) (run ++ more)
      answer := by
  intro nested fathoms
  rw [List.length_append] at fathoms
  exact (first nested (fathoms.mono (Nat.le_add_right _ _))).bind
    (second nested (fathoms.mono (Nat.le_add_left _ _)))

theorem Reads.map {read : Act Receiving Value → Act Receiving α} {value : α}
    (reads : Reads final read run value) (f : α → β) :
    Reads final (fun nested => f <$> read nested) run (f value) := by
  intro nested fathoms rest position
  have taken := reads nested fathoms rest position
  show (f <$> read nested) _ = _
  rw [Act.map_apply, taken]
  rfl

/-- Behind the type id of its codec a value is read from what its codec reads it from. -/
theorem sent_of_reads (sturdy : final.Sturdy) {codec : BuiltinCodec}
    (reads : Reads final (fun nested => readBuiltin nested codec) run value) :
    Sent final value (Wire.int codec.typeId ++ run) := by
  have answers : final.codecForId codec.typeId = some (.builtin codec) := by
    have listed : ∃ entry ∈ builtinBindings, entry.2 = codec := by cases codec <;> decide
    obtain ⟨entry, listed, rfl⟩ := listed
    exact sturdy.equipped.answers entry listed
  intro levels enough
  rw [List.length_append, Wire.int, BigEndian.length_encode] at enough
  cases levels with
  | zero => omega
  | succ levels =>
    have taken := reads (readWithin levels) ((fathoms_readWithin levels).mono (by omega))
    apply (Receiving.takes_onInput (Input.takes_int codec.typeId) final).bind
    intro rest position
    rw [Act.bind_of_ok (Act.get_apply _)]
    simp only [answers]
    refine (Act.bind_of_ok (taken rest position)).trans ?_
    rw [Act.bind_of_ok (Act.get_apply _)]
    simp only [sturdy.handOut]
    rfl

theorem Sent.reads_object (sent : Sent final value run) :
    Reads final (fun nested => performRead nested .object) run (.object value) := by
  have reads : Reads final Receiving.object run value :=
    fun nested fathoms => fathoms run value (Nat.le_refl _) sent
  exact reads.map InputResult.object

/-! ### Writing what can be read -/

/-- What the step puts on an output, if it answers, is as wanted, provided that what is registered
    by then is so in the end. -/
structure Delivers (final : Service) (step : Act Writing Unit) (wanted : Bytes → Prop) : Prop where
  develops : step.Within (Behind Develops)
  arrives : ∀ writing now, writing.service.Sturdy → step writing = (.ok (), now) →
    now.service.context.Evolves final.context →
    ∃ run, now.output.content = writing.output.content ++ run ∧ wanted run

theorem Delivers.mono {step : Act Writing Unit} {wanted weaker : Bytes → Prop}
    (delivers : Delivers final step wanted) (implies : ∀ run, wanted run → weaker run) :
    Delivers final step weaker := by
  refine ⟨delivers.develops, fun writing now sturdy ran evolved => ?_⟩
  obtain ⟨run, content, holds⟩ := delivers.arrives writing now sturdy ran evolved
  exact ⟨run, content, implies run holds⟩

theorem Delivers.andThen {step next : Act Writing Unit} {wanted further : Bytes → Prop}
    (first : Delivers final step wanted) (second : Delivers final next further) :
    Delivers final (do step; next)
      fun run => ∃ front back, run = front ++ back ∧ wanted front ∧ further back := by
  refine ⟨first.develops.bind fun _ => second.develops, fun writing now sturdy ran evolved => ?_⟩
  obtain ⟨_, middle, stepped, ran⟩ := Act.bind_ok ran
  obtain ⟨still, -⟩ := Act.within_of_ok first.develops stepped sturdy
  obtain ⟨-, onward⟩ := Act.within_of_ok second.develops ran still
  obtain ⟨front, begun, held⟩ := first.arrives writing middle sturdy stepped (onward.trans evolved)
  obtain ⟨back, content, holds⟩ := second.arrives middle now still ran evolved
  rw [begun, List.append_assoc] at content
  exact ⟨front ++ back, content, front, back, rfl, held, holds⟩

theorem delivers_onOutput {step : Act Output Unit} {wanted : Bytes → Prop}
    (each : ∀ output after, step output = (.ok (), after) →
      ∃ run, after.content = output.content ++ run ∧ wanted run) :
    Delivers final (Writing.onOutput step) wanted := by
  refine ⟨within_onOutput step, fun writing now _ ran _ => ?_⟩
  obtain ⟨after, stepped, rfl⟩ := Act.on_ok ran
  exact each writing.output after stepped

theorem delivers_write (run : Bytes) :
    Delivers final (Writing.onOutput (Output.write run)) (· = run) := by
  apply delivers_onOutput
  intro output after wrote
  cases wrote
  exact ⟨run, rfl, rfl⟩

/-- What the step writes is what the other one reads, and that one gives the value. -/
def Conveys (final : Service) (step : Act Writing Unit)
    (read : Act Receiving Value → Act Receiving α) (value : α) : Prop :=
  Delivers final step fun run => Reads final read run value

theorem Conveys.andThen {step next : Act Writing Unit}
    {read : Act Receiving Value → Act Receiving α}
    {also : α → Act Receiving Value → Act Receiving β} {value : α} {answer : β}
    (first : Conveys final step read value) (second : Conveys final next (also value) answer) :
    Conveys final (do step; next) (fun nested => read nested >>= fun value => also value nested)
      answer := by
  apply (Delivers.andThen first second).mono
  rintro _ ⟨front, back, rfl, begun, rest⟩
  exact begun.bind rest

theorem Conveys.map {step : Act Writing Unit} {read : Act Receiving Value → Act Receiving α}
    {value : α} (conveys : Conveys final step read value) (f : α → β) :
    Conveys final step (fun nested => f <$> read nested) (f value) :=
  Delivers.mono conveys fun _ reads => reads.map f

theorem conveys_pure (value : α) : Conveys final (pure ()) (fun _ => pure value) value := by
  refine ⟨Act.within_pure _, fun writing now _ ran _ => ?_⟩
  cases ran
  exact ⟨[], (List.append_nil _).symm, reads_of_takes (Receiving.takes_pure final value)⟩

/-- What is put on the output is taken from the input. -/
theorem conveys_onOutput {step : Act Output Unit} {read : Act Input α} {value : α}
    (each : ∀ output after, step output = (.ok (), after) →
      ∃ run, after.content = output.content ++ run ∧ Input.Takes read run value) :
    Conveys final (Writing.onOutput step) (fun _ => Receiving.onInput read) value := by
  apply delivers_onOutput
  intro output after ran
  obtain ⟨run, content, takes⟩ := each output after ran
  exact ⟨run, content, reads_of_takes (Receiving.takes_onInput takes final)⟩

theorem conveys_plain {write : PlainWrite} {read : PlainRead} {result : PlainResult}
    (mirrors : write.Mirrors read result) :
    Conveys final (perform (.plain write)) (fun nested => performRead nested (.plain read))
      (.plain result) := by
  apply conveys_onOutput
  intro output after wrote
  obtain ⟨run, content, takes⟩ := mirrors.exchanges wrote
  exact ⟨run, content, takes.map InputResult.plain⟩

/-- An envelope without a definition is read back from what it is written as. -/
theorem conveys_envelope {e : Option Envelope}
    (plain : ∀ held, e = some held → held.definition = none) :
    Conveys final (perform (.envelope e)) (fun nested => performRead nested .envelope)
      (.envelope e) := by
  have conveys : Conveys final (Writing.envelope e) (fun _ => Receiving.envelope) e := by
    refine ⟨respects_develops.envelope e, fun writing now _ ran _ => ?_⟩
    cases e with
    | none =>
      cases ran
      exact ⟨Wire.bool false, rfl, reads_of_takes (Receiving.takes_absent final)⟩
    | some e =>
      have bare := plain e rfl
      have small := Writing.plain_ok bare ran
      obtain ⟨_, last, wrote, puts⟩ : Act.Gives (Writing.envelope (some e)) writing _ :=
        Writing.gives_plain bare small
      rw [ran] at wrote
      cases wrote
      have taken := Receiving.takes_plain small final
      have same : ({ e with definition := none } : Envelope) = e := by rw [← bare]
      rw [same] at taken
      exact ⟨_, puts.content, reads_of_takes taken⟩
  exact conveys.map InputResult.envelope

/-! ### Values -/

/-- Whatever built-in codec writes the value, what it writes is read by the same codec, as the other
    value. -/
def Exchanges (final : Service) (value back : Value) : Prop :=
  ∀ codec, Conveys final (writeBuiltin codec value (partsOf value))
    (fun nested => readBuiltin nested codec) back

/-- A value that goes by built-in codecs only is sent behind the type id of its codec. -/
theorem Exchanges.delivers (exchanges : Exchanges final value back) (sturdy : final.Sturdy)
    {key : TypeKey} {own : BuiltinCodec} (typed : value.typeKey? = some key)
    (listed : (key, own) ∈ builtinBindings) :
    Delivers final (writeValueBy value (partsOf value)) (Sent final back) := by
  have inside := contained_partsOf respects_develops value
  refine ⟨respects_develops.writeValueBy inside value, fun writing now ready ran evolved => ?_⟩
  have present : value.isNull = false := by
    cases value with
    | null => cases typed
    | _ => rfl
  have fresh : ∀ held, value ≠ .envelope held := by
    rintro held rfl
    cases typed
  obtain ⟨codec, found⟩ := ready.equipped.lookup listed
  obtain ⟨reached, looked⟩ : ∃ reached, codecForValue value writing.service =
      (.ok (.builtin codec), reached) := ⟨_, codecForValue_of_lookup typed found⟩
  obtain ⟨still, -⟩ := Act.within_of_ok (respects_develops.codecForValue value) looked ready
  rw [writeValueBy_of_codec present fresh looked] at ran
  obtain ⟨run, put, reads⟩ := (exchanges codec).arrives _ now still ran evolved
  refine ⟨_, ?_, sent_of_reads sturdy reads⟩
  rw [put]
  exact List.append_assoc ..

theorem delivers_nested {wanted : Bytes → Prop}
    (delivers : Delivers final (writeValueBy value (partsOf value)) wanted) :
    Delivers final (writeNestedBy value (partsOf value)) wanted := by
  refine ⟨?_, fun writing now ready ran evolved => ?_⟩
  · have inside := respects_develops.pervades.partsOf value
    exact respects_develops.pervades.writeNestedBy inside value
  · unfold writeNestedBy at ran
    rw [Act.bind_of_ok (Act.get_apply writing)] at ran
    split at ran
    case isTrue => exact delivers.arrives writing now ready ran evolved
    case isFalse => cases ran

theorem Exchanges.conveys (exchanges : Exchanges final value back) (sturdy : final.Sturdy)
    {key : TypeKey} {own : BuiltinCodec} (typed : value.typeKey? = some key)
    (listed : (key, own) ∈ builtinBindings) :
    Conveys final (perform (.object value)) (fun nested => performRead nested .object)
      (.object back) :=
  (delivers_nested (exchanges.delivers sturdy typed listed)).mono fun _ sent => sent.reads_object

/-- A built-in value that a codec writes is not too long. -/
theorem plain_of_writeBuiltin {codec : BuiltinCodec} {parts : Parts} {writing now : Writing}
    (builtin : value.Builtin) (ran : writeBuiltin codec value parts writing = (.ok (), now)) :
    value.Plain := by
  have formed : ∀ {item : Except Failure Bytes},
      Writing.onOutput (Output.writeItem item) writing = (.ok (), now) → ∃ run, item = .ok run := by
    intro item ran
    obtain ⟨after, wrote, -⟩ := Act.on_ok ran
    obtain ⟨run, formed, -⟩ := Output.writeItem_ok wrote
    exact ⟨run, formed⟩
  unfold writeBuiltin at ran
  split at ran
  case h_1 s =>
    obtain ⟨run, formed⟩ := formed ran
    obtain ⟨counted, length, -⟩ := Act.settled_map_ok formed
    exact (Input.lt_of_length_ok length).1
  case h_5 content =>
    obtain ⟨run, formed⟩ := formed ran
    exact (Input.byteArray_ok formed).1
  case h_7 n =>
    obtain ⟨run, formed⟩ := formed ran
    have short := (Input.byteArray_ok formed).1
    rwa [TwosComplement.length_encode] at short
  case h_11 => cases ran
  all_goals exact builtin

theorem codec?_of_writeBuiltin {codec : BuiltinCodec} {parts : Parts} {writing now : Writing}
    (ran : writeBuiltin codec value parts writing = (.ok (), now)) :
    value.codec? = some codec := by
  unfold writeBuiltin at ran
  split at ran
  case h_11 => cases ran
  all_goals rfl

/-- Built-in values are written by their own codecs, and read back by them. -/
theorem exchanges_builtin (builtin : value.Builtin) : Exchanges final value value.floor := by
  intro codec
  refine ⟨respects_develops.writeBuiltin (contained_partsOf respects_develops value) codec value,
    fun writing now _ ran _ => ?_⟩
  obtain ⟨key, own, run, carries⟩ := exists_carries (plain_of_writeBuiltin builtin ran)
  have chosen := codec?_of_writeBuiltin ran
  have written : writeBuiltin own value (partsOf value) writing =
      (.ok (), { writing with output := writing.output.append run }) := by
    rw [carries.writes]
    rfl
  rw [codec?_of_writeBuiltin written] at chosen
  obtain rfl : own = codec := Option.some.inj chosen
  rw [written] at ran
  cases ran
  obtain ⟨step, takes, reads⟩ := carries.reads
  refine ⟨run, rfl, fun nested _ => ?_⟩
  dsimp only
  rw [reads]
  exact Receiving.takes_onInput takes final

/-- Where the frame of a portable object is opened as another object, this is what comes back. -/
theorem exchanges_portable {p q : Portable}
    (opens : ∀ run, final.context.Covers p → final.context.frame p = some run →
      Input.Takes (Frame.openAt final.source 0) run q) :
    Exchanges final (.portable p) (.portable q) := by
  intro codec
  refine ⟨respects_develops.writeBuiltin (contained_partsOf respects_develops _) codec _,
    fun writing now still ran evolved => ?_⟩
  obtain rfl : BuiltinCodec.portable = codec := Option.some.inj (codec?_of_writeBuiltin ran)
  obtain ⟨definition, last, ran, done⟩ := Act.bind_ok ran
  cases done
  obtain ⟨closed, reached, closing, -, put, same⟩ := writePortable_ok ran
  obtain ⟨-, answers⟩ := Frame.meets_close p writing.service.context still.sound
  have frames := answers closed reached closing
  obtain ⟨run, framed, content⟩ := frames.appends _ _ put
  have onward : reached.Evolves final.context := by rwa [same] at evolved
  have takes := opens run (onward.covers frames.covers) (onward.frame p run framed)
  refine ⟨run, content, fun nested _ rest position => ?_⟩
  have taken := (Receiving.takes_onInput takes final) rest position
  refine (Act.bind_of_ok (Act.get_apply _)).trans ?_
  rw [Act.map_apply, taken]
  rfl

/-- What the steps of an identified object write is read by the blank object of its class. -/
theorem exchanges_identified {o q : Identified} {blank : BlankIdentified}
    (created : final.factories.create o.factoryId o.classId = some blank)
    (steps : Conveys final (partsOf (.identified o)).steps
      (fun nested => readIdentified nested blank) q) :
    Exchanges final (.identified o) (.identified q) := by
  intro codec
  by_cases own : codec = .identified
  case neg =>
    refine ⟨respects_develops.writeBuiltin (contained_partsOf respects_develops _) codec _,
      fun writing now _ ran _ => ?_⟩
    exact absurd (Option.some.inj (codec?_of_writeBuiltin ran)).symm own
  subst own
  apply ((delivers_write (identity o)).andThen steps).mono
  rintro _ ⟨front, run, rfl, rfl, reads⟩ nested fathoms
  rw [List.length_append] at fathoms
  exact takes_identified created (reads nested (fathoms.mono (Nat.le_add_left _ _)))

end Service

end ObjectWire
