import ObjectWire.Proofs.Portable.Import
import ObjectWire.Service.Reading
import ObjectWire.Service.Writing

/-!
# Envelopes in transit

An envelope that brings a definition has one wire form for every compressed form of the definition.
Where a compressed form is at hand, the envelope is written in its wire form, whether the output is
bound to a service or not.  From its wire form it is read back on a service without definitions,
which then has those of the envelope's definition and everything inside it.
-/

namespace ObjectWire

/-- Neither the definition that an envelope brings nor its payload is too long to be written. -/
structure Envelope.Fits (e : Envelope) (definition : ClassDefinition) : Prop where
  definition : ∃ form, definition.compressedLayout = .ok form ∧ form.length < Wire.lengthLimit
  payload : e.payload.length < Wire.lengthLimit

/-- An envelope fits if the layout of its definition, of known length, leaves room for what packing
    adds. -/
theorem Envelope.fits_of_layout {e : Envelope} {definition other : ClassDefinition} {length : Nat}
    (same : definition.same other = true)
    (measured : other.layout.toOption.map List.length = some length)
    (long : Zlib.alwaysDeflated < length)
    (short : length + 5 * (length / Zlib.storedLimit + 1) + 6 < Wire.lengthLimit)
    (payload : e.payload.length < Wire.lengthLimit) : e.Fits definition := by
  obtain ⟨layout, written, rfl⟩ := Option.map_eq_some_iff.mp measured
  have compressed : definition.compressedLayout = .ok (Zlib.compress layout) := by
    rw [ClassDefinition.compressedLayout_of_same same, ClassDefinition.compressedLayout,
      Act.settled_of_toOption written]
    rfl
  exact ⟨⟨_, compressed, Nat.lt_of_le_of_lt (Zlib.length_compress_le long) short⟩, payload⟩

namespace Transport

/-- The wire form of a definition in compressed form. -/
def definitionForm (key : ClassKey) (compressed : Bytes) : Bytes :=
  Wire.bool true ++ (Wire.classKey key ++
    (BigEndian.encode 4 compressed.length ++ compressed))

/-- The wire form of an explicit hash that may be missing. -/
def hashForm : Option Int32 → Bytes
  | none => Wire.bool false
  | some hash => Wire.bool true ++ Wire.int hash

/-- What stands behind the definition of an envelope in its wire form. -/
def tailForm (e : Envelope) : Bytes :=
  hashForm e.explicitHash ++ (BigEndian.encode 4 e.payload.length ++ e.payload)

/-- The wire form of an envelope that brings a definition. -/
def form (e : Envelope) (key : ClassKey) (compressed : Bytes) : Bytes :=
  Wire.bool true ++ (Wire.int e.typeId ++ (definitionForm key compressed ++ tailForm e))

/-- The wire form of an envelope that brings no definition. -/
def plainForm (e : Envelope) : Bytes :=
  Wire.bool true ++ (Wire.int e.typeId ++ (Wire.bool false ++ tailForm e))

end Transport

namespace Writing

/-- Bytes are put behind what is written, on behalf of a service that may have changed. -/
structure Puts (writing : Writing) (run : Bytes) (reached : Service) (now : Writing) : Prop where
  content : now.output.content = writing.output.content ++ run
  service : now.service = reached
  bound : now.bound = writing.bound

variable {writing now : Writing} {run more : Bytes} {reached last : Service}

theorem Puts.trans {later : Writing} (first : writing.Puts run reached now)
    (second : now.Puts more last later) : writing.Puts (run ++ more) last later := by
  refine ⟨?_, second.service, second.bound.trans first.bound⟩
  rw [second.content, first.content, List.append_assoc]

theorem gives_write (run : Bytes) (writing : Writing) :
    Act.Gives (onOutput (Output.write run)) writing fun _ now =>
      writing.Puts run writing.service now :=
  ⟨(), _, rfl, rfl, rfl, rfl⟩

theorem gives_writeItem {item : Except Failure Bytes} (formed : item = .ok run)
    (writing : Writing) :
    Act.Gives (onOutput (Output.writeItem item)) writing fun _ now =>
      writing.Puts run writing.service now := by
  subst formed
  exact ⟨(), _, rfl, rfl, rfl, rfl⟩

theorem Puts.gives {step : Act Writing Unit} (first : writing.Puts run reached now)
    (next : Act.Gives step now fun _ later => now.Puts more now.service later) :
    Act.Gives step now fun _ later => writing.Puts (run ++ more) reached later := by
  apply next.mono
  intro _ later second
  have both := first.trans second
  rwa [first.service] at both

/-- The compressed form at hand is used by every output. -/
theorem compressedForm_atHand {definition : ClassDefinition} {form : Bytes}
    (atHand : writing.service.context.forms.formOf definition = some form) :
    compressedForm definition writing = (.ok form, writing) := by
  obtain ⟨output, service, bound⟩ := writing
  unfold compressedForm
  rw [Act.bind_of_ok (Act.get_apply _)]
  cases bound with
  | true =>
    rw [if_pos rfl, onService, Act.on_apply, Service.onContext, Act.on_apply,
      PortableContext.binaryOf_of_formOf atHand]
  | false =>
    rw [if_neg (by simp), Act.bind_of_ok (Act.get_apply _), onOutput, Act.on_apply,
      Transport.formAtHand, atHand]
    rfl

theorem gives_tail {e : Envelope} (small : e.payload.length < Wire.lengthLimit)
    (writing : Writing) :
    Act.Gives (do
      onOutput (Output.write (Transport.hashForm e.explicitHash))
      onOutput (Output.writeItem (Wire.byteArray e.payload))) writing fun _ now =>
      writing.Puts (Transport.tailForm e) writing.service now := by
  apply (gives_write _ writing).bind
  intro _ hashed front
  exact front.gives (gives_writeItem (Wire.byteArray_of_lt small) hashed)

/-- An envelope without a definition is written in its wire form. -/
theorem gives_plain {e : Envelope} (plain : e.definition = none)
    (small : e.payload.length < Wire.lengthLimit) :
    Act.Gives (envelope (some e)) writing fun _ now =>
      writing.Puts (Transport.plainForm e) writing.service now := by
  obtain ⟨typeId, payload, held, explicitHash⟩ := e
  obtain rfl : held = none := plain
  unfold envelope Transport.write
  apply (gives_write _ writing).bind
  intro _ named front
  apply (front.gives (gives_write (Wire.bool false) named)).bind
  intro _ marked front
  have back := front.gives (gives_tail (e := ⟨typeId, payload, none, explicitHash⟩) small marked)
  simp only [List.append_assoc] at back
  cases explicitHash <;> exact back

/-- An envelope with a definition is written in its wire form, once a compressed form of the
    definition is there. -/
theorem gives_described {e : Envelope} {definition : ClassDefinition} {form : Bytes}
    (brought : e.definition = some definition)
    (makes : ∀ named : Writing, named.service = writing.service → named.bound = writing.bound →
      Act.Gives (compressedForm definition) named fun compressed next =>
        compressed = form ∧ named.Puts [] reached next)
    (formed : form.length < Wire.lengthLimit) (small : e.payload.length < Wire.lengthLimit) :
    Act.Gives (envelope (some e)) writing fun _ now =>
      writing.Puts (Transport.form e definition.key form) reached now := by
  obtain ⟨typeId, payload, held, explicitHash⟩ := e
  obtain rfl : held = some definition := brought
  unfold envelope Transport.write
  apply (gives_write _ writing).bind
  intro _ named front
  apply (makes named front.service front.bound).bind
  rintro form made ⟨rfl, same⟩
  apply ((front.trans same).gives (gives_write _ made)).bind
  intro _ keyed front
  apply (front.gives (gives_writeItem (Wire.byteArray_of_lt formed) keyed)).bind
  intro _ described front
  have back := front.gives
    (gives_tail (e := ⟨typeId, payload, some definition, explicitHash⟩) small described)
  simp only [List.append_nil, List.append_assoc] at back
  cases explicitHash <;> exact back

/-- An envelope is written in its wire form. -/
theorem gives_envelope {e : Envelope} {definition : ClassDefinition} {form : Bytes}
    (brought : e.definition = some definition)
    (atHand : writing.service.context.forms.formOf definition = some form)
    (formed : form.length < Wire.lengthLimit) (small : e.payload.length < Wire.lengthLimit) :
    Act.Gives (envelope (some e)) writing fun _ now =>
      writing.Puts (Transport.form e definition.key form) writing.service now := by
  refine gives_described brought (fun named service _ => ?_) formed small
  rw [← service] at atHand
  exact ⟨form, named, compressedForm_atHand atHand, rfl, (List.append_nil _).symm, service, rfl⟩

theorem byteArray_of_writeItem_ok {content : Bytes}
    (h : onOutput (Output.writeItem (Wire.byteArray content)) writing = (.ok (), now)) :
    content.length < Wire.lengthLimit := by
  obtain ⟨output, ran, -⟩ := Act.on_ok h
  obtain ⟨bytes, _, lifted, -⟩ := Act.bind_ok ran
  obtain ⟨formed, -⟩ := Act.lift_ok lifted
  exact (Input.byteArray_ok formed).1

theorem compressedForm_ok {definition : ClassDefinition} {form : Bytes}
    (stocked : writing.service.context.Stocked)
    (h : compressedForm definition writing = (.ok form, now)) :
    definition.compressedLayout = .ok form := by
  unfold compressedForm at h
  rw [Act.bind_of_ok (Act.get_apply writing)] at h
  by_cases served : writing.bound = true
  · rw [if_pos served] at h
    obtain ⟨service, ran, -⟩ := Act.on_ok h
    obtain ⟨context, made, -⟩ := Act.on_ok ran
    exact stocked.binaryOf_ok made
  · rw [if_neg served, Act.bind_of_ok (Act.get_apply writing)] at h
    obtain ⟨output, ran, -⟩ := Act.on_ok h
    unfold Transport.formAtHand at ran
    cases found : writing.service.context.forms.formOf definition with
    | some known =>
      rw [found] at ran
      cases ran
      exact stocked.compressedLayout found
    | none =>
      rw [found] at ran
      cases ran

/-- What was written behind the definition of an envelope ended with its payload. -/
theorem tail_ok {e : Envelope} (h : (do
      match e.explicitHash with
      | none => onOutput (Output.write (Wire.bool false))
      | some hash => onOutput (Output.write (Wire.bool true ++ Wire.int hash))
      onOutput (Output.writeItem (Wire.byteArray e.payload))) writing = (.ok (), now)) :
    e.payload.length < Wire.lengthLimit := by
  obtain ⟨typeId, payload, definition, explicitHash⟩ := e
  cases explicitHash with
  | none =>
    obtain ⟨_, hashed, -, h⟩ := Act.bind_ok h
    exact byteArray_of_writeItem_ok h
  | some hash =>
    obtain ⟨_, hashed, -, h⟩ := Act.bind_ok h
    exact byteArray_of_writeItem_ok h

theorem plain_ok {e : Envelope} (plain : e.definition = none)
    (h : envelope (some e) writing = (.ok (), now)) : e.payload.length < Wire.lengthLimit := by
  obtain ⟨typeId, payload, held, explicitHash⟩ := e
  obtain rfl : held = none := plain
  obtain ⟨_, named, -, h⟩ := Act.bind_ok h
  obtain ⟨_, marked, -, h⟩ := Act.bind_ok h
  exact tail_ok (e := ⟨typeId, payload, none, explicitHash⟩) h

/-- An envelope that was written had a compressed form of its definition and a payload that can be
    written. -/
theorem described_ok {e : Envelope} {definition : ClassDefinition}
    (brought : e.definition = some definition)
    (h : envelope (some e) writing = (.ok (), now)) :
    ∃ named form made, named.service = writing.service ∧ named.bound = writing.bound ∧
      compressedForm definition named = (.ok form, made) ∧ form.length < Wire.lengthLimit ∧
      e.payload.length < Wire.lengthLimit := by
  obtain ⟨typeId, payload, held, explicitHash⟩ := e
  obtain rfl : held = some definition := brought
  obtain ⟨_, named, front, h⟩ := Act.bind_ok h
  obtain ⟨output, ran, rfl⟩ := Act.on_ok front
  obtain ⟨form, made, formed, h⟩ := Act.bind_ok h
  obtain ⟨_, keyed, -, h⟩ := Act.bind_ok h
  obtain ⟨_, described, sized, h⟩ := Act.bind_ok h
  exact ⟨⟨output, writing.service, writing.bound⟩, form, made, rfl, rfl, formed,
    byteArray_of_writeItem_ok sized,
    tail_ok (e := ⟨typeId, payload, some definition, explicitHash⟩) h⟩

/-- An envelope that is written had a definition and a payload that can be written. -/
theorem envelope_ok {e : Envelope} {definition : ClassDefinition}
    (stocked : writing.service.context.Stocked) (brought : e.definition = some definition)
    (h : envelope (some e) writing = (.ok (), now)) : e.Fits definition := by
  obtain ⟨named, form, made, service, -, formed, short, small⟩ := described_ok brought h
  rw [← service] at stocked
  exact ⟨⟨form, compressedForm_ok stocked formed, short⟩, small⟩

end Writing

namespace Receiving

variable {α β : Type} {service reached last : Service} {run more : Bytes}

theorem onInput_bind (step : Act Input α) (next : α → Act Input β) :
    onInput (step >>= next) = onInput step >>= fun value => onInput (next value) :=
  Act.on_bind (fun _ _ => rfl) fun _ _ _ => rfl

theorem onInput_pure (value : α) : onInput (pure value) = pure value := rfl

/-- On an input bound to the service, the step takes exactly the run and answers with the value, and
    it leaves the other service. -/
def Takes (step : Act Receiving α) (run : Bytes) (service reached : Service) (value : α) : Prop :=
  ∀ rest position, step ⟨⟨run ++ rest, position⟩, service, true⟩ =
    (.ok value, ⟨⟨rest, position + run.length⟩, reached, true⟩)

theorem takes_pure (service : Service) (value : α) : Takes (pure value) [] service service value :=
  fun _ _ => rfl

theorem takes_onInput {step : Act Input α} {value : α} (h : Input.Takes step run value)
    (service : Service) : Takes (onInput step) run service service value := by
  intro rest position
  rw [onInput, Act.on_apply, h rest position]

theorem Takes.bind {step : Act Receiving α} {next : α → Act Receiving β} {value : α} {answer : β}
    (first : Takes step run service reached value)
    (second : Takes (next value) more reached last answer) :
    Takes (step >>= next) (run ++ more) service last answer := by
  intro rest position
  rw [List.append_assoc, Act.bind_of_ok (first (more ++ rest) position), second,
    List.length_append, Nat.add_assoc]

theorem Takes.bind_nil {step : Act Receiving α} {next : α → Act Receiving β} {value : α}
    {answer : β} (first : Takes step run service reached value)
    (second : Takes (next value) [] reached last answer) :
    Takes (step >>= next) run service last answer := by
  have both := first.bind second
  rwa [List.append_nil] at both

/-- On an input bound to the service, the step fails if the input begins with the run. -/
def Fails (step : Act Receiving α) (run : Bytes) (service : Service) (failure : Failure) : Prop :=
  ∀ rest position, (step ⟨⟨run ++ rest, position⟩, service, true⟩).1 = .error failure

theorem Takes.fails {step : Act Receiving α} {next : α → Act Receiving β} {value : α}
    {failure : Failure} (first : Takes step run service reached value)
    (second : Fails (next value) more reached failure) :
    Fails (step >>= next) (run ++ more) service failure := by
  intro rest position
  rw [List.append_assoc, Act.bind_of_ok (first (more ++ rest) position), second]

theorem Fails.bind {step : Act Receiving α} {failure : Failure}
    (h : Fails step run service failure) (next : α → Act Receiving β) (more : Bytes) :
    Fails (step >>= next) (run ++ more) service failure := by
  intro rest position
  rw [List.append_assoc]
  have failed := h (more ++ rest) position
  rcases ran : step ⟨⟨run ++ (more ++ rest), position⟩, service, true⟩ with ⟨outcome, reached⟩
  rw [ran] at failed
  rw [Act.bind_of_error (ran.trans (congrArg (·, reached) failed))]

theorem resolve_new {key : ClassKey} {form : Bytes} (new : service.context.lookup key = none)
    (input : Input) :
    resolve key form ⟨input, service, true⟩ =
      onService (Service.onContext (PortableContext.importCompressed form))
        ⟨input, service, true⟩ := by
  unfold resolve
  rw [Act.bind_of_ok (Act.get_apply _), if_pos rfl, Act.bind_of_ok (Act.get_apply _)]
  dsimp only
  rw [new]

/-- A compressed form whose class and version are new is imported. -/
theorem takes_resolve {key : ClassKey} {form : Bytes} {settled : ClassDefinition}
    {context : PortableContext} (new : service.context.lookup key = none)
    (imported : PortableContext.importCompressed form service.context = (.ok settled, context)) :
    Takes (resolve key form) [] service { service with context := context } settled := by
  intro rest position
  rw [resolve_new new, onService, Act.on_apply, Service.onContext, Act.on_apply]
  dsimp only
  rw [imported]
  rfl

theorem fails_resolve {key : ClassKey} {form : Bytes} {failure : Failure}
    {context : PortableContext} (new : service.context.lookup key = none)
    (refused : PortableContext.importCompressed form service.context = (.error failure, context)) :
    Fails (resolve key form) [] service failure := by
  intro rest position
  rw [resolve_new new, onService, Act.on_apply, Service.onContext, Act.on_apply]
  dsimp only
  rw [refused]

/-- What is registered for a class and version is used, whatever arrives for it. -/
theorem takes_resolve_known {key : ClassKey} {form : Bytes} {known : ClassDefinition}
    (registered : service.context.lookup key = some known) :
    Takes (resolve key form) [] service service known := by
  intro rest position
  unfold resolve
  rw [Act.bind_of_ok (Act.get_apply _), if_pos rfl, Act.bind_of_ok (Act.get_apply _)]
  dsimp only
  rw [registered]
  rfl

theorem takes_tail {e : Envelope} (small : e.payload.length < Wire.lengthLimit)
    (definition : Option ClassDefinition) (service : Service) :
    Takes (do
      let hash ← do
        if ← onInput Input.bool then some <$> onInput Input.int else pure none
      let payload ← onInput Input.byteArray
      pure (some (⟨e.typeId, payload, definition, hash⟩ : Envelope)))
      (Transport.tailForm e) service service (some { e with definition := definition }) := by
  obtain ⟨typeId, payload, held, explicitHash⟩ := e
  have content := takes_onInput (Input.takes_byteArray (Wire.byteArray_of_lt small)) service
  unfold Transport.tailForm
  cases explicitHash with
  | none =>
    apply (takes_onInput (Input.takes_bool false) service).bind
    exact content.bind_nil (takes_pure service _)
  | some hash =>
    rw [Transport.hashForm, List.append_assoc]
    apply (takes_onInput (Input.takes_bool true) service).bind
    have word : Takes (some <$> onInput Input.int) (Wire.int hash) service service (some hash) := by
      rw [map_eq_pure_bind]
      exact (takes_onInput (Input.takes_int hash) service).bind_nil (takes_pure service _)
    apply word.bind
    exact content.bind_nil (takes_pure service _)

theorem takes_absent (service : Service) :
    Takes envelope (Wire.bool false) service service none :=
  (takes_onInput (Input.takes_bool false) service).bind_nil (takes_pure service _)

/-- An envelope without a definition is taken from its wire form. -/
theorem takes_plain {e : Envelope} (small : e.payload.length < Wire.lengthLimit)
    (service : Service) :
    Takes envelope (Transport.plainForm e) service service
      (some { e with definition := none }) := by
  apply (takes_onInput (Input.takes_bool true) service).bind
  apply (takes_onInput (Input.takes_int e.typeId) service).bind
  apply (takes_onInput (Input.takes_bool false) service).bind
  exact takes_tail small none service

/-- An envelope is taken from its wire form, with the definition that its class and version resolve
    to. -/
theorem takes_envelope {e : Envelope} {form : Bytes} {key : ClassKey} {settled : ClassDefinition}
    (formed : form.length < Wire.lengthLimit) (small : e.payload.length < Wire.lengthLimit)
    (resolved : Takes (resolve key form) [] service reached settled) (same : settled.key = key) :
    Takes envelope (Transport.form e key form) service reached
      (some { e with definition := some settled }) := by
  have compressed := takes_onInput (Input.takes_byteArray (Wire.byteArray_of_lt formed)) service
  unfold envelope Transport.read
  simp only [Transport.form, Transport.definitionForm, List.append_assoc]
  apply (takes_onInput (Input.takes_bool true) service).bind
  apply (takes_onInput (Input.takes_int e.typeId) service).bind
  apply (takes_onInput (Input.takes_bool true) service).bind
  apply (takes_onInput (Input.takes_classKey key) service).bind
  rw [← List.append_assoc (BigEndian.encode 4 form.length)]
  apply compressed.bind
  rw [← List.nil_append (Transport.tailForm e)]
  apply resolved.bind
  simp only [if_pos same, pure_bind]
  exact takes_tail small (some settled) reached

/-- An envelope whose class and version do not resolve to a definition is not taken. -/
theorem fails_envelope {e : Envelope} {form : Bytes} {key : ClassKey} {failure : Failure}
    (formed : form.length < Wire.lengthLimit)
    (refused : Fails (resolve key form) [] service failure) :
    Fails envelope (Transport.form e key form) service failure := by
  have compressed := takes_onInput (Input.takes_byteArray (Wire.byteArray_of_lt formed)) service
  unfold envelope Transport.read
  simp only [Transport.form, Transport.definitionForm, List.append_assoc]
  apply (takes_onInput (Input.takes_bool true) service).fails
  apply (takes_onInput (Input.takes_int e.typeId) service).fails
  apply (takes_onInput (Input.takes_bool true) service).fails
  apply (takes_onInput (Input.takes_classKey key) service).fails
  rw [← List.append_assoc (BigEndian.encode 4 form.length)]
  apply compressed.fails
  exact refused.bind _ _

end Receiving

end ObjectWire
