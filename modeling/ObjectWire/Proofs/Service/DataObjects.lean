import ObjectWire.Proofs.Portable.Records
import ObjectWire.Proofs.Service.Furnished
import ObjectWire.Proofs.Service.Schema

/-!
# Objects that hold data alone round trip

What a service makes of a portable object without a partition key whose fields hold scalars, texts
and runs of these.  Where nothing is registered the object is encoded if two bytes can say every
character in it and it is not too large, and what it is encoded to is decoded into what a blank
object makes of the same fields.  Otherwise encoding fails, as something that cannot be serialized.
-/

namespace ObjectWire

namespace Service

variable {service : Service} {value back : Value} {settings : Settings}

/-- A value is encoded, and what it is encoded to is decoded as another one, which is handed out. -/
def Returns (service : Service) (value back : Value) : Prop :=
  ∃ e after, toData value service = (.ok (some e), after) ∧
    (toObject (some e) after).1 = .ok (service.handOut back)

/-- A value is not encoded, for it cannot be serialized. -/
def Refuses (service : Service) (value : Value) : Prop :=
  ∃ failure after, toData value service = (.error failure, after) ∧ failure.kind = .serialization

/-- A failure to serialize goes out as it is. -/
theorem refuses_of_encodeBy {parts : Parts} {reached : Service} {failure : Failure}
    (guards : toData value = guarded id (fun service _ => service) (some <$> encodeBy value parts))
    (failed : encodeBy value parts service = (.error failure, reached))
    (kind : failure.kind = .serialization) : service.Refuses value := by
  have ran : (some <$> encodeBy value parts) service = (.error failure, reached) := by
    rw [Act.map_apply, failed]
    rfl
  have same : failure.outward = failure := Failure.outward_of_not_io (by rw [kind]; exact nofun)
  refine ⟨_, _, by rw [guards, guarded_of_error ran], ?_⟩
  rw [report_failure, same]
  exact kind

section Portable

variable {p : Portable} {fields : DataFields}

/-- An object without a partition key. -/
theorem keyHash_partsOf_portable (keyless : p.key = none) :
    (partsOf (.portable p)).keyHash = pure none := by
  cases p with
  | scripted classId version writes key got =>
    cases keyless
    rfl
  | _ => rfl

theorem codecForValue_portable (keeps : service.Keeps settings) :
    codecForValue (.portable p) service = (.ok (.builtin .portable), service) := by
  rw [codecForValue_of_lookup rfl (congrArg Prod.fst keeps.lookup_portable), keeps.lookup_portable]

theorem writeDefined_portable (p : Portable) (parts : Parts) :
    writeDefined (.builtin .portable) (.portable p) parts = some <$> writePortable p := rfl

/-- A frame that is not too large is put behind what was written. -/
theorem writePortable_of_close {writing : Writing} {closed : Frame.Closed}
    {reached : PortableContext}
    (closing : Frame.close p writing.service.context = (.ok closed, reached))
    (small : closed.body.length < Wire.lengthLimit) :
    ∃ last, writePortable p writing = (.ok closed.definition, last) := by
  have adds : Output.Adds closed.write _ := (Output.adds_write _).andThen
    (Output.adds_writeItem (Wire.byteArray_of_lt small))
  obtain ⟨output, put, -⟩ := adds writing.output
  have framed : Writing.onService (onContext (Frame.close p)) writing =
      (.ok closed, { writing with service := { writing.service with context := reached } }) := by
    rw [Writing.onService, Act.on_apply, onContext, Act.on_apply, closing]
  have written : Writing.onOutput closed.write
      { writing with service := { writing.service with context := reached } } =
      (.ok (), { writing with
        output := output, service := { writing.service with context := reached } }) := by
    rw [Writing.onOutput, Act.on_apply, put]
  exact ⟨_, (Act.bind_of_ok framed).trans ((Act.bind_of_ok written).trans rfl)⟩

/-- What keeps an object from being framed and written is a failure to frame it, or that its body is
    too large. -/
theorem writePortable_error {writing last : Writing} {failure : Failure}
    (h : writePortable p writing = (.error failure, last)) :
    (∃ reached, Frame.close p writing.service.context = (.error failure, reached)) ∨
      failure.Unwritable := by
  rcases Act.bind_error h with failed | ⟨closed, middle, -, failed⟩
  · have outcome : (Frame.close p writing.service.context).1 = .error failure :=
      congrArg Prod.fst failed
    exact .inl ⟨_, Prod.ext outcome rfl⟩
  · rcases Act.bind_error failed with failed | ⟨_, _, -, answered⟩
    · have sized : closed.write.FailsOnly Failure.Unwritable :=
        (Output.failsOnly_write _).bind fun _ =>
          Output.failsOnly_writeItem fun _ => Wire.unwritable_byteArray
      exact .inr (Act.FailsOnly.on sized _ _ _ failed)
    · cases answered

section Vacant

variable (keeps : service.Keeps settings) (vacant : ∀ key, service.context.lookup key = none)
  (keyless : p.key = none) (records : p.writes = fields.writes) (describable : fields.Describable)
include keeps vacant keyless records describable

/-- Where nothing is registered, an object of data is encoded if its data can be written. -/
theorem exists_toData_of_writable (writable : fields.Writable) :
    ∃ e after, toData (.portable p) service = (.ok (some e), after) := by
  have sound := (PortableContext.Evolves.borrow .refl).sound keeps.sound
  obtain ⟨closed, reached, closing, small⟩ :=
    Frame.gives_close_of_vacant sound vacant records describable writable
  obtain ⟨last, written⟩ := @writePortable_of_close p service.lent closed reached closing small
  have defined : writeDefined (.builtin .portable) (.portable p) (partsOf (.portable p))
      service.lent = (.ok (some closed.definition), last) := by
    rw [writeDefined_portable, Act.map_apply, written]
    rfl
  exact ⟨_, _, toData_of_written rfl (codecForValue_portable keeps) defined
    (keyHash_partsOf_portable keyless)⟩

/-- Where nothing is registered, an object whose data cannot be written is refused. -/
theorem refuses_of_not_writable (unwritable : ¬ fields.Writable) :
    service.Refuses (.portable p) := by
  rcases ran : encodeBy (.portable p) (partsOf (.portable p)) service with ⟨failure | e, reached⟩
  · apply refuses_of_encodeBy rfl ran
    unfold encodeBy at ran
    rw [Act.bind_of_ok (codecForValue_portable keeps)] at ran
    rcases Act.bind_error ran with failed | ⟨made, middle, -, failed⟩
    · obtain ⟨last, failed⟩ := inBuffer_error failed
      rw [writeDefined_portable, Act.map_apply] at failed
      rcases wrote : writePortable p service.lent with ⟨refused | _, final⟩
      · rw [wrote] at failed
        cases failed
        rcases writePortable_error wrote with ⟨reached, failed⟩ | unwritable
        · exact @Frame.kind_of_close_error service.lent.service.context fields p _ _ vacant records
            describable failed
        · exact unwritable.kind
      · rw [wrote] at failed
        cases failed
    · rw [keyHash_partsOf_portable keyless] at failed
      cases failed
  · have packs := packs_toData keeps (toData_of_encodeBy rfl ran)
    exact absurd (Frame.writable_of_frame packs.covers records packs.payload) unwritable

end Vacant

/-- What an object of data was encoded to by a new service is decoded into what a blank object makes
    of the fields. -/
theorem returns_of_toData {e : Envelope} {after : Service} {blank : BlankPortable} {q : Portable}
    (encoded : toData (.portable p) (ofSettings settings) = (.ok (some e), after))
    (records : p.writes = fields.writes)
    (created : (ofSettings settings).source.create p.classId = .ok blank)
    (reads : ∀ nested reader, (∀ field ∈ fields,
      Frame.read nested reader (.field field.2.kind field.1) = .ok (.data field.2)) →
      Frame.readObject nested reader blank = .ok q) :
    (toObject (some e) after).1 = .ok ((ofSettings settings).handOut (.portable q)) := by
  have packs := packs_toData (keeps_ofSettings settings) encoded
  have keeps : after.Keeps settings := by
    have next := (@Reached.start settings).encode p
    rw [encoded] at next
    exact next.keeps
  have same : after.source.create p.classId = .ok blank := by
    rw [← created]
    simp only [Frame.Source.create, source, keeps.factory]
    rfl
  have taken := Frame.takes_openAt_of_records keeps.sound packs.covers records packs.payload same reads
  have opened : (Frame.openAt after.source 0 (.ofBytes e.payload)).1 = .ok q := by
    have front := taken [] 0
    rw [List.append_nil] at front
    exact congrArg Prod.fst front
  have known : ∀ definition, e.definition = some definition →
      ∃ known, after.context.lookup definition.key = some known := by
    intro definition brought
    obtain ⟨held, same, found⟩ := packs.definition
    rw [brought] at same
    cases same
    exact ⟨definition, by rw [keeps.sound.filed _ _ found]; exact found⟩
  have handOut : after.handOut (.portable q) = (ofSettings settings).handOut (.portable q) := by
    rw [Service.handOut, keeps.managed]
    rfl
  rw [toObject_portable (packs.typeId ▸ keeps.answers) known packs.content, opened, ← handOut]
  rfl

/-- A new service returns an object of data whose data can be written, and refuses any other one. -/
theorem returns_or_refuses {blank : BlankPortable} {q : Portable} (keyless : p.key = none)
    (records : p.writes = fields.writes) (describable : fields.Describable)
    (created : (ofSettings settings).source.create p.classId = .ok blank)
    (reads : ∀ nested reader, (∀ field ∈ fields,
      Frame.read nested reader (.field field.2.kind field.1) = .ok (.data field.2)) →
      Frame.readObject nested reader blank = .ok q) :
    (fields.Writable → (ofSettings settings).Returns (.portable p) (.portable q)) ∧
      (¬ fields.Writable → (ofSettings settings).Refuses (.portable p)) := by
  have keeps := keeps_ofSettings settings
  have vacant : ∀ key, (ofSettings settings).context.lookup key = none := fun _ => rfl
  refine ⟨fun writable => ?_, refuses_of_not_writable keeps vacant keyless records describable⟩
  obtain ⟨e, after, encoded⟩ :=
    exists_toData_of_writable keeps vacant keyless records describable writable
  exact ⟨e, after, encoded, returns_of_toData encoded records created reads⟩

end Portable

end Service

end ObjectWire
