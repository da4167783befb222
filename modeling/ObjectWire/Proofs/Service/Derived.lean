import ObjectWire.Proofs.Derive.Structs
import ObjectWire.Proofs.Service.Builtins
import ObjectWire.Proofs.Service.DataObjects

/-!
# Derived objects round trip

What a new service makes of objects of derived types, portable and identified ones, whose fields hold
scalars, texts and runs of these.  If two bytes can say every character and nothing is too large an
object is encoded, and what it is encoded to is decoded into an object with the same fields.
Otherwise encoding fails, as something that cannot be serialized.
-/

namespace ObjectWire

namespace Service

variable {service : Service} {settings : Settings}

/-! ### Identified objects -/

section Identified

variable {o : Identified} {step : Act Output Unit} {run : Bytes}

/-- An object that writes bytes and nothing else has no partition key. -/
structure Writes (o : Identified) (step : Act Output Unit) : Prop where
  steps : (partsOf (.identified o)).steps = Writing.onOutput step
  keyless : (partsOf (.identified o)).keyHash = pure none

/-- The bytes in front of what an identified object writes. -/
def identity (o : Identified) : Bytes := Wire.int o.factoryId ++ Wire.int o.classId

theorem codecForValue_identified (o : Identified) (settings : Settings) :
    codecForValue (.identified o) (ofSettings settings) =
      (.ok (.builtin .identified), ofSettings settings) := by
  have found : (ofSettings settings).registry.lookup .identified =
      (some (.builtin .identified), (ofSettings settings).registry) := by
    show (ofSettings .default).registry.lookup .identified =
      (some (.builtin .identified), (ofSettings .default).registry)
    rfl
  rw [codecForValue_of_lookup rfl (congrArg Prod.fst found), found]

theorem writeDefined_identified (writes : Writes o step) :
    writeDefined (.builtin .identified) (.identified o) (partsOf (.identified o)) = (do
      Writing.onOutput (Output.write (identity o))
      Writing.onOutput step
      pure none) := by
  show (do
    (do Writing.onOutput (Output.write (identity o)); (partsOf (.identified o)).steps)
    pure none) = _
  rw [writes.steps, bind_assoc]

/-- What an identified object writes is encoded behind its factory and class. -/
theorem toData_of_adds (writes : Writes o step) (adds : Output.Adds step run)
    (settings : Settings) :
    ∃ after, toData (.identified o) (ofSettings settings) =
        (.ok (some (.plain BuiltinCodec.identified.typeId (identity o ++ run))), after) ∧
      after.registry = (ofSettings settings).registry ∧ after.factories = settings.factories ∧
      after.managed = settings.managed := by
  have clean := (keeps_ofSettings settings).sound.clean
  obtain ⟨output, put, content⟩ := ((Output.adds_write (identity o)).andThen adds)
    (ofSettings settings).lent.output
  obtain ⟨_, middle, first, second⟩ := Act.bind_ok put
  have written : writeDefined (.builtin .identified) (.identified o) (partsOf (.identified o))
      (ofSettings settings).lent =
      (.ok none, { (ofSettings settings).lent with output := output }) := by
    rw [writeDefined_identified writes]
    have front : Writing.onOutput (Output.write (identity o)) (ofSettings settings).lent =
        (.ok (), { (ofSettings settings).lent with output := middle }) := by
      rw [Writing.onOutput, Act.on_apply, first]
    have back : Writing.onOutput step { (ofSettings settings).lent with output := middle } =
        (.ok (), { (ofSettings settings).lent with output := output }) := by
      rw [Writing.onOutput, Act.on_apply, second]
    exact (Act.bind_of_ok front).trans ((Act.bind_of_ok back).trans rfl)
  have empty : (ofSettings settings).lent.output.content = [] := clean.acquire_content
  rw [empty, List.nil_append] at content
  have encoded := toData_of_written rfl (codecForValue_identified o settings) written
    writes.keyless
  dsimp only at encoded
  rw [content] at encoded
  exact ⟨_, encoded, rfl, rfl, rfl⟩

/-- An identified object whose step fails to serialize on every output is refused. -/
theorem refuses_of_step (writes : Writes o step)
    (only : step.FailsOnly fun failure => failure.kind = .serialization)
    (never : ∀ output after, step output ≠ (.ok (), after)) (settings : Settings) :
    (ofSettings settings).Refuses (.identified o) := by
  let opened : Output := (ofSettings settings).lent.output.append (identity o)
  rcases ran : step opened with ⟨failure | ⟨⟨⟩⟩, last⟩
  · have failed : writeDefined (.builtin .identified) (.identified o) (partsOf (.identified o))
        (ofSettings settings).lent =
        (.error failure, { (ofSettings settings).lent with output := last }) := by
      rw [writeDefined_identified writes]
      have back : Writing.onOutput step { (ofSettings settings).lent with output := opened } =
          (.error failure, { (ofSettings settings).lent with output := last }) := by
        rw [Writing.onOutput, Act.on_apply, ran]
      exact (Act.bind_of_ok rfl).trans (Act.bind_of_error back)
    obtain ⟨after, buffered⟩ := inBuffer_of_error failed
    have encoded : encodeBy (.identified o) (partsOf (.identified o)) (ofSettings settings) =
        (.error failure, after) := by
      unfold encodeBy
      rw [Act.bind_of_ok (codecForValue_identified o settings), Act.bind_of_error buffered]
    exact refuses_of_encodeBy rfl encoded (only _ _ _ ran)
  · exact absurd ran (never _ _)

/-- What is written for an identified object is read as what a blank object makes of the bytes. -/
theorem takes_identified {blank : BlankIdentified} {q : Identified}
    (created : service.factories.create o.factoryId o.classId = some blank)
    {nested : Act Receiving Value}
    (takes : Receiving.Takes (readIdentified nested blank) run service service q) :
    Receiving.Takes (readBuiltin nested .identified) (identity o ++ run) service service
      (.identified q) := by
  rw [identity, List.append_assoc]
  apply (Receiving.takes_onInput (Input.takes_int o.factoryId) service).bind
  apply (Receiving.takes_onInput (Input.takes_int o.classId) service).bind
  intro rest position
  rw [Act.bind_of_ok (Act.get_apply _)]
  simp only [created]
  rw [Act.map_apply, takes]
  rfl

/-- Whatever registers as a new service does, and makes the same objects, decodes what was written for
    an identified object. -/
theorem toObject_identified {blank : BlankIdentified} {q : Identified}
    (registry : service.registry = (ofSettings settings).registry)
    (created : service.factories.create o.factoryId o.classId = some blank)
    (takes : Receiving.Takes (readIdentified readValue blank) run service service q) :
    (toObject (some (.plain BuiltinCodec.identified.typeId (identity o ++ run))) service).1 =
      .ok (service.handOut (.identified q)) := by
  have answers : service.codecForId BuiltinCodec.identified.typeId =
      some (.builtin .identified) := by
    rw [codecForId, registry]
    rfl
  obtain ⟨left, read⟩ : ∃ left, readBy readValue (.builtin .identified)
      ⟨.ofBytes (identity o ++ run), service, true⟩ =
        (.ok (.identified q), ⟨left, service, true⟩) := by
    have taken := takes_identified created takes [] 0
    rw [List.append_nil] at taken
    exact ⟨_, taken⟩
  rw [toObject_of_bound rfl answers, guarded_of_ok (decodeBy_of_read rfl read)]

/-- A new service returns an identified object that fits, and refuses any other one. -/
theorem returns_or_refuses_identified {blank : BlankIdentified} {q : Identified} {fits : Prop}
    (writes : Writes o step)
    (created : settings.factories.create o.factoryId o.classId = some blank)
    (runs : fits → ∃ run, Output.Adds step run ∧ ∀ nested service,
      Receiving.Takes (readIdentified nested blank) run service service q)
    (only : step.FailsOnly fun failure => failure.kind = .serialization)
    (needs : ∀ output after, step output = (.ok (), after) → fits) :
    (fits → (ofSettings settings).Returns (.identified o) (.identified q)) ∧
      (¬ fits → (ofSettings settings).Refuses (.identified o)) := by
  refine ⟨fun held => ?_, fun lacking =>
    refuses_of_step writes only (fun output after ran => lacking (needs output after ran)) settings⟩
  obtain ⟨run, adds, takes⟩ := runs held
  obtain ⟨after, encoded, registry, factories, managed⟩ := toData_of_adds writes adds settings
  rw [← factories] at created
  have handOut : after.handOut (.identified q) = (ofSettings settings).handOut (.identified q) := by
    rw [Service.handOut, managed]
    rfl
  exact ⟨_, after, encoded, handOut ▸ toObject_identified registry created (takes _ _)⟩

end Identified

/-! ### Objects of derived identified types -/

section Plans

theorem performAll_plain (writes : List PlainWrite) :
    performAll (writes.map OutputStep.plain) =
      Writing.onOutput (Act.forEach PlainWrite.perform writes) := by
  induction writes with
  | nil => rfl
  | cons write writes ih =>
    have parts : Writing.onOutput (Act.forEach PlainWrite.perform (write :: writes)) = (do
        Writing.onOutput write.perform
        Writing.onOutput (Act.forEach PlainWrite.perform writes)) :=
      Act.on_bind (fun _ _ => rfl) fun _ _ _ => rfl
    rw [parts, ← ih]
    rfl

theorem performPlan_plain (nested : Act Receiving Value) (reads : List PlainRead) :
    performPlan nested (.ofSteps (reads.map InputStep.plain)) =
      Receiving.onInput (List.map InputResult.plain <$> Act.collect PlainRead.perform reads) := by
  induction reads with
  | nil => rfl
  | cons read reads ih =>
    rw [List.map_cons, InputPlan.ofSteps, performPlan, ih]
    simp only [performRead, Act.collect, map_eq_pure_bind, Receiving.onInput_bind,
      Receiving.onInput_pure, bind_assoc, pure_bind, List.map_cons]

variable (plan : Derive.IdentifiedPlan) (values : Derive.IdentifiedPlan.Values)

theorem writes_object :
    Writes (plan.object values) (plan.held values).write where
  steps := by
    have same : (plan.fields.map fun field => OutputStep.plain (field.form.write (values field))) =
        ((plan.held values).map fun field => field.1.write field.2).map OutputStep.plain := by
      simp only [Derive.IdentifiedPlan.held, List.map_map, Function.comp_def]
    show performAll _ = _
    rw [same, performAll_plain]
    rfl
  keyless := rfl

variable {plan values}

theorem exists_run_object (fits : (plan.held values).Fits) :
    ∃ run, Output.Adds (plan.held values).write run ∧ ∀ nested service,
      Receiving.Takes (readIdentified nested plan.blank) run service service
        (.scripted plan.factoryId plan.classId [] none (plan.results values)) := by
  obtain ⟨run, adds, takes⟩ := Derive.HeldFields.exists_run fits
  refine ⟨run, adds, fun nested service => ?_⟩
  have reads : (plan.fields.map fun field => InputStep.plain field.form.read) =
      ((plan.held values).map fun field => field.1.read).map InputStep.plain := by
    simp only [Derive.IdentifiedPlan.held, List.map_map, Function.comp_def]
  have results : ((plan.held values).map fun field => field.1.result field.2).map
      InputResult.plain = plan.results values := by
    simp only [Derive.IdentifiedPlan.held, Derive.IdentifiedPlan.results, List.map_map,
      Function.comp_def]
  rw [Derive.IdentifiedPlan.blank, BlankIdentified.scripted, readIdentified, reads,
    performPlan_plain]
  refine (Receiving.takes_onInput (takes.map_eq results) service).bind_nil ?_
  exact Receiving.takes_pure service _

end Plans

/-! ### Customers and readings -/

theorem writes_reading (r : Reading) : Writes (.reading r) r.write where
  steps := rfl
  keyless := rfl

theorem exists_run_reading {r : Reading} (fits : r.held.Fits) :
    ∃ run, Output.Adds r.write run ∧ ∀ nested service,
      Receiving.Takes (readIdentified nested .reading) run service service
        (.reading { r with cached := Reading.blank.cached }) := by
  obtain ⟨run, adds, takes⟩ := Reading.exists_run fits
  refine ⟨run, adds, fun nested service => ?_⟩
  rw [readIdentified, map_eq_pure_bind]
  exact (Receiving.takes_onInput takes service).bind_nil (Receiving.takes_pure service _)

/-- A value that fits is returned, as another one, and a value that does not is refused. -/
def ReturnsIf (service : Service) (fits : Prop) (value back : Value) : Prop :=
  (fits → service.Returns value back) ∧ (¬ fits → service.Refuses value)

/-- New services return the objects of derived types, portable and identified ones, with what every
    field held, if two bytes can say every character in them and they are not too large, and refuse
    all others.  What a customer or a reading does not write is blank in what is returned. -/
theorem derived_objects_round_trip (settings : Settings) :
    (∀ (plan : Derive.PortablePlan) (values : Derive.PortablePlan.Values), plan.Named →
      (ofSettings settings).source.create plan.classId = .ok plan.blank →
      (ofSettings settings).ReturnsIf (plan.data values).Writable
        (.portable (plan.object values))
        (.portable (.scripted plan.classId none [] none (plan.results values))) ∧
      List.Forall₂ (fun field result => field.stored result = some (values field))
        plan.fields (plan.results values)) ∧
    (∀ (plan : Derive.IdentifiedPlan) (values : Derive.IdentifiedPlan.Values),
      (ofSettings settings).factories.create plan.factoryId plan.classId = some plan.blank →
      (ofSettings settings).ReturnsIf (plan.held values).Fits
        (.identified (plan.object values))
        (.identified (.scripted plan.factoryId plan.classId [] none (plan.results values))) ∧
      List.Forall₂ (fun field result => field.form.stored result = some (values field))
        plan.fields (plan.results values)) ∧
    ((ofSettings settings).source.create Customer.classId = .ok .customer →
      ∀ c : Customer, (ofSettings settings).ReturnsIf (DataFields.Writable c.fields)
        (.portable (.customer c))
        (.portable (.customer { c with session := Customer.blank.session }))) ∧
    ((ofSettings settings).factories.create Reading.factoryId Reading.classId = some .reading →
      ∀ r : Reading, (ofSettings settings).ReturnsIf r.held.Fits
        (.identified (.reading r))
        (.identified (.reading { r with cached := Reading.blank.cached }))) := by
  refine ⟨fun plan values named created => ?_, fun plan values created => ?_,
    fun created c => ?_, fun created r => ?_⟩
  · refine ⟨?_, plan.stored_results values⟩
    exact returns_or_refuses rfl rfl (named.describable values) created
      fun _ _ reads => Derive.PortablePlan.readObject_blank values reads
  · refine ⟨?_, plan.stored_results values⟩
    exact returns_or_refuses_identified (writes_object plan values) created exists_run_object
      (Derive.HeldFields.failsOnly_write _) fun _ _ => Derive.HeldFields.fits_of_write
  · apply returns_or_refuses rfl rfl c.describable created
    intro nested reader reads
    rw [Frame.readObject, Customer.read_of_fields reads]
    rfl
  · exact returns_or_refuses_identified (writes_reading r) created exists_run_reading
      (r.write_eq ▸ Derive.HeldFields.failsOnly_write _)
      fun _ _ ran => Derive.HeldFields.fits_of_write (r.write_eq ▸ ran)

/-- A declared class with a renamed field and a skipped one, an identified class, a customer and a
    reading, on a service that makes blank objects of all of them. -/
theorem derived_objects_round_trip_of_four :
    let declaration : Derive.Declaration :=
      ⟨"Person", [], [.list [.word "class_id", .mark '=' false, .number ['1', '1']]], .named,
        [⟨"name", "String", [.list [.word "field_name", .mark '=' false, .text "n"]]⟩,
         ⟨"nick", "Option<String>", []⟩, ⟨"initial", "char", []⟩,
         ⟨"cache", "Cache", [.list [.word "skip"]]⟩]⟩
    let person : Derive.PortablePlan := ⟨declaration, 11, none,
      [⟨"name", "n", .text⟩, ⟨"nick", "nick", .optionalText⟩, ⟨"initial", "initial", .scalar .char⟩]⟩
    let filled (c : Char) : Derive.PortablePlan.Values := fun field => match field.form with
      | .text => "Ada"
      | .optionalText => none
      | .scalar .char => c
      | .scalar kind => kind.default
      | .array _ => []
      | .textArray => []
    let pair : Derive.IdentifiedPlan :=
      ⟨declaration, 20, 4, [⟨"key", .text⟩, ⟨"number", .scalar .long⟩]⟩
    let values : Derive.IdentifiedPlan.Values := fun field => match field.form with
      | .text => "k"
      | .bytes => []
      | .scalar kind => kind.default
    let settings : Settings := { Settings.default with
      portableFactory := some fun id => if id = 11 then some person.blank else some .customer
      factories := Factories.empty.register 20 fun id =>
        if id = 4 then some pair.blank else some .reading }
    let service := ofSettings settings
    let customer := { Customer.blank with email := some "", initial := 'M', session := 77 }
    let reading := { Reading.blank with raw := [0xCA, 0xFE], cached := 5 }
    Derive.PortablePlan.ofDeclaration declaration = .ok person ∧
    service.Returns (.portable (person.object (filled 'A')))
      (.portable (.scripted 11 none [] none
        [.data (.text (some "Ada")), .data (.text none), .data (.scalar .char 'A')])) ∧
    service.Refuses (.portable (person.object (filled '😀'))) ∧
    service.Returns (.identified (pair.object values))
      (.identified (.scripted 20 4 [] none
        [.plain (.text "k"), .plain (.scalar .long (0 : Int64))])) ∧
    service.Returns (.portable (.customer customer))
      (.portable (.customer { customer with session := 0 })) ∧
    service.Refuses (.portable (.customer { customer with initials := ['a', '😀'] })) ∧
    service.Returns (.identified (.reading reading))
      (.identified (.reading { reading with cached := 0 })) := by
  intro declaration person filled pair values settings service customer reading
  obtain ⟨portables, identifieds, customers, readings⟩ := derived_objects_round_trip settings
  have accepted : Derive.PortablePlan.ofDeclaration declaration = .ok person := by decide
  have named : person.Named := by decide
  have persons := fun values => (portables person values named rfl).1
  have pairs := (identifieds pair values rfl).1
  exact ⟨accepted, (persons (filled 'A')).1 (by decide), (persons (filled '😀')).2 (by decide),
    pairs.1 (by decide), (customers rfl customer).1 (by decide), (customers rfl _).2 (by decide),
    (readings rfl reading).1 (by decide)⟩

end Service

end ObjectWire
