import ObjectWire.Proofs.Act
import ObjectWire.Proofs.Derive.Statements

/-!
# Structs of a declaration

The fields of a plan are those of its declaration that are not skipped, in order, each in the form
that its type has.  So whatever a struct of the declaration holds, the fields of the plan hold
values, and the plan's statements do on it what an object with these values does.

Customers and readings are such structs.  The fields that they write and read are those that the
statements for their declarations do, so what holds of the former holds of derived code.
-/

namespace ObjectWire

namespace Derive

/-- What comes of items comes of some of them, in order. -/
theorem exists_sublist_of_mapM {ε α β : Type} {f : α → Except ε (Option β)} {items : List α}
    {outcomes : List (Option β)} (h : items.mapM f = .ok outcomes) :
    ∃ kept : List (α × β), kept.map Prod.snd = outcomes.filterMap id ∧
      (kept.map Prod.fst).Sublist items ∧ ∀ pair ∈ kept, f pair.1 = .ok (some pair.2) := by
  induction items generalizing outcomes with
  | nil =>
    cases h
    exact ⟨[], rfl, .slnil, nofun⟩
  | cons item items ih =>
    rw [List.mapM_cons] at h
    obtain ⟨outcome, first, h⟩ := Act.settled_bind_ok h
    obtain ⟨others, rest, h⟩ := Act.settled_bind_ok h
    cases h
    obtain ⟨kept, same, part, each⟩ := ih rest
    cases outcome with
    | none => exact ⟨kept, same, part.cons item, each⟩
    | some made =>
      refine ⟨(item, made) :: kept, ?_, part.cons_cons item, List.forall_mem_cons.mpr ⟨first, each⟩⟩
      rw [List.map_cons, same]
      rfl

namespace Declaration

/-- The fields of a struct are those that are declared, and each holds something of its type. -/
def Typed (declaration : Declaration) (slots : Slots) : Prop :=
  slots.map (fun entry => (entry.1, entry.2.typeName)) =
    declaration.fields.map fun field => (field.name, field.typeName)

/-- No two fields are of one name. -/
def Distinct (declaration : Declaration) : Prop := (declaration.fields.map (·.name)).Nodup

instance decidableDistinct (declaration : Declaration) : Decidable declaration.Distinct :=
  inferInstanceAs (Decidable (declaration.fields.map (·.name)).Nodup)

theorem namedFields_ok {declaration : Declaration} {family : Family} {fields : List DeclaredField}
    (h : declaration.namedFields family = .ok fields) : fields = declaration.fields := by
  unfold namedFields at h
  split at h <;> cases h
  rfl

/-- A declared field holds something of its type. -/
theorem Typed.exists_lookup {declaration : Declaration} {slots : Slots} {field : DeclaredField}
    (typed : declaration.Typed slots) (distinct : declaration.Distinct)
    (member : field ∈ declaration.fields) :
    ∃ slot, slots.lookup field.name = some slot ∧ slot.typeName = field.typeName := by
  have names : slots.map Prod.fst = declaration.fields.map (·.name) := by
    have same := congrArg (List.map Prod.fst) typed
    rwa [List.map_map, List.map_map] at same
  have listed : (field.name, field.typeName) ∈
      slots.map fun entry => (entry.1, entry.2.typeName) := by
    rw [typed]
    exact List.mem_map_of_mem member
  obtain ⟨⟨name, slot⟩, among, same⟩ := List.mem_map.mp listed
  obtain ⟨called, alike⟩ := Prod.mk.inj same
  exact ⟨slot, called ▸ Keyed.lookup_of_mem (names ▸ distinct) among, alike⟩

end Declaration

/-- The fields come of declared ones, in order, under their names and with types that `ofType` says
    are those of the fields. -/
def Declaration.Covers {Field : Type} (declaration : Declaration) (name : Field → String)
    (ofType : Field → String → Prop) (fields : List Field) : Prop :=
  ∃ kept : List (DeclaredField × Field), kept.map Prod.snd = fields ∧
    (kept.map Prod.fst).Sublist declaration.fields ∧
    ∀ pair ∈ kept, name pair.2 = pair.1.name ∧ ofType pair.2 pair.1.typeName

namespace Declaration.Covers

variable {Field : Type} {declaration : Declaration} {name : Field → String}
  {ofType : Field → String → Prop} {fields : List Field}

theorem names_nodup (covers : declaration.Covers name ofType fields)
    (distinct : declaration.Distinct) : (fields.map name).Nodup := by
  obtain ⟨kept, rfl, part, each⟩ := covers
  have names : (kept.map Prod.snd).map name = (kept.map Prod.fst).map (·.name) := by
    rw [List.map_map, List.map_map]
    exact List.map_congr_left fun pair member => (each pair member).1
  rw [names]
  exact distinct.sublist (part.map _)

/-- What the fields of a struct hold are values for the fields that come of the declaration, if
    whatever is of the type of such a field is a value for it. -/
theorem exists_values {Held : Field → Type} [∀ field, Inhabited (Held field)]
    {slot : (field : Field) → Held field → Slot} {slots : Slots}
    (covers : declaration.Covers name ofType fields) (distinct : declaration.Distinct)
    (typed : declaration.Typed slots)
    (each : ∀ field held, ofType field held.typeName → ∃ value, slot field value = held) :
    ∃ values : (field : Field) → Held field,
      ∀ field ∈ fields, slots.lookup (name field) = some (slot field (values field)) := by
  obtain ⟨kept, rfl, part, of⟩ := covers
  have total : ∀ field, ∃ value, field ∈ kept.map Prod.snd →
      slots.lookup (name field) = some (slot field value) := by
    intro field
    by_cases member : field ∈ kept.map Prod.snd
    · obtain ⟨⟨declared, field⟩, among, rfl⟩ := List.mem_map.mp member
      obtain ⟨called, formed⟩ := of _ among
      have listed := part.subset (List.mem_map_of_mem among)
      obtain ⟨held, found, alike⟩ := typed.exists_lookup distinct listed
      obtain ⟨value, rfl⟩ := each _ held (alike ▸ formed)
      exact ⟨value, fun _ => called ▸ found⟩
    · exact ⟨default, fun among => absurd among member⟩
  choose values holds using total
  exact ⟨values, holds⟩

end Declaration.Covers

/-! ### Portable plans -/

namespace PortableForm

instance inhabitedHeld : (form : PortableForm) → Inhabited form.Held
  | scalar kind => ⟨kind.default⟩
  | text => ⟨""⟩
  | optionalText => ⟨none⟩
  | array _ | textArray => ⟨[]⟩

/-- What is of a type that has a form is a value of that form. -/
theorem exists_slot {slot : Slot} {form : PortableForm}
    (h : ofType? slot.typeName = some form) : ∃ value, form.slot value = slot := by
  cases slot with
  | scalar kind item => cases kind <;> cases h <;> exact ⟨item, rfl⟩
  | text s => cases h; exact ⟨s, rfl⟩
  | optionalText s => cases h; exact ⟨s, rfl⟩
  | array kind items => cases kind <;> cases h <;> exact ⟨items, rfl⟩
  | textArray items => cases h; exact ⟨items, rfl⟩
  | bytes run => cases h
  | other type formless => cases formless.1.symm.trans h

end PortableForm

theorem PortableField.of_ofDeclared {declared : DeclaredField} {field : PortableField}
    (h : PortableField.ofDeclared declared = .ok (some field)) :
    field.name = declared.name ∧ PortableForm.ofType? declared.typeName = some field.form := by
  obtain ⟨skipped, -, h⟩ := Act.settled_bind_ok h
  cases skipped with
  | true => cases h
  | false =>
    obtain ⟨wire, -, h⟩ := Act.settled_bind_ok h
    split at h
    · next form formed =>
      cases h
      exact ⟨rfl, formed⟩
    · cases h

namespace PortablePlan

variable {declaration : Declaration} {plan : PortablePlan} {slots blank : Slots}

theorem covers_ofDeclaration (made : ofDeclaration declaration = .ok plan) :
    declaration.Covers PortableField.name
      (fun field type => PortableForm.ofType? type = some field.form) plan.fields := by
  obtain ⟨classId, -, made⟩ := Act.settled_bind_ok made
  obtain ⟨version, -, made⟩ := Act.settled_bind_ok made
  obtain ⟨declared, named, made⟩ := Act.settled_bind_ok made
  obtain ⟨outcomes, each, made⟩ := Act.settled_bind_ok made
  cases made
  cases Declaration.namedFields_ok named
  obtain ⟨kept, same, part, comes⟩ := exists_sublist_of_mapM each
  exact ⟨kept, same, part, fun pair member => PortableField.of_ofDeclared (comes pair member)⟩

/-- Every struct of a declaration is an object of its plan, whose statements do on the struct what
    the object does: they write what it writes, and leave that in any other struct of the
    declaration that reads it, but for the fields that are skipped. -/
theorem structs_are_objects (made : ofDeclaration declaration = .ok plan)
    (distinct : declaration.Distinct) (typed : declaration.Typed slots)
    (typed' : declaration.Typed blank) :
    ∃ values writes reads after, plan.Holds values slots ∧
      plan.fields.map (fun field => field.code.write.fieldWrite? slots) = writes.map some ∧
      plan.object values = .scripted plan.classId plan.version writes none [] ∧
      plan.fields.map (fun field => field.code.read.fieldRead?) = reads.map some ∧
      plan.blank = .scripted plan.classId reads ∧
      ReadStatement.storeAll ReadStatement.ofField?
        (plan.fields.map fun field => field.code.read) (plan.results values) blank = some after ∧
      plan.Holds values after ∧
      ∀ name ∉ plan.fields.map PortableField.name, after.lookup name = blank.lookup name := by
  have covers := covers_ofDeclaration made
  have each : ∀ (field : PortableField) (held : Slot),
      PortableForm.ofType? held.typeName = some field.form →
      ∃ value, field.form.slot value = held := fun _ _ => PortableForm.exists_slot
  obtain ⟨values, holds⟩ := covers.exists_values distinct typed each
  obtain ⟨before, had⟩ := covers.exists_values distinct typed' each
  obtain ⟨⟨writes, meant, object⟩, ⟨reads, asked, fresh⟩, stores⟩ := statements_agree holds
  obtain ⟨after, stored, held, kept⟩ := stores (covers.names_nodup distinct) before had
  exact ⟨values, writes, reads, after, holds, meant, object, asked, fresh, stored, held, kept⟩

end PortablePlan

/-! ### Identified plans -/

namespace IdentifiedForm

instance inhabitedHeld : (form : IdentifiedForm) → Inhabited form.Held
  | scalar kind => ⟨kind.default⟩
  | text => ⟨""⟩
  | bytes => ⟨[]⟩

/-- What is of a type that has a form is a value of that form. -/
theorem exists_slot {slot : Slot} {form : IdentifiedForm}
    (h : ofType? slot.typeName = some form) : ∃ value, form.slot value = slot := by
  cases slot with
  | scalar kind item => cases kind <;> cases h <;> exact ⟨item, rfl⟩
  | text s => cases h; exact ⟨s, rfl⟩
  | optionalText s => cases h
  | array kind items => cases kind <;> cases h
  | textArray items => cases h
  | bytes run => cases h; exact ⟨run, rfl⟩
  | other type formless => cases formless.2.symm.trans h

/-- Fields of a type have a form that there are calls for. -/
theorem mem_called_of_ofType? {type : String} {form : IdentifiedForm}
    (h : ofType? type = some form) : form ∈ called := by
  unfold ofType? at h
  split at h
  · cases h
    decide
  split at h
  · cases h
    decide
  split at h
  · cases h
  · cases h
  · next kind other _ =>
    cases h
    cases kind <;> first | decide | exact absurd rfl other

end IdentifiedForm

theorem IdentifiedField.of_ofDeclared {declared : DeclaredField} {field : IdentifiedField}
    (h : IdentifiedField.ofDeclared declared = .ok (some field)) :
    field.name = declared.name ∧ IdentifiedForm.ofType? declared.typeName = some field.form := by
  obtain ⟨skipped, -, h⟩ := Act.settled_bind_ok h
  cases skipped with
  | true => cases h
  | false =>
    cases formed : IdentifiedForm.ofType? declared.typeName with
    | none =>
      rw [formed] at h
      cases h
    | some form =>
      rw [formed] at h
      cases h
      exact ⟨rfl, rfl⟩

namespace IdentifiedPlan

variable {declaration : Declaration} {plan : IdentifiedPlan} {slots blank : Slots}

theorem covers_ofDeclaration (made : ofDeclaration declaration = .ok plan) :
    declaration.Covers IdentifiedField.name
      (fun field type => IdentifiedForm.ofType? type = some field.form) plan.fields := by
  obtain ⟨factoryId, -, made⟩ := Act.settled_bind_ok made
  obtain ⟨classId, -, made⟩ := Act.settled_bind_ok made
  obtain ⟨declared, named, made⟩ := Act.settled_bind_ok made
  obtain ⟨outcomes, each, made⟩ := Act.settled_bind_ok made
  cases made
  cases Declaration.namedFields_ok named
  obtain ⟨kept, same, part, comes⟩ := exists_sublist_of_mapM each
  exact ⟨kept, same, part, fun pair member => IdentifiedField.of_ofDeclared (comes pair member)⟩

/-- Every struct of a declaration is an object of its plan, whose statements do on the struct what
    the object does: they write what it writes, and leave that in any other struct of the
    declaration that reads it, but for the fields that are skipped. -/
theorem structs_are_objects (made : ofDeclaration declaration = .ok plan)
    (distinct : declaration.Distinct) (typed : declaration.Typed slots)
    (typed' : declaration.Typed blank) :
    ∃ values writes reads after, plan.Holds values slots ∧
      plan.fields.map (fun field => field.code.write.outputStep? slots) = writes.map some ∧
      plan.object values = .scripted plan.factoryId plan.classId writes none [] ∧
      plan.fields.map (fun field => field.code.read.inputStep?) = reads.map some ∧
      plan.blank = .scripted plan.factoryId plan.classId reads ∧
      ReadStatement.storeAll ReadStatement.ofInput?
        (plan.fields.map fun field => field.code.read) (plan.results values) blank = some after ∧
      plan.Holds values after ∧
      ∀ name ∉ plan.fields.map IdentifiedField.name, after.lookup name = blank.lookup name := by
  have covers := covers_ofDeclaration made
  have known : ∀ field ∈ plan.fields, field.form ∈ IdentifiedForm.called := by
    intro field member
    obtain ⟨kept, same, -, each⟩ := covers
    rw [← same] at member
    obtain ⟨pair, among, rfl⟩ := List.mem_map.mp member
    exact IdentifiedForm.mem_called_of_ofType? (each pair among).2
  have each : ∀ (field : IdentifiedField) (held : Slot),
      IdentifiedForm.ofType? held.typeName = some field.form →
      ∃ value, field.form.slot value = held := fun _ _ => IdentifiedForm.exists_slot
  obtain ⟨values, holds⟩ := covers.exists_values distinct typed each
  obtain ⟨before, had⟩ := covers.exists_values distinct typed' each
  obtain ⟨⟨writes, meant, object⟩, ⟨reads, asked, fresh⟩, stores⟩ := statements_agree known holds
  obtain ⟨after, stored, held, kept⟩ := stores (covers.names_nodup distinct) before had
  exact ⟨values, writes, reads, after, holds, meant, object, asked, fresh, stored, held, kept⟩

end IdentifiedPlan

end Derive

/-! ### Customers and readings -/

namespace Reading

/-- The fields that are written, with what they hold. -/
def held (r : Reading) : Derive.HeldFields :=
  [⟨.text, r.sensor⟩, ⟨.scalar .double, r.value⟩, ⟨.scalar .float, r.ratio⟩, ⟨.scalar .bool, r.ok⟩,
   ⟨.scalar .byte, r.tiny⟩, ⟨.scalar .short, r.small⟩, ⟨.scalar .int, r.count⟩,
   ⟨.scalar .long, r.sequence⟩, ⟨.bytes, r.raw⟩]

/-- The declaration of readings. -/
def declaration : Derive.Declaration :=
  ⟨"Reading", [],
    [.list [.word "factory_id", .mark '=' false, .number ['2', '0'], .mark ',' false,
      .word "class_id", .mark '=' false, .number ['3']]], .named,
    [⟨"sensor", "String", []⟩, ⟨"value", "f64", []⟩, ⟨"ratio", "f32", []⟩, ⟨"ok", "bool", []⟩,
     ⟨"tiny", "i8", []⟩, ⟨"small", "i16", []⟩, ⟨"count", "i32", []⟩, ⟨"sequence", "i64", []⟩,
     ⟨"raw", "Vec<u8>", []⟩, ⟨"cached", "i32", [.list [.word "skip"]]⟩]⟩

/-- The plan for readings. -/
def plan : Derive.IdentifiedPlan :=
  ⟨declaration, factoryId, classId,
    [⟨"sensor", .text⟩, ⟨"value", .scalar .double⟩, ⟨"ratio", .scalar .float⟩,
     ⟨"ok", .scalar .bool⟩, ⟨"tiny", .scalar .byte⟩, ⟨"small", .scalar .short⟩,
     ⟨"count", .scalar .int⟩, ⟨"sequence", .scalar .long⟩, ⟨"raw", .bytes⟩]⟩

/-- The fields of a reading. -/
def slots (r : Reading) : Derive.Slots :=
  [("sensor", .text r.sensor), ("value", .scalar .double r.value),
   ("ratio", .scalar .float r.ratio), ("ok", .scalar .bool r.ok), ("tiny", .scalar .byte r.tiny),
   ("small", .scalar .short r.small), ("count", .scalar .int r.count),
   ("sequence", .scalar .long r.sequence), ("raw", .bytes r.raw),
   ("cached", .scalar .int r.cached)]

theorem ofDeclaration_declaration : Derive.IdentifiedPlan.ofDeclaration declaration = .ok plan := by
  decide +kernel

theorem typed_slots (r : Reading) : declaration.Typed r.slots := rfl

/-- The statements for readings write the fields of a reading, and read them. -/
theorem held_of_statements (r : Reading) :
    plan.fields.map (fun field => field.code.write.outputStep? r.slots) =
        r.held.map (fun field => some (.plain (field.1.write field.2))) ∧
      plan.fields.map (fun field => field.code.read.inputStep?) =
        r.held.map fun field => some (.plain field.1.read) :=
  ⟨rfl, rfl⟩

/-- A reading is an object of the plan: the plan's objects write its fields, and what is read of them
    stands in the fields of a blank reading afterwards, but for the cached count. -/
theorem is_object (r : Reading) :
    ∃ values after, plan.Holds values r.slots ∧
      plan.object values = .scripted factoryId classId
        (r.held.map fun field => .plain (field.1.write field.2)) none [] ∧
      Derive.ReadStatement.storeAll Derive.ReadStatement.ofInput?
        (plan.fields.map fun field => field.code.read) (plan.results values) blank.slots =
          some after ∧
      plan.Holds values after ∧ after.lookup "cached" = blank.slots.lookup "cached" := by
  obtain ⟨values, writes, reads, after, holds, meant, object, -, -, stored, held, kept⟩ :=
    Derive.IdentifiedPlan.structs_are_objects ofDeclaration_declaration (by decide)
      r.typed_slots blank.typed_slots
  have same : writes = r.held.map fun field => .plain (field.1.write field.2) := by
    rw [(held_of_statements r).1] at meant
    refine List.map_injective_iff.mpr (Option.some_injective _) (meant.symm.trans ?_)
    rw [List.map_map]
    rfl
  exact ⟨values, after, holds, same ▸ object, stored, held, kept _ (by decide)⟩

theorem write_eq (r : Reading) : r.write = r.held.write := by
  have last : Output.writeItem (Wire.byteArray r.raw) = (do
      Output.writeItem (Wire.byteArray r.raw)
      pure ()) := (bind_pure _).symm
  rw [write, last]
  rfl

/-- A reading that fits is written, and read back with a blank count. -/
theorem exists_run {r : Reading} (fits : r.held.Fits) :
    ∃ run, Output.Adds r.write run ∧ Input.Takes read run { r with cached := blank.cached } := by
  simp only [held, Derive.HeldFields.Fits, List.forall_mem_cons] at fits
  obtain ⟨sensor, -, -, -, -, -, -, -, raw, -⟩ := fits
  have sensor := Wire.string_of_lt sensor
  have raw := Wire.byteArray_of_lt raw
  refine ⟨_, (Output.adds_writeItem sensor).andThen <| (Output.adds_writeItem rfl).andThen <|
    (Output.adds_writeItem rfl).andThen <| (Output.adds_write _).andThen <|
    (Output.adds_write _).andThen <| (Output.adds_write _).andThen <|
    (Output.adds_write _).andThen <| (Output.adds_write _).andThen <|
    Output.adds_writeItem raw, ?_⟩
  apply (Input.takes_string sensor).bind
  apply (@ScalarKind.takes_decode .double r.value _ rfl).bind
  apply (@ScalarKind.takes_decode .float r.ratio _ rfl).bind
  apply (Input.takes_bool r.ok).bind
  apply (Input.takes_byte r.tiny).bind
  apply (Input.takes_short r.small).bind
  apply (Input.takes_int r.count).bind
  apply (Input.takes_long r.sequence).bind
  exact (Input.takes_byteArray raw).bind_nil (Input.takes_pure _)

end Reading

namespace Frame

/-! What is read from the field that a value was read from. -/

variable {nested : Act Input Portable} {reader : BodyReader} {name : String}

theorem scalar_of_read {kind : ScalarKind} {item : kind.Item}
    (h : read nested reader (.field (.scalar kind) name) = .ok (.data (.scalar kind item))) :
    reader.scalar kind name = .ok item := by
  obtain ⟨_, found, same⟩ := Act.settled_map_ok h
  cases same
  exact found

theorem text_of_read {text : Option String}
    (h : read nested reader (.field .text name) = .ok (.data (.text text))) :
    reader.text name = .ok text := by
  obtain ⟨_, found, same⟩ := Act.settled_map_ok h
  cases same
  exact found

theorem array_of_read {kind : ScalarKind} {items : Option (List kind.Item)}
    (h : read nested reader (.field (.array kind) name) = .ok (.data (.array kind items))) :
    reader.array kind name = .ok items := by
  obtain ⟨_, found, same⟩ := Act.settled_map_ok h
  cases same
  exact found

theorem textArray_of_read {items : Option (List String)}
    (h : read nested reader (.field .textArray name) = .ok (.data (.textArray items))) :
    reader.textArray name = .ok items := by
  obtain ⟨_, found, same⟩ := Act.settled_map_ok h
  cases same
  exact found

end Frame

namespace Customer

theorem describable (c : Customer) : DataFields.Describable c.fields := by
  have names : c.fields.map Prod.fst = blank.fields.map Prod.fst := rfl
  have distinct : (blank.fields.map Prod.fst).Nodup := by decide
  have short : ∀ name ∈ blank.fields.map Prod.fst, Utf8.width name < Wire.lengthLimit := by decide
  refine ⟨names ▸ distinct, fun field member => ?_, ?_⟩
  · exact short _ (names ▸ List.mem_map_of_mem member)
  · show 19 < Wire.lengthLimit
    decide

/-- The declaration of customers. -/
def declaration : Derive.Declaration :=
  ⟨"Customer", [],
    [.list [.word "class_id", .mark '=' false, .number ['1', '0'], .mark ',' false,
      .word "version", .mark '=' false, .number ['1']]], .named,
    [⟨"name", "String", []⟩,
     ⟨"email", "Option<String>", [.list [.word "field_name", .mark '=' false,
      .text "emailAddress"]]⟩,
     ⟨"flag", "bool", []⟩, ⟨"level", "i8", []⟩, ⟨"initial", "char", []⟩, ⟨"small", "i16", []⟩,
     ⟨"age", "i32", []⟩, ⟨"visits", "i64", []⟩, ⟨"ratio", "f32", []⟩, ⟨"balance", "f64", []⟩,
     ⟨"levels", "Vec<i8>", []⟩, ⟨"flags", "Vec<bool>", []⟩, ⟨"initials", "Vec<char>", []⟩,
     ⟨"smalls", "Vec<i16>", []⟩, ⟨"ages", "Vec<i32>", []⟩,
     ⟨"visit_log", "Vec<i64>", [.list [.word "field_name", .mark '=' false, .text "log"]]⟩,
     ⟨"ratios", "Vec<f32>", []⟩, ⟨"balances", "Vec<f64>", []⟩, ⟨"tags", "Vec<String>", []⟩,
     ⟨"session", "i64", [.list [.word "skip"]]⟩]⟩

/-- The plan for customers. -/
def plan : Derive.PortablePlan :=
  ⟨declaration, classId, some version,
    [⟨"name", "name", .text⟩, ⟨"email", "emailAddress", .optionalText⟩,
     ⟨"flag", "flag", .scalar .bool⟩, ⟨"level", "level", .scalar .byte⟩,
     ⟨"initial", "initial", .scalar .char⟩, ⟨"small", "small", .scalar .short⟩,
     ⟨"age", "age", .scalar .int⟩, ⟨"visits", "visits", .scalar .long⟩,
     ⟨"ratio", "ratio", .scalar .float⟩, ⟨"balance", "balance", .scalar .double⟩,
     ⟨"levels", "levels", .array .byte⟩, ⟨"flags", "flags", .array .bool⟩,
     ⟨"initials", "initials", .array .char⟩, ⟨"smalls", "smalls", .array .short⟩,
     ⟨"ages", "ages", .array .int⟩, ⟨"visit_log", "log", .array .long⟩,
     ⟨"ratios", "ratios", .array .float⟩, ⟨"balances", "balances", .array .double⟩,
     ⟨"tags", "tags", .textArray⟩]⟩

/-- The fields of a customer. -/
def slots (c : Customer) : Derive.Slots :=
  [("name", .text c.name), ("email", .optionalText c.email), ("flag", .scalar .bool c.flag),
   ("level", .scalar .byte c.level), ("initial", .scalar .char c.initial),
   ("small", .scalar .short c.small), ("age", .scalar .int c.age),
   ("visits", .scalar .long c.visits), ("ratio", .scalar .float c.ratio),
   ("balance", .scalar .double c.balance), ("levels", .array .byte c.levels),
   ("flags", .array .bool c.flags), ("initials", .array .char c.initials),
   ("smalls", .array .short c.smalls), ("ages", .array .int c.ages),
   ("visit_log", .array .long c.visitLog), ("ratios", .array .float c.ratios),
   ("balances", .array .double c.balances), ("tags", .textArray c.tags),
   ("session", .scalar .long c.session)]

theorem ofDeclaration_declaration : Derive.PortablePlan.ofDeclaration declaration = .ok plan := by
  decide +kernel

theorem typed_slots (c : Customer) : declaration.Typed c.slots := rfl

/-- The statements for customers write the fields of a customer, and read them. -/
theorem fields_of_statements (c : Customer) :
    plan.fields.map (fun field => field.code.write.fieldWrite? c.slots) =
        (DataFields.writes c.fields).map some ∧
      plan.fields.map (fun field => field.code.read.fieldRead?) =
        c.fields.map fun field => some (.field field.2.kind field.1) :=
  ⟨rfl, rfl⟩

/-- A customer is an object of the plan: the plan's objects write its fields, and what is read of
    them stands in the fields of a blank customer afterwards, but for the session. -/
theorem is_object (c : Customer) :
    ∃ values after, plan.Holds values c.slots ∧
      plan.object values = .scripted classId (some version) (DataFields.writes c.fields) none [] ∧
      Derive.ReadStatement.storeAll Derive.ReadStatement.ofField?
        (plan.fields.map fun field => field.code.read) (plan.results values) blank.slots =
          some after ∧
      plan.Holds values after ∧ after.lookup "session" = blank.slots.lookup "session" := by
  obtain ⟨values, writes, reads, after, holds, meant, object, -, -, stored, held, kept⟩ :=
    Derive.PortablePlan.structs_are_objects ofDeclaration_declaration (by decide)
      c.typed_slots blank.typed_slots
  have same : writes = DataFields.writes c.fields := by
    rw [(fields_of_statements c).1] at meant
    exact (List.map_injective_iff.mpr (Option.some_injective _) meant).symm
  exact ⟨values, after, holds, same ▸ object, stored, held, kept _ (by decide)⟩

/-- Where every field reads as what was written, a customer reads just that, with a blank session. -/
theorem read_of_fields {c : Customer} {nested : Act Input Portable} {reader : BodyReader}
    (reads : ∀ field ∈ c.fields,
      Frame.read nested reader (.field field.2.kind field.1) = .ok (.data field.2)) :
    read reader = .ok { c with session := blank.session } := by
  simp only [fields, List.forall_mem_cons] at reads
  obtain ⟨name, email, flag, level, initial, small, age, visits, ratio, balance, levels, flags,
    initials, smalls, ages, visitLog, ratios, balances, tags, -⟩ := reads
  rw [read, Frame.text_of_read name, Frame.text_of_read email, Frame.scalar_of_read flag,
    Frame.scalar_of_read level, Frame.scalar_of_read initial, Frame.scalar_of_read small,
    Frame.scalar_of_read age, Frame.scalar_of_read visits, Frame.scalar_of_read ratio,
    Frame.scalar_of_read balance, Frame.array_of_read levels, Frame.array_of_read flags,
    Frame.array_of_read initials, Frame.array_of_read smalls, Frame.array_of_read ages,
    Frame.array_of_read visitLog, Frame.array_of_read ratios, Frame.array_of_read balances,
    Frame.textArray_of_read tags]
  rfl

end Customer

end ObjectWire
