import ObjectWire.Proofs.Derive.Objects
import ObjectWire.Proofs.Keyed

/-!
# What derived statements do

A statement means something on the fields of a struct: it hands what a field holds to a call, which
takes data of one kind alone, or stores what a call returned in a field of the same type.  The
statements that a plan is printed as write what an object of the plan writes, read what a blank
object reads, and leave what was written in the fields of the plan and in no other.
-/

namespace ObjectWire.Derive

/-! ### Statements on the fields of a struct -/

/-- What a field of a struct holds. -/
inductive Slot
  | scalar (kind : ScalarKind) (item : kind.Item)
  | text (s : String)
  | optionalText (s : Option String)
  | array (kind : ScalarKind) (items : List kind.Item)
  | textArray (items : List String)
  | bytes (run : Bytes)
  /-- Something of a type that has no form. -/
  | other (type : String) (formless : PortableForm.ofType? type = none ∧
      IdentifiedForm.ofType? type = none)

/-- The fields of a struct by name. -/
abbrev Slots : Type := List (String × Slot)

/-- The name of the type of a scalar. -/
def scalarType : ScalarKind → String
  | .bool => "bool"
  | .byte => "i8"
  | .char => "char"
  | .short => "i16"
  | .int => "i32"
  | .long => "i64"
  | .float => "f32"
  | .double => "f64"

/-- The name of the type of a field. -/
def Slot.typeName : Slot → String
  | scalar kind _ => scalarType kind
  | text _ => "String"
  | optionalText _ => "Option<String>"
  | array kind _ => "Vec<" ++ scalarType kind ++ ">"
  | textArray _ => "Vec<String>"
  | bytes _ => "Vec<u8>"
  | other type _ => type

/-- The field data that a writer's call for a kind is handed; `none` if it does not take them. -/
def Handing.data? : Handing → FieldKind → Slot → Option FieldData
  | itself, .scalar kind, .scalar other item =>
    if other = kind then some (.scalar other item) else none
  | presentText, .text, .text s => some (.text (some s))
  | optionalText, .text, .optionalText s => some (.text s)
  | presentRun, .array kind, .array other items =>
    if other = kind then some (.array other (some items)) else none
  | presentRun, .textArray, .textArray items => some (.textArray (some items))
  | _, _, _ => none

/-- The write that an output's call for a form is; `none` if it does not take what it is handed. -/
def Handing.plain? : Handing → IdentifiedForm → Slot → Option PlainWrite
  | itself, .scalar kind, .scalar other item =>
    if other = kind then some (.scalar other item) else none
  | lent, .text, .text s => some (.text s)
  | lent, .bytes, .bytes run => some (.byteArray run)
  | _, _, _ => none

/-- The forms an output and an input have calls for: all but characters. -/
def IdentifiedForm.called : List IdentifiedForm :=
  (ScalarKind.all.filter (· ≠ .char)).map .scalar ++ [.text, .bytes]

/-- The form that a word of an output and an input is for. -/
def IdentifiedForm.ofWord? (word : String) : Option IdentifiedForm :=
  called.find? fun form => form.word = word

namespace WriteStatement

/-- The field write that the statement is; `none` if it is none on a writer of fields. -/
def fieldWrite? (slots : Slots) (statement : WriteStatement) : Option FieldWrite := do
  let name ← statement.wire
  let kind ← FieldKind.ofWord? statement.word
  let data ← statement.handing.data? kind (← slots.lookup statement.field)
  pure (.data name data)

/-- The output step that the statement is; `none` if it is none on an output. -/
def outputStep? (slots : Slots) (statement : WriteStatement) : Option OutputStep := do
  if statement.wire.isSome then none
  let form ← IdentifiedForm.ofWord? statement.word
  let write ← statement.handing.plain? form (← slots.lookup statement.field)
  pure (.plain write)

end WriteStatement

namespace ReadStatement

/-- The field read that the statement makes; `none` if it makes none on a reader of fields. -/
def fieldRead? (statement : ReadStatement) : Option FieldRead := do
  let name ← statement.wire
  let kind ← FieldKind.ofWord? statement.word
  pure (.field kind name)

/-- The input step that the statement makes; `none` if it makes none on an input. -/
def inputStep? (statement : ReadStatement) : Option InputStep := do
  if statement.wire.isSome then none
  let form ← IdentifiedForm.ofWord? statement.word
  pure (.plain form.read)

/-- What is stored of what a reader of fields returned: only texts and runs can be absent. -/
def ofField? (statement : ReadStatement) : FieldResult → Option Slot
  | .data (.scalar kind item) => if statement.defaulted then none else some (.scalar kind item)
  | .data (.text s) =>
    some (if statement.defaulted then .text (s.getD "") else .optionalText s)
  | .data (.array kind items) =>
    if statement.defaulted then some (.array kind (items.getD [])) else none
  | .data (.textArray items) =>
    if statement.defaulted then some (.textArray (items.getD [])) else none
  | _ => none

/-- What is stored of what an input returned: nothing of it can be absent. -/
def ofInput? (statement : ReadStatement) (result : InputResult) : Option Slot :=
  if statement.defaulted then none else
    match result with
    | .plain (.scalar kind item) => some (.scalar kind item)
    | .plain (.text s) => some (.text s)
    | .plain (.bytes run) => some (.bytes run)
    | _ => none

/-- Stores a value in the field; `none` if there is no such field of its type. -/
def store (slot : Slot) (slots : Slots) (statement : ReadStatement) : Option Slots := do
  let held ← slots.lookup statement.field
  if held.typeName = slot.typeName then pure (Keyed.put statement.field slot slots) else none

/-- Stores what the reads of statements returned, one after the other. -/
def storeAll {Result : Type} (stored? : ReadStatement → Result → Option Slot) :
    List ReadStatement → List Result → Slots → Option Slots
  | [], [], slots => some slots
  | statement :: statements, result :: results, slots => do
    let slot ← stored? statement result
    storeAll stored? statements results (← statement.store slot slots)
  | _, _, _ => none

theorem store_of_lookup {statement : ReadStatement} {slots : Slots} {slot held : Slot}
    (found : slots.lookup statement.field = some held) (same : held.typeName = slot.typeName) :
    statement.store slot slots = some (Keyed.put statement.field slot slots) := by
  rw [store, found]
  exact if_pos same

section StoreAll

variable {Field Result : Type} {stored? : ReadStatement → Result → Option Slot}
  {statement : Field → ReadStatement} {result : Field → Result} {slot : Field → Slot}

/-- Statements on fields of different names store a value in each, and leave the others alone. -/
theorem exists_storeAll {fields : List Field} {slots : Slots}
    (each : ∀ field ∈ fields, stored? (statement field) (result field) = some (slot field))
    (distinct : (fields.map fun field => (statement field).field).Nodup)
    (typed : ∀ field ∈ fields, ∃ held, slots.lookup (statement field).field = some held ∧
      held.typeName = (slot field).typeName) :
    ∃ after, storeAll stored? (fields.map statement) (fields.map result) slots = some after ∧
      (∀ field ∈ fields, after.lookup (statement field).field = some (slot field)) ∧
      ∀ name ∉ fields.map fun field => (statement field).field,
        after.lookup name = slots.lookup name := by
  induction fields generalizing slots with
  | nil => exact ⟨slots, rfl, nofun, fun _ _ => rfl⟩
  | cons field fields ih =>
    obtain ⟨here, there⟩ := List.forall_mem_cons.mp each
    obtain ⟨new, apart⟩ := List.nodup_cons.mp distinct
    obtain ⟨⟨held, found, same⟩, typed⟩ := List.forall_mem_cons.mp typed
    have first := store_of_lookup found same
    -- the fields behind are still of their types, since none is the one that was stored in
    have still : ∀ other ∈ fields, ∃ held,
        (Keyed.put (statement field).field (slot field) slots).lookup (statement other).field =
          some held ∧ held.typeName = (slot other).typeName := by
      intro other member
      obtain ⟨held, found, same⟩ := typed other member
      have unequal : (statement other).field ≠ (statement field).field := by
        intro equal
        exact new (List.mem_map.mpr ⟨other, member, equal⟩)
      exact ⟨held, (Keyed.lookup_put_of_ne unequal _ _).trans found, same⟩
    obtain ⟨after, ran, filled, kept⟩ := ih there apart still
    refine ⟨after, ?_, List.forall_mem_cons.mpr ⟨?_, filled⟩, fun name absent => ?_⟩
    · rw [List.map_cons, List.map_cons, storeAll, here, Option.bind_eq_bind, Option.bind_some, first]
      exact ran
    · rw [kept _ new, Keyed.lookup_put_self]
    · rw [List.map_cons, List.mem_cons, not_or] at absent
      rw [kept name absent.2, Keyed.lookup_put_of_ne absent.1]

end StoreAll

end ReadStatement

/-! ### Portable objects -/

namespace PortableForm

/-- What a field of the form holds. -/
def slot : (form : PortableForm) → form.Held → Slot
  | scalar kind, item => .scalar kind item
  | text, s => .text s
  | optionalText, s => .optionalText s
  | array kind, items => .array kind items
  | textArray, items => .textArray items

theorem typeName_slot (form : PortableForm) (value other : form.Held) :
    (form.slot value).typeName = (form.slot other).typeName := by cases form <;> rfl

theorem data?_slot (form : PortableForm) (value : form.Held) :
    form.handing.data? form.kind (form.slot value) = some (form.data value) := by
  cases form with
  | scalar kind => exact if_pos rfl
  | array kind => exact if_pos rfl
  | _ => rfl

end PortableForm

namespace PortableField

variable {field : PortableField} {slots : Slots} {value : field.form.Held}

theorem fieldWrite?_code (holds : slots.lookup field.name = some (field.form.slot value)) :
    field.code.write.fieldWrite? slots = some (.data field.wire (field.form.data value)) := by
  simp only [code, WriteStatement.fieldWrite?, FieldKind.ofWord?_word, holds,
    Option.bind_eq_bind, Option.bind_some, PortableForm.data?_slot, Option.pure_def]

theorem fieldRead?_code (field : PortableField) :
    field.code.read.fieldRead? = some (.field field.form.kind field.wire) := by
  simp only [code, ReadStatement.fieldRead?, FieldKind.ofWord?_word, Option.bind_eq_bind,
    Option.bind_some, Option.pure_def]

theorem ofField?_code (field : PortableField) (value : field.form.Held) :
    field.code.read.ofField? (.data (field.form.data value)) = some (field.form.slot value) := by
  obtain ⟨name, wire, form⟩ := field
  cases form <;> rfl

end PortableField

namespace PortablePlan

variable {plan : PortablePlan} {values : Values} {slots blank : Slots}

/-- The fields of a struct that are in the plan hold the values. -/
def Holds (plan : PortablePlan) (values : Values) (slots : Slots) : Prop :=
  ∀ field ∈ plan.fields, slots.lookup field.name = some (field.form.slot (values field))

/-- The statements of a plan do what its objects do: on a struct they write what an object with the
    same values writes, and what a blank object reads; and what it has read they leave in the
    fields of the plan, while all other fields keep what they had. -/
theorem statements_agree (holds : plan.Holds values slots) :
    (∃ writes, plan.fields.map (fun field => field.code.write.fieldWrite? slots) =
        writes.map some ∧
      plan.object values = .scripted plan.classId plan.version writes none []) ∧
    (∃ reads, plan.fields.map (fun field => field.code.read.fieldRead?) = reads.map some ∧
      plan.blank = .scripted plan.classId reads) ∧
    ((plan.fields.map PortableField.name).Nodup → ∀ before, plan.Holds before blank →
      ∃ after, ReadStatement.storeAll ReadStatement.ofField?
          (plan.fields.map fun field => field.code.read) (plan.results values) blank = some after ∧
        plan.Holds values after ∧
        ∀ name ∉ plan.fields.map PortableField.name, after.lookup name = blank.lookup name) := by
  refine ⟨⟨_, ?_, rfl⟩, ⟨_, ?_, rfl⟩, fun distinct before had => ?_⟩
  · rw [data, DataFields.writes, List.map_map, List.map_map]
    exact List.map_congr_left fun field member => PortableField.fieldWrite?_code (holds field member)
  · rw [List.map_map]
    exact List.map_congr_left fun field _ => field.fieldRead?_code
  · have each : ∀ field ∈ plan.fields,
        field.code.read.ofField? (.data (field.form.data (values field))) =
          some (field.form.slot (values field)) := fun field _ => field.ofField?_code (values field)
    exact ReadStatement.exists_storeAll each distinct fun field member =>
      ⟨_, had field member, field.form.typeName_slot _ _⟩

end PortablePlan

/-! ### Identified objects -/

namespace IdentifiedForm

/-- What a field of the form holds. -/
def slot : (form : IdentifiedForm) → form.Held → Slot
  | scalar kind, item => .scalar kind item
  | text, s => .text s
  | bytes, run => .bytes run

theorem typeName_slot (form : IdentifiedForm) (value other : form.Held) :
    (form.slot value).typeName = (form.slot other).typeName := by cases form <;> rfl

theorem plain?_slot (form : IdentifiedForm) (value : form.Held) :
    form.handing.plain? form (form.slot value) = some (form.write value) := by
  cases form with
  | scalar kind => exact if_pos rfl
  | _ => rfl

theorem ofWord?_word {form : IdentifiedForm} (known : form ∈ called) :
    ofWord? form.word = some form := by
  revert form
  decide

end IdentifiedForm

namespace IdentifiedField

variable {field : IdentifiedField} {slots : Slots} {value : field.form.Held}

theorem outputStep?_code (known : field.form ∈ IdentifiedForm.called)
    (holds : slots.lookup field.name = some (field.form.slot value)) :
    field.code.write.outputStep? slots = some (.plain (field.form.write value)) := by
  simp only [code, WriteStatement.outputStep?, IdentifiedForm.ofWord?_word known, holds,
    Option.isSome_none, Bool.false_eq_true, if_false, Option.bind_eq_bind, Option.bind_some,
    IdentifiedForm.plain?_slot, Option.pure_def]

theorem inputStep?_code (known : field.form ∈ IdentifiedForm.called) :
    field.code.read.inputStep? = some (.plain field.form.read) := by
  simp only [code, ReadStatement.inputStep?, IdentifiedForm.ofWord?_word known,
    Option.isSome_none, Bool.false_eq_true, if_false, Option.bind_eq_bind, Option.bind_some,
    Option.pure_def]

theorem ofInput?_code (field : IdentifiedField) (value : field.form.Held) :
    field.code.read.ofInput? (.plain (field.form.result value)) = some (field.form.slot value) := by
  obtain ⟨name, form⟩ := field
  cases form <;> rfl

end IdentifiedField

namespace IdentifiedPlan

variable {plan : IdentifiedPlan} {values : Values} {slots blank : Slots}

/-- The fields of a struct that are in the plan hold the values. -/
def Holds (plan : IdentifiedPlan) (values : Values) (slots : Slots) : Prop :=
  ∀ field ∈ plan.fields, slots.lookup field.name = some (field.form.slot (values field))

/-- The statements of a plan do what its objects do, if there are calls for what is in its fields: on
    a struct they write what an object with the same values writes, and what a blank object reads;
    and what it has read they leave in the fields of the plan, while all other fields keep what
    they had. -/
theorem statements_agree (known : ∀ field ∈ plan.fields, field.form ∈ IdentifiedForm.called)
    (holds : plan.Holds values slots) :
    (∃ writes, plan.fields.map (fun field => field.code.write.outputStep? slots) =
        writes.map some ∧
      plan.object values = .scripted plan.factoryId plan.classId writes none []) ∧
    (∃ reads, plan.fields.map (fun field => field.code.read.inputStep?) = reads.map some ∧
      plan.blank = .scripted plan.factoryId plan.classId reads) ∧
    ((plan.fields.map IdentifiedField.name).Nodup → ∀ before, plan.Holds before blank →
      ∃ after, ReadStatement.storeAll ReadStatement.ofInput?
          (plan.fields.map fun field => field.code.read) (plan.results values) blank = some after ∧
        plan.Holds values after ∧
        ∀ name ∉ plan.fields.map IdentifiedField.name, after.lookup name = blank.lookup name) := by
  refine ⟨⟨_, ?_, rfl⟩, ⟨_, ?_, rfl⟩, fun distinct before had => ?_⟩
  · rw [List.map_map]
    exact List.map_congr_left fun field member =>
      IdentifiedField.outputStep?_code (known field member) (holds field member)
  · rw [List.map_map]
    exact List.map_congr_left fun field member => IdentifiedField.inputStep?_code (known field member)
  · have each : ∀ field ∈ plan.fields,
        field.code.read.ofInput? (.plain (field.form.result (values field))) =
          some (field.form.slot (values field)) := fun field _ => field.ofInput?_code (values field)
    exact ReadStatement.exists_storeAll each distinct fun field member =>
      ⟨_, had field member, field.form.typeName_slot _ _⟩

end IdentifiedPlan

end ObjectWire.Derive
