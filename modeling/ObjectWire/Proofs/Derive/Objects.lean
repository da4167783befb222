import Mathlib.Data.List.Forall2
import ObjectWire.Derive.IdentifiedPlan
import ObjectWire.Proofs.Portable.Records
import ObjectWire.Service.Reading
import ObjectWire.Service.Writing

/-!
# Objects of derived types

A plan says which fields of a declaration are written, under which names and in which form.  So it
says what an object writes whose fields hold given values, what a blank object reads, and what comes
to stand in its fields.  Of a portable object the fields are read by name, of an identified one one
after the other.  A field that is skipped is in no plan: it is not written, and a blank object keeps
what it has there.
-/

namespace ObjectWire.Derive

namespace PortableForm

/-- What a field holds. -/
def Held : PortableForm → Type
  | scalar kind => kind.Item
  | text => String
  | optionalText => Option String
  | array kind => List kind.Item
  | textArray => List String

/-- The data that are written. -/
def data : (form : PortableForm) → form.Held → FieldData
  | scalar kind, item => .scalar kind item
  | text, s => .text (some s)
  | optionalText, s => .text s
  | array kind, items => .array kind (some items)
  | textArray, items => .textArray (some items)

/-- What data that were read leave in a field: an absent text or run counts as empty, unless the form
    has absence. -/
def stored : (form : PortableForm) → FieldData → Option form.Held
  | scalar kind, .scalar other item => if same : other = kind then some (same ▸ item) else none
  | text, .text s => some (s.getD "")
  | optionalText, .text s => some s
  | array kind, .array other items =>
    if same : other = kind then some ((same ▸ items : Option (List kind.Item)).getD []) else none
  | textArray, .textArray items => some (items.getD [])
  | _, _ => none

theorem kind_data (form : PortableForm) (value : form.Held) :
    (form.data value).kind = form.kind := by
  cases form <;> rfl

theorem stored_data (form : PortableForm) (value : form.Held) :
    form.stored (form.data value) = some value := by
  cases form with
  | scalar kind => exact dif_pos rfl
  | array kind => exact dif_pos rfl
  | _ => rfl

end PortableForm

namespace PortableField

/-- What the read of a field leaves in it. -/
def stored (field : PortableField) : FieldResult → Option field.form.Held
  | .data data => field.form.stored data
  | _ => none

end PortableField

namespace PortablePlan

/-- What the fields of an object hold. -/
abbrev Values : Type := (field : PortableField) → field.form.Held

/-- The names on the wire are distinct, and they can be written in a definition. -/
structure Named (plan : PortablePlan) : Prop where
  distinct : (plan.fields.map PortableField.wire).Nodup
  short : ∀ field ∈ plan.fields, Utf8.width field.wire < Wire.lengthLimit
  few : plan.fields.length < Wire.lengthLimit

instance decidableNamed (plan : PortablePlan) : Decidable plan.Named :=
  decidable_of_iff ((plan.fields.map PortableField.wire).Nodup ∧
      (∀ field ∈ plan.fields, Utf8.width field.wire < Wire.lengthLimit) ∧
      plan.fields.length < Wire.lengthLimit)
    ⟨fun h => ⟨h.1, h.2.1, h.2.2⟩, fun h => ⟨h.distinct, h.short, h.few⟩⟩

variable (plan : PortablePlan) (values : Values)

/-- The data that an object writes. -/
def data : DataFields := plan.fields.map fun field => (field.wire, field.form.data (values field))

/-- An object. -/
def object : Portable :=
  .scripted plan.classId plan.version (plan.data values).writes none []

/-- A blank object. -/
def blank : BlankPortable :=
  .scripted plan.classId (plan.fields.map fun field => .field field.form.kind field.wire)

/-- What a blank object has read. -/
def results : List FieldResult :=
  plan.fields.map fun field => .data (field.form.data (values field))

variable {plan}

theorem Named.describable (named : plan.Named) : (plan.data values).Describable where
  distinct := by
    rw [data, List.map_map]
    exact named.distinct
  short field member := by
    obtain ⟨field, among, rfl⟩ := List.mem_map.mp member
    exact named.short field among
  few := by
    rw [data, List.length_map]
    exact named.few

/-- Where every field reads as what was written, a blank object reads just that. -/
theorem readObject_blank {nested : Act Input Portable} {reader : BodyReader}
    (reads : ∀ field ∈ plan.data values,
      Frame.read nested reader (.field field.2.kind field.1) = .ok (.data field.2)) :
    Frame.readObject nested reader plan.blank =
      .ok (.scripted plan.classId none [] none (plan.results values)) := by
  have each : ∀ field ∈ plan.fields,
      Frame.read nested reader (.field field.form.kind field.wire) =
        .ok (.data (field.form.data (values field))) := by
    intro field member
    have read := reads _ (List.mem_map_of_mem member)
    rwa [PortableForm.kind_data] at read
  have got : (plan.fields.map fun field => FieldRead.field field.form.kind field.wire).mapM
      (Frame.read nested reader) = .ok (plan.results values) := by
    rw [List.mapM_map]
    exact Act.settled_mapM each
  rw [blank, Frame.readObject, got]
  rfl

/-- What a blank object has read leaves in every field what the field held. -/
theorem stored_results :
    List.Forall₂ (fun field result => field.stored result = some (values field)) plan.fields
      (plan.results values) := by
  rw [results, List.forall₂_map_right_iff, List.forall₂_same]
  exact fun field _ => field.form.stored_data (values field)

end PortablePlan

namespace IdentifiedForm

/-- What a field holds. -/
def Held : IdentifiedForm → Type
  | scalar kind => kind.Item
  | text => String
  | bytes => Bytes

/-- The write of a field. -/
def write : (form : IdentifiedForm) → form.Held → PlainWrite
  | scalar kind, item => .scalar kind item
  | text, s => .text s
  | bytes, run => .byteArray run

/-- The read of a field. -/
def read : IdentifiedForm → PlainRead
  | scalar kind => .scalar kind
  | text => .text
  | bytes => .byteArray

/-- What the read of a field returns. -/
def result : (form : IdentifiedForm) → form.Held → PlainResult
  | scalar kind, item => .scalar kind item
  | text, s => .text s
  | bytes, run => .bytes run

/-- What the read of a field leaves in it. -/
def stored : (form : IdentifiedForm) → InputResult → Option form.Held
  | scalar kind, .plain (.scalar other item) =>
    if same : other = kind then some (same ▸ item) else none
  | text, .plain (.text s) => some s
  | bytes, .plain (.bytes run) => some run
  | _, _ => none

/-- Two bytes can say the value, if it is a character, and it is not too long. -/
def Fits : (form : IdentifiedForm) → form.Held → Prop
  | scalar kind, item => kind.Narrow item
  | text, s => Utf8.width s < Wire.lengthLimit
  | bytes, run => run.length < Wire.lengthLimit

instance decidableFits : (form : IdentifiedForm) → (value : form.Held) → Decidable (form.Fits value)
  | scalar kind, item => kind.decidableNarrow item
  | text, s => inferInstanceAs (Decidable (Utf8.width s < Wire.lengthLimit))
  | bytes, run => inferInstanceAs (Decidable (run.length < Wire.lengthLimit))

theorem stored_result (form : IdentifiedForm) (value : form.Held) :
    form.stored (.plain (form.result value)) = some value := by
  cases form with
  | scalar kind => exact dif_pos rfl
  | _ => rfl

/-- A value that fits is written, and read back from what was written. -/
theorem exists_run {form : IdentifiedForm} {value : form.Held} (fits : form.Fits value) :
    ∃ run, Output.Adds (form.write value).perform run ∧
      Input.Takes form.read.perform run (form.result value) := by
  cases form with
  | scalar kind =>
    obtain ⟨run, encoded⟩ := ScalarKind.exists_encode_iff.mpr fits
    exact ⟨run, Output.adds_writeItem encoded, (ScalarKind.takes_decode encoded).map _⟩
  | text =>
    have encoded := Wire.string_of_lt fits
    exact ⟨_, Output.adds_writeItem encoded, (Input.takes_string encoded).map _⟩
  | bytes =>
    have encoded := Wire.byteArray_of_lt fits
    exact ⟨_, Output.adds_writeItem encoded, (Input.takes_byteArray encoded).map _⟩

/-- Only a value that fits is written. -/
theorem fits_of_write {form : IdentifiedForm} {value : form.Held} {output after : Output}
    (h : (form.write value).perform output = (.ok (), after)) : form.Fits value := by
  cases form with
  | scalar kind =>
    obtain ⟨run, _, encoded, -⟩ := Act.bind_ok h
    exact ScalarKind.exists_encode_iff.mp ⟨run, (Act.lift_ok encoded).1⟩
  | text =>
    obtain ⟨run, _, encoded, -⟩ := Act.bind_ok h
    exact (Wire.length_of_string (Act.lift_ok encoded).1).1
  | bytes =>
    obtain ⟨run, _, encoded, -⟩ := Act.bind_ok h
    exact (Input.byteArray_ok (Act.lift_ok encoded).1).1

theorem failsOnly_write (form : IdentifiedForm) (value : form.Held) :
    (form.write value).perform.FailsOnly Failure.Unwritable := by
  cases form with
  | scalar kind => exact Output.failsOnly_writeItem fun _ => ScalarKind.unwritable_encode
  | text => exact Output.failsOnly_writeItem fun _ => Wire.unwritable_string
  | bytes => exact Output.failsOnly_writeItem fun _ => Wire.unwritable_byteArray

end IdentifiedForm

/-- The fields of an identified object with what they hold, in order. -/
abbrev HeldFields : Type := List ((form : IdentifiedForm) × form.Held)

namespace HeldFields

/-- Writes the fields. -/
def write (fields : HeldFields) : Act Output Unit :=
  Act.forEach PlainWrite.perform (fields.map fun field => field.1.write field.2)

/-- Everything in the fields can be written. -/
def Fits (fields : HeldFields) : Prop := ∀ field ∈ fields, field.1.Fits field.2

instance decidableFits (fields : HeldFields) : Decidable fields.Fits :=
  inferInstanceAs (Decidable (∀ field ∈ fields, field.1.Fits field.2))

variable {fields : HeldFields}

theorem exists_run (fits : fields.Fits) :
    ∃ run, Output.Adds fields.write run ∧
      Input.Takes (Act.collect PlainRead.perform (fields.map fun field => field.1.read)) run
        (fields.map fun field => field.1.result field.2) := by
  induction fields with
  | nil => exact ⟨[], Output.adds_pure, Input.takes_pure []⟩
  | cons field fields ih =>
    obtain ⟨here, there⟩ := List.forall_mem_cons.mp fits
    obtain ⟨run, adds, takes⟩ := IdentifiedForm.exists_run here
    obtain ⟨more, others, rest⟩ := ih there
    exact ⟨run ++ more, adds.andThen others,
      takes.bind (rest.bind_nil (Input.takes_pure _))⟩

theorem fits_of_write {output after : Output} (h : fields.write output = (.ok (), after)) :
    fields.Fits := by
  induction fields generalizing output with
  | nil => exact nofun
  | cons field fields ih =>
    obtain ⟨_, middle, first, rest⟩ := Act.bind_ok h
    exact List.forall_mem_cons.mpr ⟨IdentifiedForm.fits_of_write first, ih rest⟩

theorem failsOnly_write (fields : HeldFields) :
    fields.write.FailsOnly fun failure => failure.kind = .serialization := by
  apply Act.failsOnly_forEach
  intro write member
  obtain ⟨field, -, rfl⟩ := List.mem_map.mp member
  exact fun output failure final ran =>
    (field.1.failsOnly_write field.2 output failure final ran).kind

end HeldFields

namespace IdentifiedPlan

/-- What the fields of an object hold. -/
abbrev Values : Type := (field : IdentifiedField) → field.form.Held

variable (plan : IdentifiedPlan) (values : Values)

/-- The fields of an object with what they hold. -/
def held : HeldFields := plan.fields.map fun field => ⟨field.form, values field⟩

/-- An object. -/
def object : Identified :=
  .scripted plan.factoryId plan.classId
    (plan.fields.map fun field => .plain (field.form.write (values field))) none []

/-- A blank object. -/
def blank : BlankIdentified :=
  .scripted plan.factoryId plan.classId (plan.fields.map fun field => .plain field.form.read)

/-- What a blank object has read. -/
def results : List InputResult :=
  plan.fields.map fun field => .plain (field.form.result (values field))

/-- What a blank object has read leaves in every field what the field held. -/
theorem stored_results :
    List.Forall₂ (fun field result => field.form.stored result = some (values field)) plan.fields
      (plan.results values) := by
  rw [results, List.forall₂_map_right_iff, List.forall₂_same]
  exact fun field _ => field.form.stored_result (values field)

end IdentifiedPlan

end ObjectWire.Derive
