import ObjectWire.Proofs.Portable.Exchange
import ObjectWire.Proofs.Portable.Opening
import ObjectWire.Proofs.Portable.Replaying
import ObjectWire.Proofs.Portable.Sizes

/-!
# Objects that hold data alone

An object whose fields hold scalars, texts and runs of these brings its own description: its class is
described by its names and kinds, and it is written by that description.  Where nothing is
registered yet it is framed exactly if two bytes can say every character in it and it is not too
large, and fails as something that cannot be serialized otherwise.
-/

namespace ObjectWire

/-- Fields of data under their names, in the order of writing. -/
abbrev DataFields : Type := List (String × FieldData)

namespace DataFields

/-- The writes of the fields. -/
def writes (fields : DataFields) : List FieldWrite := fields.map fun (name, data) => .data name data

/-- The fields can be described: their names are distinct and not too long, and there are not too many
    of them. -/
structure Describable (fields : DataFields) : Prop where
  distinct : (fields.map Prod.fst).Nodup
  short : ∀ field ∈ fields, Utf8.width field.1 < Wire.lengthLimit
  few : fields.length < Wire.lengthLimit

/-- The bytes of a body with the fields. -/
def size (fields : DataFields) : Nat :=
  fields.length * 4 + (fields.map fun field => field.2.size).sum

/-- The fields can be written: two bytes can say every character, and the body is not too large. -/
structure Writable (fields : DataFields) : Prop where
  narrow : ∀ field ∈ fields, field.2.Narrow
  small : fields.size < Wire.lengthLimit

instance decidableWritable (fields : DataFields) : Decidable fields.Writable :=
  decidable_of_iff ((∀ field ∈ fields, field.2.Narrow) ∧ fields.size < Wire.lengthLimit)
    ⟨fun h => ⟨h.1, h.2⟩, fun h => ⟨h.narrow, h.small⟩⟩

variable {fields : DataFields}

theorem names_writes (fields : DataFields) :
    fields.writes.map FieldWrite.name = fields.map Prod.fst := by
  rw [writes, List.map_map]
  rfl

theorem length_writes (fields : DataFields) : fields.writes.length = fields.length :=
  List.length_map _

/-- Only data that can be written come to a sheet, and it is as long as said. -/
theorem of_sheet {sheet : Sheet} (h : Sheet.ofData fields = some sheet) :
    (∀ field ∈ fields, field.2.Narrow) ∧
      sheet.data.length = (fields.map fun field => field.2.size).sum := by
  induction fields generalizing sheet with
  | nil =>
    cases h
    exact ⟨nofun, rfl⟩
  | cons field fields ih =>
    obtain ⟨run, formed, h⟩ := Option.bind_eq_some_iff.mp h
    obtain ⟨others, rest, h⟩ := Option.bind_eq_some_iff.mp h
    cases h
    obtain ⟨narrow, length⟩ := FieldData.sized_form.length _ _ formed
    obtain ⟨narrows, lengths⟩ := ih rest
    refine ⟨List.forall_mem_cons.mpr ⟨narrow, narrows⟩, ?_⟩
    rw [List.map_cons, List.sum_cons, ← length, ← lengths]
    simp [Sheet.data]

theorem exists_sheet (narrow : ∀ field ∈ fields, field.2.Narrow)
    (small : (fields.map fun field => field.2.size).sum < Wire.lengthLimit) :
    ∃ sheet, Sheet.ofData fields = some sheet := by
  induction fields with
  | nil => exact ⟨[], rfl⟩
  | cons field fields ih =>
    rw [List.map_cons, List.sum_cons] at small
    obtain ⟨here, there⟩ := List.forall_mem_cons.mp narrow
    obtain ⟨run, formed⟩ := FieldData.sized_form.form field.2 here (by omega)
    obtain ⟨others, rest⟩ := ih there (by omega)
    exact ⟨(field.1, run) :: others, by rw [Sheet.ofData, formed, rest]; rfl⟩

end DataFields

namespace FieldData

theorem isPortable_kind (data : FieldData) : data.kind.isPortable = false := by cases data <;> rfl

end FieldData

namespace Output

/-- What has a form is written to any buffer. -/
theorem adds_forEach {α : Type} {encode : α → Except Failure Bytes} {items : List α} {run : Bytes}
    (h : Wire.all (fun item => (encode item).toOption) items = some run) :
    Adds (Act.forEach (fun item => writeItem (encode item)) items) run := by
  induction items generalizing run with
  | nil =>
    cases h
    exact adds_pure
  | cons item items ih =>
    obtain ⟨first, others, formed, rest, rfl⟩ := Wire.all_cons h
    exact (adds_writeItem (Act.settled_of_toOption formed)).andThen (ih rest)

theorem adds_writeRun {α : Type} {encode : α → Except Failure Bytes} {items : Option (List α)}
    {run : Bytes}
    (h : Wire.optional (Wire.run fun item => (encode item).toOption) items = some run) :
    Adds (FieldData.writeRun encode items) run := by
  cases items with
  | none =>
    cases h
    exact adds_write _
  | some items =>
    obtain ⟨bytes, formed, rfl⟩ := Wire.optional_some h
    obtain ⟨small, inner, all, rfl⟩ := Wire.run_some formed
    have count := adds_writeItem (Wire.length_of_lt small .array)
    exact (adds_write _).andThen (count.andThen (adds_forEach all))

theorem adds_data {data : FieldData} {run : Bytes} (h : data.form = some run) :
    Adds data.write run := by
  cases data with
  | scalar kind item => exact adds_writeItem (Act.settled_of_toOption h)
  | text s =>
    cases s with
    | none =>
      cases h
      exact adds_write _
    | some s =>
      obtain ⟨inner, formed, rfl⟩ := Wire.optional_some h
      exact (adds_write _).andThen (adds_writeItem (Act.settled_of_toOption formed))
  | array kind items => exact adds_writeRun h
  | textArray items => exact adds_writeRun h

end Output

/-! ### Describing -/

namespace PortableContext

variable {context : PortableContext} {fields : DataFields} {p : Portable}

theorem exists_describeData {draft : Draft} (complete : draft.Complete)
    (fresh : ∀ field ∈ fields, ∀ known ∈ draft.fields, known.name ≠ field.1)
    (distinct : (fields.map Prod.fst).Nodup)
    (few : draft.fields.length + fields.length ≤ Wire.lengthLimit) :
    ∃ next, describeData fields draft = .ok next ∧ next.Complete ∧ next.nested = draft.nested ∧
      next.fields.map Field.name = draft.fields.map Field.name ++ fields.map Prod.fst := by
  induction fields generalizing draft with
  | nil => exact ⟨draft, rfl, complete, rfl, (List.append_nil _).symm⟩
  | cons field fields ih =>
    obtain ⟨name, data⟩ := field
    rw [List.length_cons] at few
    obtain ⟨here, there⟩ := List.forall_mem_cons.mp fresh
    obtain ⟨new, others⟩ := List.nodup_cons.mp distinct
    have small : draft.fields.length < Wire.lengthLimit := by omega
    obtain ⟨middle, added⟩ := Draft.addField_of_fresh data.isPortable_kind small here
    obtain ⟨index, gains⟩ := Draft.gains_addField added
    have still : ∀ field ∈ fields, ∀ known ∈ middle.fields, known.name ≠ field.1 := by
      intro field member known held
      rw [gains.fields] at held
      rcases List.mem_append.mp held with before | last
      · exact there field member known before
      · rw [List.mem_singleton.mp last]
        rintro same
        exact new (List.mem_map.mpr ⟨field, member, same.symm⟩)
    have room : middle.fields.length + fields.length ≤ Wire.lengthLimit := by
      rw [gains.fields, List.length_append, List.length_singleton]
      omega
    obtain ⟨next, described, finished, nested, names⟩ := ih (complete.addField added) still others room
    refine ⟨next, ?_, finished, nested.trans (Draft.nested_of_addField added), ?_⟩
    · rw [describeData, added]
      exact described
    · rw [names, gains.fields, List.map_append, List.append_assoc]
      rfl

/-- Where nothing is registered, an object of data describes itself. -/
theorem describesItself_of_vacant (vacant : ∀ key, context.lookup key = none)
    (records : p.writes = fields.writes) (describable : fields.Describable) :
    Act.Gives (describe p) context fun definition _ => context.DescribesItself p definition := by
  obtain ⟨draft, described, complete, nested, names⟩ :=
    @exists_describeData fields (.start (context.keyOf p)) (Draft.complete_start _)
      (fun _ _ _ held => nomatch held) describable.distinct (by
        show 0 + fields.length ≤ _
        have := describable.few
        omega)
  have writes : describeWrites p.writes (.start (context.keyOf p)) context =
      (.ok draft, context) := by
    rw [records, DataFields.writes, describeWrites_data, described]
    rfl
  have finished := Draft.build_of_complete complete
  have alone : draft.nested = [] := nested
  have fits : ClassDefinition.Fits ⟨draft.key, draft.fields, draft.nested, none⟩ := by
    have length : draft.fields.length = fields.length := by
      simpa [Draft.start] using congrArg List.length names
    refine .level (by rw [length]; exact describable.few) (fun field member => ?_) ?_ ?_
    · have listed : field.name ∈ draft.fields.map Field.name := List.mem_map_of_mem member
      rw [names] at listed
      obtain ⟨known, among, same⟩ := List.mem_map.mp listed
      rw [← same]
      exact describable.short known among
    · rw [alone]
      exact (by decide : 0 < Wire.lengthLimit)
    · rw [alone]
      exact List.forall_mem_nil _
  have acyclic : ClassDefinition.Acyclic ⟨draft.key, draft.fields, draft.nested, none⟩ := by
    rintro part within inner member
    cases within with
    | whole =>
      rw [alone] at member
      cases member
    | inside among _ =>
      rw [alone] at among
      cases among
  obtain ⟨settled, now, registered, same⟩ := gives_register_of_acyclic vacant acyclic fits
  have answers : describe p context = (.ok settled, now) := by
    rw [describe_eq]
    unfold describeBy
    rw [Act.bind_of_ok (Act.get_apply context), vacant]
    exact (Act.bind_of_ok writes).trans ((Act.bind_of_ok (by rw [finished]; rfl)).trans registered)
  refine ⟨settled, now, answers, vacant _, congrArg Prod.fst answers, draft, _,
    congrArg Prod.fst writes, finished, ClassDefinition.same_symm same⟩

end PortableContext

/-! ### Writing -/

namespace BodyWriter

variable {definition : ClassDefinition} {writer : BodyWriter} {sheet : Sheet} {name : String}

/-- A field that is new to the sheet begins, if the body has not grown too large. -/
theorem beginField_of_holds {field : Field} (wellFormed : definition.WellFormed)
    (holds : writer.Holds definition sheet) (found : definition.field? name = some field)
    (new : name ∉ sheet.names) (small : (sheet.body definition).length < Wire.lengthLimit) :
    ∃ declared after, beginField name field.kind writer = (.ok declared, after) ∧
      after.Holds definition (sheet ++ [(name, [])]) := by
  obtain ⟨named, place, -⟩ := wellFormed.position found
  have inside := (List.getElem?_eq_some_iff.mp place).1
  have admits : writer.Admits name field.kind field := by
    refine ⟨by rw [holds.describes, found], rfl, fun begun => new ?_⟩
    rw [holds.written, List.getElem?_map, place] at begun
    simpa [named] using begun
  have size : writer.body.size = (sheet.body definition).length := congrArg List.length holds.body
  have room : field.index.toNatClampNeg * 4 + 4 ≤ writer.body.size := by
    rw [size, Sheet.length_body, BodyReader.tableSize]
    omega
  have begun := beginField_of_admits admits room
  rw [size, if_neg (Nat.not_le.mpr small)] at begun
  obtain ⟨known, -, -, -, -, after⟩ := beginField_ok wellFormed holds begun
  exact ⟨_, _, begun, after⟩

/-- Fields that are declared are written as their data come to a sheet, if the body does not grow too
    large. -/
theorem writeAll_of_sheet {fields : DataFields} {more : Sheet} (wellFormed : definition.WellFormed)
    (holds : writer.Holds definition sheet) (formed : Sheet.ofData fields = some more)
    (declared : ∀ field ∈ fields, ∃ known, definition.field? field.1 = some known ∧
      known.kind = field.2.kind)
    (fresh : ∀ field ∈ fields, field.1 ∉ sheet.names) (distinct : (fields.map Prod.fst).Nodup)
    (small : (Sheet.body definition (sheet ++ more)).length < Wire.lengthLimit) :
    ∃ after, writeAll fields writer = (.ok (), after) ∧ after.Holds definition (sheet ++ more) := by
  induction fields generalizing writer sheet more with
  | nil =>
    cases formed
    exact ⟨writer, rfl, by rwa [List.append_nil]⟩
  | cons field fields ih =>
    obtain ⟨name, data⟩ := field
    obtain ⟨run, form, formed⟩ := Option.bind_eq_some_iff.mp formed
    obtain ⟨others, rest, formed⟩ := Option.bind_eq_some_iff.mp formed
    cases formed
    obtain ⟨⟨known, found, same⟩, declared⟩ := List.forall_mem_cons.mp declared
    obtain ⟨here, there⟩ := List.forall_mem_cons.mp fresh
    obtain ⟨new, apart⟩ := List.nodup_cons.mp distinct
    have sooner : (sheet.body definition).length < Wire.lengthLimit := by
      rw [Sheet.length_body] at small ⊢
      rw [Sheet.data, List.flatMap_append, List.length_append] at small
      rw [Sheet.data]
      omega
    obtain ⟨nested, begun, begins, opened⟩ :=
      beginField_of_holds wellFormed holds found here sooner
    rw [same] at begins
    obtain ⟨body, put, content⟩ := Output.adds_data form begun.body
    have wrote : onBody data.write begun = (.ok (), { begun with body := body }) := by
      rw [onBody, Act.on_apply, put]
    obtain ⟨run', form', after⟩ := opened.extend data.appends_write wrote
    rw [form] at form'
    cases form'
    have split : sheet ++ (name, run) :: others = (sheet ++ [(name, [] ++ run)]) ++ others := by
      simp
    rw [split] at small ⊢
    have still : ∀ field ∈ fields, field.1 ∉ Sheet.names (sheet ++ [(name, [] ++ run)]) := by
      intro field member
      rw [Sheet.names, List.map_append, List.mem_append, not_or]
      refine ⟨there field member, fun last => new ?_⟩
      have same : field.1 = name := List.mem_singleton.mp last
      exact List.mem_map.mpr ⟨field, member, same⟩
    obtain ⟨final, writes, holds⟩ := ih after rest declared still apart small
    refine ⟨final, ?_, holds⟩
    have first : writeData name data writer = (.ok (), { begun with body := body }) :=
      (Act.bind_of_ok begins).trans wrote
    exact (Act.bind_of_ok first).trans writes

theorem failsOnly_beginField (name : String) (kind : FieldKind) :
    (beginField name kind).FailsOnly fun failure => failure.kind = .serialization := by
  intro writer failure final ran
  rcases Act.bind_error ran with failed | ⟨_, _, got, ran⟩
  · cases failed
  cases got
  cases found : writer.definition.field? name with
  | none =>
    simp only [found] at ran
    cases ran
    rfl
  | some field =>
    simp only [found] at ran
    split at ran
    case isTrue => cases ran; rfl
    case isFalse =>
      split at ran
      case isTrue => cases ran; rfl
      case isFalse =>
        rcases Act.bind_error ran with failed | ⟨_, marked, set, ran⟩
        · cases failed
        · split at ran
          case isTrue => cases ran; rfl
          case isFalse =>
            rcases Act.bind_error ran with failed | ⟨_, _, -, answered⟩
            · rw [onBody, Act.on_apply, Output.patchInt] at failed
              split at failed
              case isTrue => cases failed
              case isFalse => cases failed; rfl
            · cases answered

end BodyWriter

theorem Failure.Unwritable.kind {failure : Failure} (h : failure.Unwritable) :
    failure.kind = .serialization := by
  cases h <;> rfl

namespace BodyWriter

/-- Whatever keeps data from being written is a failure to serialize. -/
theorem failsOnly_writeAll (fields : DataFields) :
    (writeAll fields).FailsOnly fun failure => failure.kind = .serialization := by
  apply Act.failsOnly_forEach
  rintro ⟨name, data⟩ -
  apply (failsOnly_beginField name data.kind).bind
  intro _
  apply Act.FailsOnly.on
  exact fun output failure final ran => (Output.failsOnly_data data output failure final ran).kind

end BodyWriter

/-! ### Framing -/

namespace Frame

variable {context : PortableContext} {fields : DataFields} {p : Portable}

/-- Filling a body with an object's data. -/
theorem close_of_records {definition : ClassDefinition} {now : PortableContext}
    (records : p.writes = fields.writes)
    (described : PortableContext.describe p context = (.ok definition, now)) :
    close p context = fill definition (onWriter (BodyWriter.writeAll fields)) now := by
  rw [close_eq, Act.bind_of_ok described, records, DataFields.writes, performAll_data]

/-- Where nothing is registered, an object is framed if its data can be written. -/
theorem gives_close_of_vacant (sound : context.Sound) (vacant : ∀ key, context.lookup key = none)
    (records : p.writes = fields.writes) (describable : fields.Describable)
    (writable : fields.Writable) :
    Act.Gives (close p) context fun closed _ => closed.body.length < Wire.lengthLimit := by
  obtain ⟨definition, now, described, itself⟩ :=
    PortableContext.describesItself_of_vacant vacant records describable
  obtain ⟨⟨evolved, -⟩, answers⟩ := PortableContext.meets_describe p context sound
  rw [described] at evolved
  have nowSound := evolved.sound sound
  have wellFormed := nowSound.wellFormed _ _ (answers definition now described)
  have own : context.OwnKeys := sound.filed
  have recorded := itself.records own
  have declared : ∀ field ∈ fields, ∃ known, definition.field? field.1 = some known ∧
      known.kind = field.2.kind := by
    intro field member
    have among : FieldWrite.data field.1 field.2 ∈ p.writes := by
      rw [records]
      exact List.mem_map_of_mem member
    obtain ⟨i, place⟩ := List.mem_iff_getElem?.mp among
    obtain ⟨known, found, -, records⟩ := recorded.finds place
    exact ⟨known, found, (Option.some.inj records.kind).symm⟩
  have small := writable.small
  rw [DataFields.size] at small
  obtain ⟨sheet, formed⟩ := DataFields.exists_sheet writable.narrow (by omega)
  have length : (sheet.body definition).length < Wire.lengthLimit := by
    rw [Sheet.length_body, BodyReader.tableSize, recorded.length, records,
      DataFields.length_writes, (DataFields.of_sheet formed).2]
    exact small
  have start := BodyWriter.holds_start definition nowSound.clean.acquire_content
  obtain ⟨after, wrote, holds⟩ := BodyWriter.writeAll_of_sheet wellFormed start formed declared
    (fun _ _ => List.not_mem_nil) describable.distinct length
  have filled : fill definition (onWriter (BodyWriter.writeAll fields)) now =
      (.ok ⟨definition, after.body.content⟩,
        { now with pool := now.pool.acquire.2.release after.body }) := by
    unfold fill
    dsimp only
    rw [onWriter, Act.on_apply, wrote]
    rfl
  refine ⟨_, _, (close_of_records records described).trans filled, ?_⟩
  rw [holds.body]
  exact length

/-- Where nothing is registered, what keeps an object of data from being framed is a failure to
    serialize. -/
theorem kind_of_close_error {failure : Failure} {final : PortableContext}
    (vacant : ∀ key, context.lookup key = none) (records : p.writes = fields.writes)
    (describable : fields.Describable) (failed : close p context = (.error failure, final)) :
    failure.kind = .serialization := by
  obtain ⟨definition, now, described, -⟩ :=
    PortableContext.describesItself_of_vacant vacant records describable
  rw [close_of_records records described] at failed
  unfold fill at failed
  dsimp only at failed
  rcases ran : onWriter (BodyWriter.writeAll fields) ⟨.start definition now.pool.acquire.1,
    { now with pool := now.pool.acquire.2 }⟩ with ⟨refused | _, reached⟩
  · rw [ran] at failed
    cases failed
    exact Act.FailsOnly.on (BodyWriter.failsOnly_writeAll fields) _ _ _ ran
  · rw [ran] at failed
    cases failed

/-- Only an object whose data can be written has a frame. -/
theorem writable_of_frame {run : Bytes} (covers : context.Covers p)
    (records : p.writes = fields.writes) (framed : context.frame p = some run) :
    fields.Writable := by
  obtain ⟨definition, sheet, content, -, obeys, written, sized, -⟩ := covers.body framed
  rw [records, DataFields.writes, PortableContext.sheet_data] at written
  obtain ⟨narrow, length⟩ := DataFields.of_sheet written
  refine ⟨narrow, ?_⟩
  have small := (Input.byteArray_ok sized).1
  have once := obeys.once
  rw [records, DataFields.names_writes] at once
  -- every field is declared, and under a name of its own
  have least : fields.length ≤ definition.fields.length := by
    have included : fields.map Prod.fst ⊆ definition.fields.map Field.name := by
      intro name listed
      obtain ⟨field, member, rfl⟩ := List.mem_map.mp listed
      have among : FieldWrite.data field.1 field.2 ∈ p.writes := by
        rw [records]
        exact List.mem_map_of_mem member
      obtain ⟨known, found, -⟩ := obeys.fits _ among
      have named : known.name = (FieldWrite.data field.1 field.2).name := by
        simpa using List.find?_some found
      rw [← show known.name = field.1 from named]
      exact List.mem_map_of_mem (List.mem_of_find?_eq_some found)
    have counted := (List.subperm_of_subset once included).length_le
    rwa [List.length_map, List.length_map] at counted
  rw [Sheet.length_body, BodyReader.tableSize, length] at small
  rw [DataFields.size]
  omega

/-! ### Reading -/

/-- In the body of an object of data every field reads as what it holds. -/
theorem read_of_records {plan : Int32 → List FieldRead} {nested : Act Input Portable}
    {definition : ClassDefinition} {sheet : Sheet} (wellFormed : definition.WellFormed)
    (obeys : p.Obeys definition) (written : context.sheet p.writes = some sheet)
    (small : (sheet.body definition).length < Wire.lengthLimit)
    (records : p.writes = fields.writes) {field : String × FieldData} (member : field ∈ fields) :
    read nested ⟨definition, sheet.body definition⟩ (.field field.2.kind field.1) =
      .ok (.data field.2) := by
  have among : FieldWrite.data field.1 field.2 ∈ p.writes := by
    rw [records]
    exact List.mem_map_of_mem member
  have alone : ∀ q ∈ p.objects, ∀ bytes, context.frame q = some bytes →
      Input.Takes nested bytes (context.image plan q) := by
    intro q inside
    obtain ⟨write, listed, held⟩ := List.mem_flatMap.mp inside
    rw [records] at listed
    obtain ⟨_, -, rfl⟩ := List.mem_map.mp listed
    cases held
  have apt : (FieldRead.field field.2.kind field.1).Apt definition := by
    intro known found
    obtain ⟨other, same, kind, -⟩ := obeys.fits _ among
    rw [show FieldWrite.name (.data field.1 field.2) = field.1 from rfl, found] at same
    cases same
    exact (Option.some.inj kind).symm
  have answer := read_apt wellFormed obeys written small alone apt
  rw [answer, FieldRead.answer]
  have held := @PortableContext.held_of_mem context plan _ _ among obeys.once
  rw [show FieldWrite.name (.data field.1 field.2) = field.1 from rfl] at held
  rw [held]
  rfl

/-- The frame of an object of data is opened by letting a blank object of its class read itself, and
    every field that this asks for reads as what it holds. -/
theorem takes_openAt_of_records {source : Source} {blank : BlankPortable} {back : Portable}
    {run : Bytes} (sound : source.context.Sound) (covers : source.context.Covers p)
    (records : p.writes = fields.writes) (framed : source.context.frame p = some run)
    (created : source.create p.classId = .ok blank)
    (reads : ∀ nested reader, (∀ field ∈ fields,
      read nested reader (.field field.2.kind field.1) = .ok (.data field.2)) →
      readObject nested reader blank = .ok back) :
    Input.Takes (openAt source 0) run back := by
  obtain ⟨definition, sheet, content, found, obeys, written, sized, rfl⟩ := covers.body framed
  have wellFormed := sound.wellFormed _ _ found
  have filed := sound.filed _ _ found
  have key : definition.key.classId = p.classId := by rw [filed]; rfl
  have small := (Input.byteArray_ok sized).1
  obtain ⟨length, counted, rfl⟩ := Act.settled_map_ok sized
  apply (Input.takes_classKey definition.key).bind
  apply (Input.takes_length counted).bind
  apply (Input.takes_bytes (sheet.body definition)).bind_nil
  rw [filed, found]
  apply Input.takes_lift
  have room : ¬ (sheet.body definition).length < BodyReader.tableSize definition := by
    rw [Sheet.length_body]
    omega
  rw [← filed, key, created, BodyReader.start, if_neg room]
  refine reads _ ⟨definition, sheet.body definition⟩ fun field member => ?_
  exact @read_of_records _ fields p (fun _ => []) _ definition sheet wellFormed obeys written small
    records field member

end Frame

end ObjectWire
