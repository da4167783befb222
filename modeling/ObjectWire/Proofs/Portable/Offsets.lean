import ObjectWire.Proofs.ClassDefinition.Reread
import ObjectWire.Proofs.Portable.Calls
import ObjectWire.Proofs.Portable.Closing
import ObjectWire.Proofs.Portable.FailedCalls

/-!
# The table of offsets

Every write call that succeeds puts at least one byte behind the body and overwrites the entry of
its field with the position where the body ended.  So the body is that of a sheet after any number
of calls, whatever the contexts are at each of them: its table has the positions of the fields that
were written and the mark of those that were not, and positions grow in the order of writing,
whatever the indices of the fields are.
-/

namespace ObjectWire

theorem ScalarKind.length_encode_pos {kind : ScalarKind} {item : kind.Item} {run : Bytes}
    (h : kind.encode item = .ok run) : 0 < run.length := by
  cases kind with
  | char =>
    have written : encode.encodeChar item = .ok run := h
    unfold encode.encodeChar at written
    split at written
    case isTrue =>
      cases written
      rw [BigEndian.length_encode]
      decide
    case isFalse => cases written
  | byte | bool => cases h; exact Nat.one_pos
  | short | int | long | float | double =>
    cases h
    refine Nat.lt_of_lt_of_eq ?_ (BigEndian.length_encode _ _).symm
    decide

theorem Wire.length_optional_pos {α : Type} {form : α → Option Bytes} {held : Option α}
    {run : Bytes} (h : optional form held = some run) : 0 < run.length := by
  cases held with
  | none =>
    cases h
    exact Nat.one_pos
  | some item =>
    obtain ⟨inner, -, rfl⟩ := optional_some h
    rw [List.length_append]
    exact Nat.lt_of_lt_of_le Nat.one_pos (Nat.le_add_right _ _)

/-- Data take at least one byte. -/
theorem FieldData.length_form_pos {data : FieldData} {run : Bytes} (h : data.form = some run) :
    0 < run.length := by
  cases data with
  | scalar kind item => exact ScalarKind.length_encode_pos (Act.settled_of_toOption h)
  | text s => exact Wire.length_optional_pos h
  | array kind items => exact Wire.length_optional_pos h
  | textArray items => exact Wire.length_optional_pos h

namespace Frame

/-- The body has become longer if the step answers. -/
def Gains {α : Type} (step : Act Open α) : Prop :=
  ∀ state value now, step state = (.ok value, now) → state.writer.body.size < now.writer.body.size

section Gains

variable {α β : Type} {step : Act Open α} {next : α → Act Open β}

theorem size_le_of_lengthens (longer : step.Within Lengthens) {state now : Open} {value : α}
    (h : step state = (.ok value, now)) : state.writer.body.size ≤ now.writer.body.size :=
  (Act.within_of_ok longer h).body.length_le

theorem Gains.andThen (gains : Gains step) (rest : ∀ value, (next value).Within Lengthens) :
    Gains (step >>= next) := by
  intro state value now h
  obtain ⟨middle, reached, first, h⟩ := Act.bind_ok h
  exact Nat.lt_of_lt_of_le (gains state middle reached first)
    (size_le_of_lengthens (rest middle) h)

theorem Gains.after (gains : ∀ value, Gains (next value)) (first : step.Within Lengthens) :
    Gains (step >>= next) := by
  intro state value now h
  obtain ⟨middle, reached, before, h⟩ := Act.bind_ok h
  exact Nat.lt_of_le_of_lt (size_le_of_lengthens first before) (gains middle reached value now h)

theorem gains_onBody {step : Act Output Unit} {form : Option Bytes}
    (appends : Output.Appends step form) (some_byte : ∀ run, form = some run → 0 < run.length) :
    Gains (onWriter (BodyWriter.onBody step)) := by
  intro state value now h
  obtain ⟨writer, answered, rfl⟩ := Act.on_ok h
  obtain ⟨body, ran, rfl⟩ := Act.on_ok answered
  obtain ⟨run, formed, content⟩ := appends _ _ ran
  have more := some_byte run formed
  show state.writer.body.content.length < body.content.length
  rw [content, List.length_append]
  omega

theorem gains_put (flag : Bool) : Gains (put (Wire.bool flag)) := by
  apply gains_onBody (Output.appends_write _)
  rintro _ ⟨⟩
  exact Nat.one_pos

end Gains

/-- Every call writes something behind the body once its field is begun. -/
theorem gains_onward {write : FieldWrite} {kind : FieldKind} (call : write.kind? = some kind)
    (declared : Int32) : Gains (onward write declared) := by
  cases write with
  | data name value =>
    exact gains_onBody value.appends_write fun _ formed => FieldData.length_form_pos formed
  | portable name value =>
    cases value with
    | none => exact gains_put false
    | some p =>
      apply Gains.after _ (lengthens_checkClass _ _ _)
      exact fun _ => (gains_put true).andThen fun _ => lengthens_frame p
  | nullPortable name classId =>
    exact Gains.after (fun _ => gains_put false) (lengthens_checkClass _ _ _)
  | portableArray name classId items =>
    cases items with
    | none => exact Gains.after (fun _ => gains_put false) (lengthens_checkClass _ _ _)
    | some items =>
      apply Gains.after _ (lengthens_checkClass _ _ _)
      intro _
      apply Gains.after _ (lengthens_checkClasses _ _ _)
      intro _
      apply (gains_put true).andThen
      intro _
      apply (lengthens_onWriter (BodyWriter.lengthens_onBody (Output.lengthens_writeItem _))).bind
      exact fun _ => lengthens_putAll items
  | fail text => cases call

end Frame

namespace BodyWriter

variable {definition : ClassDefinition} {writer now : BodyWriter} {sheet : Sheet} {name : String}
  {field : Field} {run : Bytes} {i : Nat}

/-- The body ends behind the data of the sheet. -/
theorem Holds.size_eq (holds : writer.Holds definition sheet) :
    writer.body.size = BodyReader.tableSize definition + sheet.data.length := by
  rw [Output.size, holds.body, Sheet.length_body]

theorem Holds.drop_table (holds : writer.Holds definition sheet) :
    writer.body.content.drop (BodyReader.tableSize definition) = sheet.data := by
  rw [holds.body, Sheet.body, List.drop_left' (Sheet.length_table definition sheet)]

theorem Holds.take_table (holds : writer.Holds definition sheet) :
    writer.body.content.take (BodyReader.tableSize definition) = sheet.table definition := by
  rw [holds.body, Sheet.body, List.take_left' (Sheet.length_table definition sheet)]

/-- What stands behind the body as it was are the data of the last entry. -/
theorem Holds.drop_size (holds : writer.Holds definition sheet)
    (after : now.Holds definition (sheet ++ [(name, run)])) :
    now.body.content.drop writer.body.size = run := by
  rw [holds.size_eq, ← List.drop_drop, after.drop_table]
  simp [Sheet.data]

/-- The entry of a field is its offset in the sheet. -/
theorem Holds.entry_eq (holds : writer.Holds definition sheet)
    (place : definition.fields[i]? = some field) :
    entry writer.body.content i =
      Wire.int (sheet.offset (BodyReader.tableSize definition) field.name) := by
  have inside := (List.getElem?_eq_some_iff.mp place).1
  have room : i * 4 ≤ (sheet.table definition).length := by
    rw [Sheet.length_table, BodyReader.tableSize]
    omega
  obtain ⟨rest, dropped⟩ := Sheet.drop_entries
    (fun field : Field =>
      Sheet.length_int (sheet.offset (BodyReader.tableSize definition) field.name)) place
  rw [entry, holds.body, Sheet.body, List.drop_append_of_le_length room, Sheet.table, dropped,
    List.append_assoc, List.take_left' (Sheet.length_int _)]

/-- A field is begun only if the body has not become too large for offsets. -/
theorem Holds.size_lt (wellFormed : definition.WellFormed) (holds : writer.Holds definition sheet)
    {kind : FieldKind} {declared : Int32} (h : beginField name kind writer = (.ok declared, now)) :
    writer.body.size < Wire.lengthLimit := by
  cases refused : writer.refusal? name kind with
  | some failure =>
    rw [beginField_of_refused refused] at h
    cases h
  | none =>
    obtain ⟨field, admits⟩ := exists_admits refused
    have inside := admits.inside wellFormed.placed holds.describes
    rw [beginField_of_admits admits (by rw [holds.size_eq, BodyReader.tableSize]; omega)] at h
    split at h
    case isTrue => cases h
    case isFalse small => exact Nat.not_le.mp small

end BodyWriter

namespace Frame

variable {definition : ClassDefinition} {state now : Open} {sheet : Sheet} {write : FieldWrite}

/-- A call that succeeds has written a field of the class that was not written before, and puts data
    for it behind the body. -/
theorem perform_ok (wellFormed : definition.WellFormed)
    (holds : state.writer.Holds definition sheet) (h : perform write state = (.ok (), now)) :
    write.name ∉ sheet.names ∧ state.writer.body.size < Wire.lengthLimit ∧
      (∃ field, definition.field? write.name = some field ∧ write.kind? = some field.kind) ∧
      ∃ run, 0 < run.length ∧ now.writer.Holds definition (sheet ++ [(write.name, run)]) := by
  cases call : write.kind? with
  | none => cases write <;> cases call; cases h
  | some kind =>
    rw [perform_begins call] at h
    obtain ⟨declared, begun, began, h⟩ := Act.bind_ok h
    obtain ⟨writer, answered, rfl⟩ := Act.on_ok began
    obtain ⟨field, found, same, -, new, after⟩ :=
      BodyWriter.beginField_ok wellFormed holds answered
    obtain ⟨described, marked, more, appended⟩ := Act.within_of_ok (lengthens_onward write _) h
    have longer := gains_onward call declared _ _ _ h
    have content : now.writer.body.content =
        Sheet.body definition (sheet ++ [(write.name, more)]) := by
      rw [← appended, after.body, Sheet.body_append, List.nil_append]
    have names : Sheet.names (sheet ++ [(write.name, more)]) =
        Sheet.names (sheet ++ [(write.name, [])]) := by simp [Sheet.names]
    refine ⟨new, holds.size_lt wellFormed answered, ⟨field, found, by rw [same]⟩, more, ?_,
      described.trans after.describes, content, ?_⟩
    · rw [Output.size, Output.size, ← appended, List.length_append] at longer
      omega
    · rw [names, marked]
      exact after.written

/-- In a sound context, the data are the form of what was written. -/
theorem span_of_perform (wellFormed : definition.WellFormed)
    (holds : state.writer.Holds definition sheet) (sound : state.context.Sound)
    (h : perform write state = (.ok (), now)) :
    now.context.span write = some (now.writer.body.content.drop state.writer.body.size) := by
  have performed :=
    (meets_perform (fun q _ => meets_close q) sound wellFormed holds).2 () now h
  obtain ⟨run, written, after⟩ := performed.entry
  rw [written, holds.drop_size after]

end Frame

/-- A field that was written: what was to be written, where the body ended, and what was put
    there. -/
structure Placement where
  write : FieldWrite
  position : Nat
  data : Bytes

namespace Placement

/-- The sheet that fields come to that were written in this order. -/
def sheet (placements : List Placement) : Sheet :=
  placements.map fun placement => (placement.write.name, placement.data)

theorem sheet_append_cons (front back : List Placement) (placement : Placement) :
    sheet (front ++ placement :: back) =
      sheet front ++ (placement.write.name, placement.data) :: sheet back := by
  rw [sheet, List.map_append, List.map_cons, sheet, sheet]

theorem names_sheet (placements : List Placement) :
    (sheet placements).names = placements.map fun placement => placement.write.name := by
  simp [sheet, Sheet.names]

/-- The offset that the table should have for a field: where its data start, or the mark of fields
    that were not written. -/
def offset (placements : List Placement) (name : String) : Int32 :=
  match placements.find? fun placement => placement.write.name = name with
  | some placement => Int32.ofNat placement.position
  | none => BodyReader.unwritten

end Placement

namespace BodyWriter

/-- Write calls that succeed, one after the other, lead from one body to the other, whatever the
    context is at each of them. -/
inductive Fills : BodyWriter → List Placement → BodyWriter → Prop
  | fresh (writer : BodyWriter) : Fills writer [] writer
  | call {writer : BodyWriter} {placements : List Placement} {state now : Frame.Open}
      {write : FieldWrite} (earlier : Fills writer placements state.writer)
      (done : Frame.perform write state = (.ok (), now)) :
      Fills writer (placements ++ [⟨write, state.writer.body.size,
        now.writer.body.content.drop state.writer.body.size⟩]) now.writer

/-- The field was written behind those in front, once, and has data. -/
structure Placed (definition : ClassDefinition) (front : List Placement) (placement : Placement) :
    Prop where
  position : placement.position =
    BodyReader.tableSize definition + (Placement.sheet front).data.length
  small : placement.position < Wire.lengthLimit
  data : 0 < placement.data.length
  new : placement.write.name ∉ (Placement.sheet front).names
  declared : ∃ field, definition.field? placement.write.name = some field ∧
    placement.write.kind? = some field.kind

variable {definition : ClassDefinition} {buffer : Output} {placements : List Placement}
  {writer : BodyWriter}

/-- The table of offsets of a body, and what stands where it says. -/
structure Tabled (definition : ClassDefinition) (content : Bytes) (placements : List Placement) :
    Prop where
  table : content.take (BodyReader.tableSize definition) =
    definition.fields.flatMap fun field => Wire.int (Placement.offset placements field.name)
  once : (placements.map fun placement => placement.write.name).Nodup
  ascending : placements.Pairwise fun earlier later => earlier.position < later.position
  inside : ∀ placement ∈ placements, BodyReader.tableSize definition ≤ placement.position ∧
    placement.position < content.length ∧ placement.position < Wire.lengthLimit
  data : ∀ placement ∈ placements,
    0 < placement.data.length ∧ placement.data <+: content.drop placement.position
  written : ∀ placement ∈ placements, ∃ field,
    definition.field? placement.write.name = some field ∧
    placement.write.kind? = some field.kind ∧
    BodyReader.seek ⟨definition, content⟩ field.name field.kind =
      .ok (some (.ofBytes (content.drop placement.position)))
  unwritten : ∀ field ∈ definition.fields,
    field.name ∉ placements.map (fun placement => placement.write.name) →
    BodyReader.seek ⟨definition, content⟩ field.name field.kind = .ok none

section Fills

variable (wellFormed : definition.WellFormed) (clean : buffer.content = [])
  (fills : (start definition buffer).Fills placements writer)
include wellFormed clean fills

/-- After any calls, the body is that of the sheet of what they wrote. -/
theorem Fills.holds : writer.Holds definition (Placement.sheet placements) := by
  induction fills with
  | fresh => exact holds_start definition clean
  | @call placements state now write earlier done ih =>
    obtain ⟨-, -, -, run, -, after⟩ := Frame.perform_ok wellFormed ih done
    rw [ih.drop_size after]
    simpa [Placement.sheet] using after

theorem Fills.placed_of_eq {front back : List Placement} {placement : Placement}
    (split : placements = front ++ placement :: back) : Placed definition front placement := by
  induction fills generalizing back with
  | fresh => simp at split
  | @call placements state now write earlier done ih =>
    rcases List.eq_nil_or_concat back with rfl | ⟨inner, last, rfl⟩
    · obtain ⟨rfl, only⟩ := List.append_inj' split rfl
      obtain rfl := (List.cons.inj only).1
      have holds := earlier.holds wellFormed clean
      obtain ⟨new, small, declared, run, more, after⟩ := Frame.perform_ok wellFormed holds done
      refine ⟨holds.size_eq, small, ?_, new, declared⟩
      rwa [holds.drop_size after]
    · have shorter : placements = front ++ placement :: inner := by
        rw [List.concat_eq_append, ← List.cons_append, ← List.append_assoc] at split
        exact (List.append_inj' split rfl).1
      exact ih shorter

theorem Fills.placed {placement : Placement} (member : placement ∈ placements) :
    ∃ front back, placements = front ++ placement :: back ∧ Placed definition front placement := by
  obtain ⟨front, back, split⟩ := List.append_of_mem member
  exact ⟨front, back, split, fills.placed_of_eq wellFormed clean split⟩

/-- The offset of a field in the sheet is the position at which it was written. -/
theorem Fills.offset_eq (name : String) :
    (Placement.sheet placements).offset (BodyReader.tableSize definition) name =
      Placement.offset placements name := by
  unfold Placement.offset
  split
  case h_1 placement found =>
    obtain ⟨named, front, back, split, -⟩ := List.find?_eq_some_iff_append.mp found
    have placed := fills.placed_of_eq wellFormed clean split
    have name_eq : placement.write.name = name := by simpa using named
    rw [split, placed.position, Placement.sheet_append_cons, name_eq]
    exact Sheet.offset_at (name_eq ▸ placed.new)
  case h_2 absent =>
    apply Sheet.offset_of_absent
    rw [Placement.names_sheet, List.mem_map]
    rintro ⟨placement, member, named⟩
    exact List.find?_eq_none.mp absent placement member (by simpa using named)

theorem Fills.table_eq :
    writer.body.content.take (BodyReader.tableSize definition) =
      definition.fields.flatMap fun field => Wire.int (Placement.offset placements field.name) := by
  rw [(fills.holds wellFormed clean).take_table, Sheet.table]
  simp only [fills.offset_eq wellFormed clean]

/-- What was put there for a field stands at its position. -/
theorem Fills.data_at {placement : Placement} (member : placement ∈ placements) :
    placement.data <+: writer.body.content.drop placement.position := by
  obtain ⟨front, back, split, placed⟩ := fills.placed wellFormed clean member
  rw [placed.position, ← List.drop_drop, (fills.holds wellFormed clean).drop_table, split]
  simp [Placement.sheet, Sheet.data]

theorem Fills.inside {placement : Placement} (member : placement ∈ placements) :
    BodyReader.tableSize definition ≤ placement.position ∧
      placement.position < writer.body.content.length ∧ placement.position < Wire.lengthLimit := by
  obtain ⟨front, -, -, placed⟩ := fills.placed wellFormed clean member
  have position := placed.position
  have some_byte := placed.data
  have follows := (fills.data_at wellFormed clean member).length_le
  rw [List.length_drop] at follows
  exact ⟨by omega, by omega, placed.small⟩

theorem Fills.ascending :
    placements.Pairwise fun earlier later => earlier.position < later.position := by
  induction fills with
  | fresh => exact .nil
  | call earlier done ih =>
    apply List.pairwise_append.mpr ⟨ih, List.pairwise_singleton _ _, ?_⟩
    intro placement member last among
    rw [List.mem_singleton.mp among]
    exact (earlier.inside wellFormed clean member).2.1

theorem Fills.once : (placements.map fun placement => placement.write.name).Nodup := by
  induction fills with
  | fresh => exact List.nodup_nil
  | @call placements state now write earlier done ih =>
    have new := (Frame.perform_ok wellFormed (earlier.holds wellFormed clean) done).1
    rw [Placement.names_sheet] at new
    rw [List.map_append]
    exact List.Nodup.append ih (List.nodup_singleton _) (List.disjoint_singleton.mpr new)

/-- A field that was written is found at its position. -/
theorem Fills.seek_written {placement : Placement} (member : placement ∈ placements)
    {field : Field} (declared : definition.field? placement.write.name = some field) :
    BodyReader.seek ⟨definition, writer.body.content⟩ field.name field.kind =
      .ok (some (.ofBytes (writer.body.content.drop placement.position))) := by
  obtain ⟨named, place, -⟩ := wellFormed.position declared
  obtain ⟨behind, before, small⟩ := fills.inside wellFormed clean member
  obtain ⟨front, back, split, placed⟩ := fills.placed wellFormed clean member
  have entered := (fills.holds wellFormed clean).entry_eq place
  rw [split, Placement.sheet_append_cons, named, Sheet.offset_at placed.new,
    ← placed.position] at entered
  exact seek_at (by rw [named, declared]) small behind (Nat.le_of_lt before) entered

/-- A field that was not written has no offset. -/
theorem Fills.seek_unwritten {field : Field} (member : field ∈ definition.fields)
    (absent : field.name ∉ placements.map fun placement => placement.write.name) :
    BodyReader.seek ⟨definition, writer.body.content⟩ field.name field.kind = .ok none := by
  have declared := (wellFormed.orderly.found field.name field).mpr ⟨member, rfl⟩
  have entered := (fills.holds wellFormed clean).entry_eq (wellFormed.position declared).2.1
  rw [Sheet.offset_of_absent (by rwa [Placement.names_sheet])] at entered
  exact seek_blank declared entered

theorem Fills.tabled : Tabled definition writer.body.content placements where
  table := fills.table_eq wellFormed clean
  once := fills.once wellFormed clean
  ascending := fills.ascending wellFormed clean
  inside _ member := fills.inside wellFormed clean member
  data _ member := by
    obtain ⟨front, -, -, placed⟩ := fills.placed wellFormed clean member
    exact ⟨placed.data, fills.data_at wellFormed clean member⟩
  written _ member := by
    obtain ⟨front, -, -, placed⟩ := fills.placed wellFormed clean member
    obtain ⟨field, declared, kind⟩ := placed.declared
    exact ⟨field, declared, kind, fills.seek_written wellFormed clean member declared⟩
  unwritten _ member absent := fills.seek_unwritten wellFormed clean member absent

end Fills

/-- What a write call puts behind the table stays behind what was there, and no entry changes but
    that of its field. -/
theorem Holds.adds {before after : BodyWriter} {sheet : Sheet} {name : String} {run : Bytes}
    (holds : before.Holds definition sheet)
    (written : after.Holds definition (sheet ++ [(name, run)])) :
    before.body.content.drop (BodyReader.tableSize definition) <+:
        after.body.content.drop (BodyReader.tableSize definition) ∧
      ∀ i field, definition.fields[i]? = some field → field.name ≠ name →
        entry after.body.content i = entry before.body.content i := by
  constructor
  · rw [holds.drop_table, written.drop_table]
    simp [Sheet.data]
  · intro i field place other
    rw [written.entry_eq place, holds.entry_eq place, Sheet.offset_append (Ne.symm other)]

/-- After any write calls that succeed, in any order of the fields, the table leads to the data of
    the fields that were written and to nothing for the others.  A further call only adds: what was
    there behind the table stays, and so do the entries of all other fields. -/
theorem offsets_lead_to_data (built : definition.Built) (clean : buffer.content = [])
    {state : Frame.Open} (fills : (start definition buffer).Fills placements state.writer) :
    Tabled definition state.writer.body.content placements ∧
      ∀ write now, Frame.perform write state = (.ok (), now) →
        state.writer.body.content.drop (BodyReader.tableSize definition) <+:
            now.writer.body.content.drop (BodyReader.tableSize definition) ∧
          (∀ i field, definition.fields[i]? = some field → field.name ≠ write.name →
            entry now.writer.body.content i = entry state.writer.body.content i) ∧
          (state.context.Sound →
            now.context.span write =
              some (now.writer.body.content.drop state.writer.body.size)) := by
  have wellFormed := built.wellFormed
  refine ⟨fills.tabled wellFormed clean, fun write now done => ?_⟩
  have holds := fills.holds wellFormed clean
  obtain ⟨-, -, -, run, -, written⟩ := Frame.perform_ok wellFormed holds done
  obtain ⟨kept, others⟩ := holds.adds written
  exact ⟨kept, others, fun sound => Frame.span_of_perform wellFormed holds sound done⟩

/-- The second field is written first: its data stand in front, behind the table of two. -/
theorem offsets_of_character_behind_number :
    let first : Frame.Open :=
      ⟨.start Frame.characterAndNumber (.empty 0), .start 0 (.ofSettings 16 64 1)⟩
    let x : FieldWrite := .data "x" (.scalar .int (5 : Int32))
    let c : FieldWrite := .data "c" (.scalar .char 'a')
    let middle := (Frame.perform x first).2
    let last := (Frame.perform c middle).2
    Tabled Frame.characterAndNumber last.writer.body.content
        [⟨x, 8, [0, 0, 0, 5]⟩, ⟨c, 12, [0, 97]⟩] ∧
      last.writer.body.content = [0, 0, 0, 12, 0, 0, 0, 8, 0, 0, 0, 5, 0, 97] := by
  intro first x c middle last
  have fills : (start Frame.characterAndNumber (.empty 0)).Fills
      [⟨x, 8, [0, 0, 0, 5]⟩, ⟨c, 12, [0, 97]⟩] last.writer :=
    .call (.call (.fresh first.writer) (rfl : Frame.perform x first = (.ok (), middle)))
      (rfl : Frame.perform c middle = (.ok (), last))
  exact ⟨(offsets_lead_to_data Frame.characterAndNumber_built rfl fills).1, by decide⟩

end BodyWriter

end ObjectWire
