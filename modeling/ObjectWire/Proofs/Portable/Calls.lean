import ObjectWire.Proofs.ClassDefinition.Built
import ObjectWire.Proofs.Portable.Objects
import ObjectWire.Proofs.Portable.Form
import ObjectWire.Proofs.Portable.Seeking

/-!
# Write calls

A write call begins its field and then appends to the body, and it may fail at any point; the
writer goes on from wherever the call left it.  Beginning a field is the only step that touches
the marks and the table of offsets: a field that is begun is marked for good, its offset stays
that of the end of the body as it was, and a field that is not begun has no offset.  So a field is
found where the body ended when it was begun, however the call that began it went on.
-/

namespace ObjectWire

/-- The content of the first buffer is the beginning of that of the second. -/
def Output.Lengthens (before after : Output) : Prop := before.content <+: after.content

namespace Output

instance : Std.Refl Lengthens := ⟨fun output => output.content.prefix_refl⟩

instance : Trans Lengthens Lengthens Lengthens := ⟨fun first second => first.trans second⟩

theorem lengthens_write (run : Bytes) : (write run).Within Lengthens :=
  fun output => List.prefix_append output.content run

theorem lengthens_writeItem (item : Except Failure Bytes) : (writeItem item).Within Lengthens :=
  (Act.within_lift item).bind fun run => lengthens_write run

theorem lengthens_writeRun {α : Type} (encode : α → Except Failure Bytes)
    (items : Option (List α)) : (FieldData.writeRun encode items).Within Lengthens := by
  cases items with
  | none => exact lengthens_write _
  | some items =>
    apply (lengthens_write _).bind
    intro _
    apply (lengthens_writeItem _).bind
    intro _
    exact Act.within_forEach fun item _ => lengthens_writeItem (encode item)

theorem lengthens_data (data : FieldData) : data.write.Within Lengthens := by
  cases data with
  | scalar kind item => exact lengthens_writeItem _
  | text s =>
    cases s with
    | none => exact lengthens_write _
    | some s => exact (lengthens_write _).bind fun _ => lengthens_writeItem _
  | array kind items => exact lengthens_writeRun kind.encode items
  | textArray items => exact lengthens_writeRun Wire.string items

end Output

namespace BodyWriter

/-- Only the body differs, and has become longer. -/
structure Lengthens (before after : BodyWriter) : Prop where
  definition : after.definition = before.definition
  written : after.written = before.written
  body : before.body.Lengthens after.body

theorem Lengthens.trans {first second third : BodyWriter} (front : first.Lengthens second)
    (back : second.Lengthens third) : first.Lengthens third :=
  ⟨back.definition.trans front.definition, back.written.trans front.written,
    List.IsPrefix.trans front.body back.body⟩

instance : Std.Refl Lengthens := ⟨fun writer => ⟨rfl, rfl, Std.Refl.refl writer.body⟩⟩

instance : Trans Lengthens Lengthens Lengthens := ⟨Lengthens.trans⟩

theorem lengthens_onBody {α : Type} {step : Act Output α} (h : step.Within Output.Lengthens) :
    (onBody step).Within Lengthens :=
  fun writer => ⟨rfl, rfl, h writer.body⟩

theorem lengthens_checkClass (name : String) (declared actual : Int32) :
    (checkClass name declared actual).Within Lengthens := by
  unfold checkClass
  split
  · exact Act.within_pure _
  · exact Act.within_fail _

end BodyWriter

namespace Frame

/-- The body under construction has become longer, and nothing else has become of it. -/
def Lengthens (before after : Open) : Prop := before.writer.Lengthens after.writer

instance : Std.Refl Lengthens := ⟨fun state => Std.Refl.refl state.writer⟩

instance : Trans Lengthens Lengthens Lengthens :=
  ⟨fun front back => BodyWriter.Lengthens.trans front back⟩

theorem lengthens_onWriter {α : Type} {step : Act BodyWriter α}
    (h : step.Within BodyWriter.Lengthens) : (onWriter step).Within Lengthens :=
  fun state => h state.writer

theorem lengthens_onContext {α : Type} (step : Act PortableContext α) :
    (onContext step).Within Lengthens :=
  fun state => Std.Refl.refl state.writer

theorem lengthens_put (run : Bytes) : (put run).Within Lengthens :=
  lengthens_onWriter (BodyWriter.lengthens_onBody (Output.lengthens_write run))

theorem lengthens_checkClass (name : String) (declared actual : Int32) :
    (onWriter (BodyWriter.checkClass name declared actual)).Within Lengthens :=
  lengthens_onWriter (BodyWriter.lengthens_checkClass name declared actual)

theorem lengthens_checkClasses (name : String) (declared : Int32) (items : List Portable) :
    (checkClasses name declared items).Within Lengthens := by
  induction items with
  | nil => exact Act.within_pure ()
  | cons p items ih => exact (lengthens_checkClass name declared p.classId).bind fun _ => ih

theorem lengthens_frame (p : Portable) :
    (do let frame ← onContext (close p)
        onWriter (BodyWriter.onBody frame.write)).Within Lengthens := by
  apply (lengthens_onContext (close p)).bind
  intro frame
  apply lengthens_onWriter
  apply BodyWriter.lengthens_onBody
  exact (Output.lengthens_write _).bind fun _ => Output.lengthens_writeItem _

theorem lengthens_putAll (items : List Portable) : (putAll items).Within Lengthens := by
  induction items with
  | nil => exact Act.within_pure ()
  | cons p items ih =>
    rw [putAll_cons]
    exact (lengthens_frame p).bind fun _ => ih

/-- What a write call does once its field is begun; the class is the one the field declares. -/
def onward : FieldWrite → Int32 → Act Open Unit
  | .data _ value, _ => onWriter (BodyWriter.onBody value.write)
  | .portable _ none, _ => put (Wire.bool false)
  | .portable name (some p), declared => do
    onWriter (BodyWriter.checkClass name declared p.classId)
    put (Wire.bool true)
    let frame ← onContext (close p)
    onWriter (BodyWriter.onBody frame.write)
  | .nullPortable name classId, declared | .portableArray name classId none, declared => do
    onWriter (BodyWriter.checkClass name declared classId)
    put (Wire.bool false)
  | .portableArray name classId (some items), declared => do
    onWriter (BodyWriter.checkClass name declared classId)
    checkClasses name declared items
    put (Wire.bool true)
    onWriter (BodyWriter.onBody (Output.writeItem (Wire.length .array items.length)))
    putAll items
  | .fail _, _ => pure ()

/-- Every write call begins its field before it does anything else. -/
theorem perform_begins {write : FieldWrite} {kind : FieldKind} (call : write.kind? = some kind) :
    perform write = onWriter (BodyWriter.beginField write.name kind) >>= onward write := by
  cases write with
  | data name value =>
    cases call
    exact onWriter_bind _ _
  | portable name value => cases call; cases value <;> rfl
  | nullPortable name classId => cases call; rfl
  | portableArray name classId items => cases call; cases items <;> rfl
  | fail text => cases call

theorem lengthens_onward (write : FieldWrite) (declared : Int32) :
    (onward write declared).Within Lengthens := by
  cases write with
  | data name value =>
    exact lengthens_onWriter (BodyWriter.lengthens_onBody (Output.lengthens_data value))
  | portable name value =>
    cases value with
    | none => exact lengthens_put _
    | some p =>
      apply (lengthens_checkClass _ _ _).bind
      intro _
      exact (lengthens_put _).bind fun _ => lengthens_frame p
  | nullPortable name classId =>
    exact (lengthens_checkClass _ _ _).bind fun _ => lengthens_put _
  | portableArray name classId items =>
    cases items with
    | none => exact (lengthens_checkClass _ _ _).bind fun _ => lengthens_put _
    | some items =>
      apply (lengthens_checkClass _ _ _).bind
      intro _
      apply (lengthens_checkClasses _ _ _).bind
      intro _
      apply (lengthens_put _).bind
      intro _
      apply (lengthens_onWriter (BodyWriter.lengthens_onBody (Output.lengthens_writeItem _))).bind
      exact fun _ => lengthens_putAll items
  | fail text => exact Act.within_pure ()

end Frame

namespace BodyWriter

variable {definition : ClassDefinition} {writer now : BodyWriter} {field : Field} {name : String}
  {kind : FieldKind} {content more : Bytes} {i j : Nat} {n : Int32}

/-! Entries of the table of offsets. -/

/-- The entry at an index. -/
def entry (content : Bytes) (i : Nat) : Bytes := (content.drop (i * 4)).take 4

/-- The content with another entry at an index. -/
def patch (content : Bytes) (i : Nat) (n : Int32) : Bytes :=
  content.take (i * 4) ++ Wire.int n ++ content.drop (i * 4 + 4)

theorem length_patch (inside : i * 4 + 4 ≤ content.length) :
    (patch content i n).length = content.length := by
  simp only [patch, List.length_append, List.length_take, List.length_drop, Sheet.length_int]
  omega

theorem getElem?_patch (inside : i * 4 + 4 ≤ content.length) (k : Nat)
    (outside : k < i * 4 ∨ i * 4 + 4 ≤ k) : (patch content i n)[k]? = content[k]? := by
  have front : (content.take (i * 4)).length = i * 4 := by
    rw [List.length_take]
    omega
  rw [patch, List.append_assoc]
  rcases outside with before | behind
  · rw [List.getElem?_append_left (by omega), List.getElem?_take_of_lt before]
  · rw [List.getElem?_append_right (by omega), List.getElem?_append_right (by
      rw [Sheet.length_int]; omega), List.getElem?_drop, front, Sheet.length_int]
    congr 1
    omega

theorem entry_patch_self (inside : i * 4 + 4 ≤ content.length) :
    entry (patch content i n) i = Wire.int n := by
  have front : (content.take (i * 4)).length = i * 4 := by
    rw [List.length_take]
    omega
  rw [entry, patch, List.append_assoc, List.drop_left' front, List.take_left' (Sheet.length_int n)]

theorem entry_patch_other (inside : i * 4 + 4 ≤ content.length) (other : j ≠ i) :
    entry (patch content i n) j = entry content j := by
  apply List.ext_getElem?
  intro k
  simp only [entry, List.getElem?_take, List.getElem?_drop]
  split
  · exact getElem?_patch inside _ (by omega)
  · rfl

/-- A patch of the table leaves the data alone. -/
theorem drop_patch (inside : i * 4 + 4 ≤ j) (room : j ≤ content.length) :
    (patch content i n).drop j = content.drop j := by
  apply List.ext_getElem?
  intro k
  simp only [List.getElem?_drop]
  exact getElem?_patch (by omega) _ (by omega)

theorem entry_append (inside : i * 4 + 4 ≤ content.length) :
    entry (content ++ more) i = entry content i := by
  rw [entry, List.drop_append_of_le_length (by omega), List.take_append_of_le_length (by
    rw [List.length_drop]; omega)]
  rfl

theorem offsetOf_of_entry (h : entry content field.index.toNatClampNeg = Wire.int n) :
    BodyReader.offsetOf ⟨definition, content⟩ field = .ok n := by
  have front := List.take_append_drop 4 (content.drop (field.index.toNatClampNeg * 4))
  rw [entry] at h
  rw [h] at front
  rw [BodyReader.offsetOf, ← front]
  exact congrArg Prod.fst (Input.takes_int n _ 0)

/-! Beginning a field. -/

/-- Why the writer would not begin a field. -/
def refusal? (writer : BodyWriter) (name : String) (kind : FieldKind) : Option Failure :=
  match writer.definition.field? name with
  | none => some (.unknownField name writer.definition.classId)
  | some field =>
    if field.kind ≠ kind then some (.kindMismatch name field.kind kind)
    else if writer.written[field.index.toNatClampNeg]?.getD false then some (.writtenTwice name)
    else none

/-- The field is declared under the name and with the kind, and has not been begun. -/
structure Admits (writer : BodyWriter) (name : String) (kind : FieldKind) (field : Field) : Prop
    where
  found : writer.definition.field? name = some field
  kind : field.kind = kind
  fresh : writer.written[field.index.toNatClampNeg]? ≠ some true

/-- The body with a field begun: the field is marked, and its offset is that of the end of the
    body, unless that is too far away to be an offset. -/
def begun (writer : BodyWriter) (field : Field) : BodyWriter where
  definition := writer.definition
  written := writer.written.set field.index.toNatClampNeg true
  body :=
    if Wire.lengthLimit ≤ writer.body.size then writer.body
    else { writer.body with
      content := patch writer.body.content field.index.toNatClampNeg
        (Int32.ofNat writer.body.size) }

theorem exists_admits (h : writer.refusal? name kind = none) :
    ∃ field, writer.Admits name kind field := by
  unfold refusal? at h
  split at h
  case h_1 => cases h
  case h_2 field found =>
    split at h
    case isTrue => cases h
    case isFalse same =>
      split at h
      case isTrue => cases h
      case isFalse fresh =>
        refine ⟨field, found, Classical.not_not.mp same, fun begun => fresh ?_⟩
        rw [begun]
        rfl

theorem Admits.refusal?_none (admits : writer.Admits name kind field) :
    writer.refusal? name kind = none := by
  obtain ⟨found, same, fresh⟩ := admits
  unfold refusal?
  rw [found]
  dsimp only
  rw [if_neg (by simpa using same), if_neg]
  intro begun
  cases marked : writer.written[field.index.toNatClampNeg]? with
  | none => rw [marked] at begun; cases begun
  | some flag =>
    rw [marked] at begun
    cases begun
    exact fresh marked

theorem beginField_of_refused {failure : Failure}
    (h : writer.refusal? name kind = some failure) :
    beginField name kind writer = (.error failure, writer) := by
  unfold refusal? at h
  rw [beginField, Act.bind_of_ok (Act.get_apply writer)]
  split at h
  case h_1 absent =>
    cases h
    simp only [absent, Act.fail_apply]
  case h_2 field found =>
    simp only [found]
    split at h
    case isTrue other =>
      cases h
      rw [if_pos other, Act.fail_apply]
    case isFalse same =>
      rw [if_neg same]
      split at h
      case isTrue marked =>
        cases h
        rw [if_pos marked, Act.fail_apply]
      case isFalse => cases h

theorem beginField_of_admits (admits : writer.Admits name kind field)
    (room : field.index.toNatClampNeg * 4 + 4 ≤ writer.body.size) :
    beginField name kind writer =
      (if Wire.lengthLimit ≤ writer.body.size then .error .bodyTooLarge
       else .ok field.nested.classId, writer.begun field) := by
  have unmarked := admits.refusal?_none
  obtain ⟨found, same, -⟩ := admits
  unfold refusal? at unmarked
  rw [beginField, Act.bind_of_ok (Act.get_apply writer)]
  simp only [found] at unmarked ⊢
  rw [if_neg (by simpa using same)] at unmarked ⊢
  split at unmarked
  case isTrue => cases unmarked
  case isFalse fresh =>
    rw [if_neg fresh]
    let marked : BodyWriter :=
      { writer with written := writer.written.set field.index.toNatClampNeg true }
    have set : (set marked : Act BodyWriter Unit) writer = (.ok (), marked) := rfl
    refine (Act.bind_of_ok set).trans ?_
    by_cases large : Wire.lengthLimit ≤ writer.body.size
    · rw [if_pos large, if_pos large, begun, if_pos large]
      rfl
    · rw [if_neg large, if_neg large, begun, if_neg large]
      have patched : onBody (Output.patchInt (field.index.toNatClampNeg * 4)
          (Int32.ofNat writer.body.size)) marked =
          (.ok (), { marked with
            body.content := patch writer.body.content field.index.toNatClampNeg
              (Int32.ofNat writer.body.size) }) := by
        rw [onBody, Act.on_apply, Output.patchInt, if_pos room]
        rfl
      exact Act.bind_of_ok patched

/-! What every call keeps. -/

/-- There is a mark and an entry for every field, and a field that is not begun has no offset. -/
structure Stands (writer : BodyWriter) (definition : ClassDefinition) : Prop where
  describes : writer.definition = definition
  marks : writer.written.length = definition.fields.length
  room : BodyReader.tableSize definition ≤ writer.body.size
  blank : ∀ i < definition.fields.length, writer.written[i]? ≠ some true →
    entry writer.body.content i = Wire.int BodyReader.unwritten

/-- Fields that are begun stay begun where they were begun, and data only come behind the data. -/
structure Keeps (definition : ClassDefinition) (before after : BodyWriter) : Prop where
  marks : ∀ i : Nat, before.written[i]? = some true → after.written[i]? = some true
  entries : ∀ i : Nat, before.written[i]? = some true →
    entry after.body.content i = entry before.body.content i
  data : before.body.content.drop (BodyReader.tableSize definition) <+:
    after.body.content.drop (BodyReader.tableSize definition)

theorem Keeps.refl (writer : BodyWriter) : Keeps definition writer writer :=
  ⟨fun _ => id, fun _ _ => rfl, List.prefix_refl _⟩

theorem Keeps.trans {first second third : BodyWriter} (front : Keeps definition first second)
    (back : Keeps definition second third) : Keeps definition first third :=
  ⟨fun i marked => back.marks i (front.marks i marked),
    fun i marked => (back.entries i (front.marks i marked)).trans (front.entries i marked),
    front.data.trans back.data⟩

theorem stands_start (definition : ClassDefinition) {buffer : Output}
    (clean : buffer.content = []) : (start definition buffer).Stands definition := by
  have content : (start definition buffer).body.content =
      definition.fields.flatMap fun _ => Wire.int BodyReader.unwritten := by
    rw [start, Output.append, clean, List.flatMap_def, List.map_const']
    rfl
  refine ⟨rfl, by simp [start], ?_, fun i inside _ => ?_⟩
  · rw [Output.size, content, Sheet.length_entries fun _ => Sheet.length_int _]
    exact Nat.le_refl _
  · obtain ⟨rest, dropped⟩ := Sheet.drop_entries
      (fun _ : Field => Sheet.length_int BodyReader.unwritten) (List.getElem?_eq_getElem inside)
    rw [entry, content, dropped, List.take_left' (Sheet.length_int _)]

/-- The body has room for the entry of every field. -/
theorem Stands.index_le (stands : writer.Stands definition)
    (inside : i < definition.fields.length) : i * 4 + 4 ≤ writer.body.content.length := by
  have room := stands.room
  rw [BodyReader.tableSize, Output.size] at room
  omega

/-- A longer body has the same table. -/
theorem Stands.entry_eq (stands : writer.Stands definition) (longer : writer.Lengthens now)
    (inside : i < definition.fields.length) :
    entry now.body.content i = entry writer.body.content i := by
  obtain ⟨more, appended⟩ := longer.body
  rw [← appended, entry_append (stands.index_le inside)]

theorem Stands.lengthens (stands : writer.Stands definition) (longer : writer.Lengthens now) :
    now.Stands definition ∧ Keeps definition writer now := by
  have entries : ∀ i < definition.fields.length,
      entry now.body.content i = entry writer.body.content i :=
    fun i inside => stands.entry_eq longer inside
  obtain ⟨describes, marks, room, blank⟩ := stands
  obtain ⟨same, still, more, appended⟩ := longer
  rw [BodyReader.tableSize, Output.size] at room
  refine ⟨⟨same.trans describes, ?_, ?_, ?_⟩, ?_, ?_, ?_⟩
  · rw [still, marks]
  · rw [BodyReader.tableSize, Output.size, ← appended, List.length_append]
    omega
  · intro i inside unmarked
    rw [still] at unmarked
    rw [entries i inside, blank i inside unmarked]
  · intro i marked
    rwa [still]
  · intro i marked
    apply entries
    rw [← marks]
    exact (List.getElem?_eq_some_iff.mp marked).1
  · rw [← appended, List.drop_append_of_le_length (by rwa [BodyReader.tableSize])]
    exact List.prefix_append _ _

/-- The index of a field of the class is one of the table. -/
theorem Admits.inside (admits : writer.Admits name kind field)
    (placed : definition.Placed) (describes : writer.definition = definition) :
    field.index.toNatClampNeg < definition.fields.length := by
  obtain ⟨-, place⟩ := placed.position (describes ▸ admits.found)
  exact (List.getElem?_eq_some_iff.mp place).1

/-- Beginning a field leaves the entries of the others alone. -/
theorem entry_begun_of_ne
    (inside : field.index.toNatClampNeg * 4 + 4 ≤ writer.body.content.length)
    (other : i ≠ field.index.toNatClampNeg) :
    entry (writer.begun field).body.content i = entry writer.body.content i := by
  unfold begun
  dsimp only
  split
  · rfl
  · exact entry_patch_other inside other

/-- The entry of the field is that of the end of the body. -/
theorem entry_begun_self
    (inside : field.index.toNatClampNeg * 4 + 4 ≤ writer.body.content.length) :
    entry (writer.begun field).body.content field.index.toNatClampNeg =
      if writer.body.size < Wire.lengthLimit then Wire.int (Int32.ofNat writer.body.size)
      else entry writer.body.content field.index.toNatClampNeg := by
  unfold begun
  dsimp only
  by_cases small : writer.body.size < Wire.lengthLimit
  · rw [if_pos small, if_neg (Nat.not_le.mpr small), entry_patch_self inside]
  · rw [if_neg small, if_pos (Nat.not_lt.mp small)]

theorem Stands.begun (stands : writer.Stands definition)
    (inside : field.index.toNatClampNeg < definition.fields.length)
    (fresh : writer.written[field.index.toNatClampNeg]? ≠ some true) :
    (writer.begun field).Stands definition ∧ Keeps definition writer (writer.begun field) := by
  have index := stands.index_le inside
  obtain ⟨describes, marks, room, blank⟩ := stands
  refine ⟨⟨describes, ?_, ?_, ?_⟩, ?_, ?_, ?_⟩
  · rw [BodyWriter.begun, List.length_set, marks]
  · unfold BodyWriter.begun
    dsimp only
    split
    · exact room
    · rw [Output.size, length_patch index]
      exact room
  · intro i at_i unmarked
    have other : i ≠ field.index.toNatClampNeg := by
      rintro rfl
      apply unmarked
      rw [BodyWriter.begun, List.getElem?_set_self (by omega)]
    rw [BodyWriter.begun, List.getElem?_set_ne (Ne.symm other)] at unmarked
    rw [entry_begun_of_ne index other, blank i at_i unmarked]
  · intro i marked
    have other : i ≠ field.index.toNatClampNeg := by
      rintro rfl
      exact fresh marked
    rwa [BodyWriter.begun, List.getElem?_set_ne (Ne.symm other)]
  · intro i marked
    apply entry_begun_of_ne index
    rintro rfl
    exact fresh marked
  · unfold BodyWriter.begun
    dsimp only
    split
    · exact List.prefix_refl _
    · have behind : field.index.toNatClampNeg * 4 + 4 ≤ BodyReader.tableSize definition := by
        rw [BodyReader.tableSize]
        omega
      exact (drop_patch behind room).symm ▸ List.prefix_refl _

end BodyWriter

namespace Frame

variable {definition : ClassDefinition} {state : Open} {write : FieldWrite} {kind : FieldKind}
  {field : Field} {writer later : BodyWriter}

/-- A call whose field the writer does not begin changes nothing. -/
theorem perform_of_refused {failure : Failure} (call : write.kind? = some kind)
    (refused : state.writer.refusal? write.name kind = some failure) :
    perform write state = (.error failure, state) := by
  have begins : onWriter (BodyWriter.beginField write.name kind) state =
      (.error failure, state) := by
    rw [onWriter, Act.on_apply, BodyWriter.beginField_of_refused refused]
  rw [perform_begins call, Act.bind_of_error begins]

/-- A field that is admitted is begun, and only the size of the body may be refused. -/
theorem onWriter_beginField {name : String} (placed : definition.Placed)
    (stands : state.writer.Stands definition) (admits : state.writer.Admits name kind field) :
    onWriter (BodyWriter.beginField name kind) state =
      (if Wire.lengthLimit ≤ state.writer.body.size then .error .bodyTooLarge
       else .ok field.nested.classId, { state with writer := state.writer.begun field }) := by
  have index := stands.index_le (admits.inside placed stands.describes)
  rw [onWriter, Act.on_apply, BodyWriter.beginField_of_admits admits index]

/-- A call whose field the writer begins goes on behind that, whatever becomes of it. -/
theorem perform_of_admits (call : write.kind? = some kind) (placed : definition.Placed)
    (stands : state.writer.Stands definition) (admits : state.writer.Admits write.name kind field) :
    (state.writer.begun field).Lengthens (perform write state).2.writer := by
  have begins := onWriter_beginField placed stands admits
  rw [perform_begins call]
  split at begins
  · rw [Act.bind_of_error begins]
    exact Std.Refl.refl _
  · rw [Act.bind_of_ok begins]
    exact lengthens_onward write _ { state with writer := state.writer.begun field }

/-- A write keeps the marks and the table in order, and keeps what is begun. -/
theorem stands_perform (placed : definition.Placed) (write : FieldWrite)
    (stands : state.writer.Stands definition) :
    (perform write state).2.writer.Stands definition ∧
      BodyWriter.Keeps definition state.writer (perform write state).2.writer := by
  cases call : write.kind? with
  | none =>
    cases write <;> cases call
    exact ⟨stands, .refl _⟩
  | some kind =>
    cases refused : state.writer.refusal? write.name kind with
    | some failure =>
      rw [perform_of_refused call refused]
      exact ⟨stands, .refl _⟩
    | none =>
      obtain ⟨field, admits⟩ := BodyWriter.exists_admits refused
      have inside := admits.inside placed stands.describes
      obtain ⟨begun, kept⟩ := stands.begun inside admits.fresh
      have longer := perform_of_admits call placed stands admits
      obtain ⟨still, further⟩ := begun.lengthens longer
      exact ⟨still, kept.trans further⟩

end Frame

namespace BodyWriter

/-- Calls lead from one body to the other, failed ones included, whatever the context is at each
    of them. -/
inductive Calls : BodyWriter → BodyWriter → Prop
  | none (writer : BodyWriter) : Calls writer writer
  | call {writer : BodyWriter} {state : Frame.Open} (earlier : Calls writer state.writer)
      (write : FieldWrite) : Calls writer (Frame.perform write state).2.writer

variable {definition : ClassDefinition} {writer later : BodyWriter} {field : Field}
  {content : Bytes}

theorem Calls.stands (calls : writer.Calls later) (placed : definition.Placed)
    (stands : writer.Stands definition) :
    later.Stands definition ∧ Keeps definition writer later := by
  induction calls with
  | none => exact ⟨stands, .refl _⟩
  | call earlier write ih =>
    obtain ⟨before, kept⟩ := ih
    obtain ⟨after, further⟩ := Frame.stands_perform placed write before
    exact ⟨after, kept.trans further⟩

/-! Where fields are found. -/

/-- No position is taken for the mark of a field without an offset. -/
theorem ofNat_ne_unwritten {position : Nat} (small : position < Wire.lengthLimit) :
    Int32.ofNat position ≠ BodyReader.unwritten := by
  intro same
  have start : (Int32.ofNat position).toInt = position := Input.toInt_ofNat_of_lt small
  rw [same] at start
  have : BodyReader.unwritten.toInt = -1 := by decide
  omega

/-- A field is found where its entry says. -/
theorem seek_at (found : definition.field? field.name = some field) {position : Nat}
    (small : position < Wire.lengthLimit) (behind : BodyReader.tableSize definition ≤ position)
    (inside : position ≤ content.length)
    (at_position : entry content field.index.toNatClampNeg = Wire.int (Int32.ofNat position)) :
    BodyReader.seek ⟨definition, content⟩ field.name field.kind =
      .ok (some (.ofBytes (content.drop position))) := by
  have start : (Int32.ofNat position).toInt = position := Input.toInt_ofNat_of_lt small
  rw [BodyReader.seek, found]
  dsimp only
  rw [if_neg (by simp), offsetOf_of_entry at_position]
  show (if _ then _ else _) = _
  rw [if_neg (ofNat_ne_unwritten small), if_pos, Input.toNatClampNeg_ofNat small]
  · rfl
  · rw [start]
    simp
    omega

theorem seek_blank (found : definition.field? field.name = some field)
    (blank : entry content field.index.toNatClampNeg = Wire.int BodyReader.unwritten) :
    BodyReader.seek ⟨definition, content⟩ field.name field.kind = .ok none := by
  rw [BodyReader.seek, found]
  dsimp only
  rw [if_neg (by simp), offsetOf_of_entry blank]
  rfl

end BodyWriter

end ObjectWire
