import ObjectWire.Proofs.Portable.Context
import ObjectWire.Proofs.Portable.FieldData
import ObjectWire.Proofs.Portable.Objects
import ObjectWire.Proofs.Portable.Sheet

/-!
# The forms of frames

The bytes of an object as they follow from the definitions that are in use, stated apart from the
steps that write them: the object's writes come to a sheet, the sheet to a body, and the body stands
behind its length and the class and version of the definition.  As no definition is ever replaced, a
frame stays what it is while definitions are added.
-/

namespace ObjectWire

namespace FieldWrite

/-- The name of the field that is written. -/
def name : FieldWrite → String
  | data name _ | portable name _ | nullPortable name _ | portableArray name _ _ => name
  | fail _ => ""

/-- The kind of field that is written. -/
def kind? : FieldWrite → Option FieldKind
  | data _ value => some value.kind
  | portable .. | nullPortable .. => some .portable
  | portableArray .. => some .portableArray
  | fail _ => none

/-- The definition declares the field, with the kind and the class of what is written. -/
def Fits (write : FieldWrite) (definition : ClassDefinition) : Prop :=
  ∃ field, definition.field? write.name = some field ∧ write.kind? = some field.kind ∧
    ∀ p ∈ write.objects, field.nested.classId = p.classId

end FieldWrite

namespace Portable

/-- The object is the other one, or lies somewhere inside it. -/
inductive PartOf : Portable → Portable → Prop
  | whole (p : Portable) : PartOf p p
  | inside {p q r : Portable} (member : q ∈ p.objects) (part : PartOf r q) : PartOf r p

theorem PartOf.trans {p q r : Portable} (inner : PartOf r q) (outer : PartOf q p) : PartOf r p := by
  induction outer with
  | whole p => exact inner
  | inside member _ ih => exact .inside member (ih inner)

/-- What an object writes is declared by a definition, and no field is written twice. -/
structure Obeys (p : Portable) (definition : ClassDefinition) : Prop where
  fits : ∀ write ∈ p.writes, write.Fits definition
  once : (p.writes.map FieldWrite.name).Nodup

end Portable

namespace Wire

variable {α : Type} {form other : α → Option Bytes} {bytes : Bytes}

theorem optional_mono {held : Option α} (h : optional form held = some bytes)
    (each : ∀ item ∈ held, ∀ run, form item = some run → other item = some run) :
    optional other held = some bytes := by
  cases held with
  | none => exact h
  | some item =>
    obtain ⟨inner, formed, rfl⟩ := optional_some h
    rw [optional, each item rfl inner formed]
    rfl

theorem all_mono {items : List α} (h : all form items = some bytes)
    (each : ∀ item ∈ items, ∀ run, form item = some run → other item = some run) :
    all other items = some bytes := by
  induction items generalizing bytes with
  | nil => exact h
  | cons item items ih =>
    obtain ⟨first, others, formed, rest, rfl⟩ := all_cons h
    rw [all, each item (by simp) first formed,
      ih rest fun other member => each other (List.mem_cons_of_mem _ member)]
    rfl

theorem all_mem {items : List α} {item : α} (h : all form items = some bytes)
    (member : item ∈ items) : ∃ run, form item = some run := by
  induction items generalizing bytes with
  | nil => cases member
  | cons first items ih =>
    obtain ⟨run, others, formed, rest, rfl⟩ := all_cons h
    rcases List.mem_cons.mp member with rfl | among
    · exact ⟨run, formed⟩
    · exact ih rest among

theorem run_mono {items : List α} (h : run form items = some bytes)
    (each : ∀ item ∈ items, ∀ run, form item = some run → other item = some run) :
    run other items = some bytes := by
  obtain ⟨count, counted, h⟩ := Option.bind_eq_some_iff.mp h
  obtain ⟨inner, formed, h⟩ := Option.bind_eq_some_iff.mp h
  rw [run, counted, all_mono formed each]
  exact h

end Wire

/-- The sheet that fields with data come to. -/
def Sheet.ofData : List (String × FieldData) → Option Sheet
  | [] => some []
  | (name, data) :: fields => do return (name, ← data.form) :: (← ofData fields)

namespace PortableContext

/-- The frame of an object, from the sheet that its writes come to. -/
def enclose (context : PortableContext) (p : Portable) (sheet : Option Sheet) : Option Bytes := do
  let definition ← context.lookup (context.keyOf p)
  let content ← (Wire.byteArray ((← sheet).body definition)).toOption
  return Wire.classKey definition.key ++ content

mutual

/-- The frame of an object. -/
def frame (context : PortableContext) : Portable → Option Bytes
  | .scripted classId version writes key got =>
    enclose context (.scripted classId version writes key got) (sheet context writes)
  | .link classId behind => enclose context (.link classId behind) (some [])
  | .silent classId => enclose context (.silent classId) (some [])
  | .customer c => enclose context (.customer c) (Sheet.ofData c.fields)
termination_by structural p => p

/-- The sheet that writes come to. -/
def sheet (context : PortableContext) : List FieldWrite → Option Sheet
  | [] => some []
  | write :: writes => do return (write.name, ← span context write) :: (← sheet context writes)
termination_by structural writes => writes

/-- The data that a write puts into its field. -/
def span (context : PortableContext) : FieldWrite → Option Bytes
  | .data _ value => value.form
  | .portable _ none => some (Wire.bool false)
  | .portable _ (some p) => do return Wire.bool true ++ (← frame context p)
  | .nullPortable .. => some (Wire.bool false)
  | .portableArray _ _ none => some (Wire.bool false)
  | .portableArray _ _ (some items) => do
    let count ← (Wire.length .array items.length).toOption
    return Wire.bool true ++ (count ++ (← frames context items))
  | .fail _ => none
termination_by structural write => write

/-- The frames of objects, one after the other. -/
def frames (context : PortableContext) : List Portable → Option Bytes
  | [] => some []
  | p :: items => do return (← frame context p) ++ (← frames context items)
termination_by structural items => items

end

variable {context now : PortableContext} {run : Bytes}

theorem frames_eq (context : PortableContext) (items : List Portable) :
    context.frames items = Wire.all context.frame items := by
  induction items with
  | nil => rfl
  | cons p items ih => rw [frames, Wire.all, ih]

theorem span_portable (context : PortableContext) (name : String) (value : Option Portable) :
    context.span (.portable name value) = Wire.optional context.frame value := by
  cases value <;> rfl

theorem span_portableArray (context : PortableContext) (name : String) (classId : Int32)
    (items : Option (List Portable)) :
    context.span (.portableArray name classId items) =
      Wire.optional (Wire.run context.frame) items := by
  cases items with
  | none => rfl
  | some items =>
    rw [span, Wire.optional, Wire.run, ← frames_eq]
    cases (Wire.length .array items.length).toOption <;> cases context.frames items <;> rfl

theorem sheet_data (context : PortableContext) (fields : List (String × FieldData)) :
    context.sheet (fields.map fun (name, data) => .data name data) = Sheet.ofData fields := by
  induction fields with
  | nil => rfl
  | cons field fields ih =>
    rw [List.map_cons, sheet, ih]
    rfl

/-- Every object is framed by the sheet that its writes come to. -/
theorem frame_eq (context : PortableContext) (p : Portable) :
    context.frame p = context.enclose p (context.sheet p.writes) := by
  cases p with
  | scripted classId version writes key got => rfl
  | link classId behind => rfl
  | silent classId => rfl
  | customer c =>
    rw [frame, Portable.writes, sheet_data]

theorem sheet_cons {write : FieldWrite} {writes : List FieldWrite} {sheet : Sheet}
    (h : context.sheet (write :: writes) = some sheet) :
    ∃ run more, context.span write = some run ∧ context.sheet writes = some more ∧
      sheet = (write.name, run) :: more := by
  obtain ⟨run, first, h⟩ := Option.bind_eq_some_iff.mp h
  obtain ⟨more, rest, h⟩ := Option.bind_eq_some_iff.mp h
  cases h
  exact ⟨run, more, first, rest, rfl⟩

theorem names_of_sheet {writes : List FieldWrite} {sheet : Sheet}
    (h : context.sheet writes = some sheet) : sheet.names = writes.map FieldWrite.name := by
  induction writes generalizing sheet with
  | nil => cases h; rfl
  | cons write writes ih =>
    obtain ⟨run, more, -, rest, rfl⟩ := sheet_cons h
    rw [List.map_cons, ← ih rest]
    rfl

theorem frame_some {p : Portable} (h : context.frame p = some run) :
    ∃ definition sheet content, context.lookup (context.keyOf p) = some definition ∧
      context.sheet p.writes = some sheet ∧
      Wire.byteArray (sheet.body definition) = .ok content ∧
      run = Wire.classKey definition.key ++ content := by
  rw [frame_eq] at h
  obtain ⟨definition, found, h⟩ := Option.bind_eq_some_iff.mp h
  obtain ⟨sheet, written, h⟩ := Option.bind_eq_some_iff.mp h
  obtain ⟨content, small, h⟩ := Option.bind_eq_some_iff.mp h
  cases h
  exact ⟨definition, sheet, content, found, written, Act.settled_of_toOption small, rfl⟩

theorem frame_of_sheet {p : Portable} {definition : ClassDefinition} {sheet : Sheet}
    (found : context.lookup (context.keyOf p) = some definition)
    (written : context.sheet p.writes = some sheet) :
    context.frame p = do
      return Wire.classKey definition.key ++
        (← (Wire.byteArray (sheet.body definition)).toOption) := by
  rw [frame_eq, enclose, found, written]
  rfl

/-! An object has a frame only if the objects inside it have frames. -/

theorem span_of_mem {writes : List FieldWrite} {write : FieldWrite} {sheet : Sheet}
    (h : context.sheet writes = some sheet) (member : write ∈ writes) :
    ∃ run, context.span write = some run := by
  induction writes generalizing sheet with
  | nil => cases member
  | cons first writes ih =>
    obtain ⟨run, more, spanned, rest, rfl⟩ := sheet_cons h
    rcases List.mem_cons.mp member with rfl | among
    · exact ⟨run, spanned⟩
    · exact ih rest among

theorem frame_of_mem_span {write : FieldWrite} {q : Portable} (h : context.span write = some run)
    (member : q ∈ write.objects) : ∃ bytes, context.frame q = some bytes := by
  unfold FieldWrite.objects at member
  split at member
  case h_1 name p =>
    obtain rfl := List.mem_singleton.mp member
    rw [span_portable] at h
    obtain ⟨bytes, framed, -⟩ := Wire.optional_some h
    exact ⟨bytes, framed⟩
  case h_2 name classId items =>
    rw [span_portableArray] at h
    obtain ⟨bytes, counted, -⟩ := Wire.optional_some h
    obtain ⟨-, inner, framed, -⟩ := Wire.run_some counted
    exact Wire.all_mem framed member
  case h_3 => cases member

theorem frame_of_part {p q : Portable} (part : q.PartOf p) (h : context.frame p = some run) :
    ∃ bytes, context.frame q = some bytes := by
  induction part generalizing run with
  | whole p => exact ⟨run, h⟩
  | inside member _ ih =>
    obtain ⟨definition, sheet, content, found, written, -, -⟩ := frame_some h
    obtain ⟨write, among, inner⟩ := List.mem_flatMap.mp member
    obtain ⟨bytes, spanned⟩ := span_of_mem written among
    obtain ⟨bytes, framed⟩ := frame_of_mem_span spanned inner
    exact ih framed

/-! Frames stay what they are. -/

theorem keyOf_of_evolves (h : context.Evolves now) (p : Portable) :
    now.keyOf p = context.keyOf p := by
  rw [keyOf, keyOf, h.version]

theorem span_mono {write : FieldWrite} (h : context.span write = some run)
    (inside : ∀ q ∈ write.objects, ∀ run, context.frame q = some run → now.frame q = some run) :
    now.span write = some run := by
  cases write with
  | data name value => exact h
  | portable name value =>
    rw [span_portable] at h ⊢
    apply Wire.optional_mono h
    intro q held
    cases held
    exact inside q (by simp [FieldWrite.objects])
  | nullPortable name classId => exact h
  | portableArray name classId items =>
    rw [span_portableArray] at h ⊢
    apply Wire.optional_mono h
    intro items held run framed
    cases held
    exact Wire.run_mono framed inside
  | fail text => exact h

theorem sheet_mono {writes : List FieldWrite} {sheet : Sheet}
    (h : context.sheet writes = some sheet)
    (inside : ∀ write ∈ writes, ∀ q ∈ write.objects, ∀ run,
      context.frame q = some run → now.frame q = some run) :
    now.sheet writes = some sheet := by
  induction writes generalizing sheet with
  | nil => exact h
  | cons write writes ih =>
    obtain ⟨run, more, first, rest, rfl⟩ := sheet_cons h
    rw [PortableContext.sheet, span_mono first (inside write (by simp)),
      ih rest fun other member => inside other (List.mem_cons_of_mem _ member)]
    rfl

theorem Evolves.frame (evolved : context.Evolves now) (p : Portable) :
    ∀ run, context.frame p = some run → now.frame p = some run := by
  induction p using Portable.induction with
  | step p ih =>
    intro run h
    obtain ⟨definition, sheet, content, found, written, sized, rfl⟩ := frame_some h
    have still : now.lookup (now.keyOf p) = some definition := by
      rw [keyOf_of_evolves evolved]
      exact evolved.lookup found
    have same : now.sheet p.writes = some sheet :=
      sheet_mono written fun write member q among =>
        ih q (List.mem_flatMap.mpr ⟨write, member, among⟩)
    rw [frame_of_sheet still same, sized]
    rfl

theorem Evolves.sheet (evolved : context.Evolves now) {writes : List FieldWrite} {sheet : Sheet}
    (h : context.sheet writes = some sheet) : now.sheet writes = some sheet :=
  sheet_mono h fun _ _ q _ => evolved.frame q

/-- Every part of an object has its definition, and obeys it. -/
def Covers (context : PortableContext) (p : Portable) : Prop :=
  ∀ q, q.PartOf p → ∃ definition,
    context.lookup (context.keyOf q) = some definition ∧ q.Obeys definition

theorem Covers.part {p q : Portable} (covers : context.Covers p) (part : q.PartOf p) :
    context.Covers q :=
  fun r inside => covers r (inside.trans part)

/-- The frame of an object that is covered, taken apart. -/
theorem Covers.body {p : Portable} (covers : context.Covers p)
    (framed : context.frame p = some run) :
    ∃ definition sheet content, context.lookup (context.keyOf p) = some definition ∧
      p.Obeys definition ∧ context.sheet p.writes = some sheet ∧
      Wire.byteArray (sheet.body definition) = .ok content ∧
      run = Wire.classKey definition.key ++ content := by
  obtain ⟨definition, sheet, content, found, written, sized, rfl⟩ := frame_some framed
  obtain ⟨known, same, obeys⟩ := covers p (.whole p)
  cases found.symm.trans same
  exact ⟨definition, sheet, content, found, obeys, written, sized, rfl⟩

theorem Evolves.covers (evolved : context.Evolves now) {p : Portable} (h : context.Covers p) :
    now.Covers p := by
  intro q part
  obtain ⟨definition, found, obeys⟩ := h q part
  refine ⟨definition, ?_, obeys⟩
  rw [keyOf_of_evolves evolved]
  exact evolved.lookup found

end PortableContext

end ObjectWire
