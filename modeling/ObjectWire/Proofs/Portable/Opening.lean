import ObjectWire.Proofs.ClassDefinition.LayoutRoundTrip
import ObjectWire.Proofs.Portable.Form
import ObjectWire.Proofs.Portable.Seeking

/-!
# Opening frames

Let blank objects of each class perform planned reads.  What then comes out of the frame of an
object is its image: every read of a field gives what the object wrote there, and every read of a
field that it did not write gives the default.
-/

namespace ObjectWire

/-- The read asks for a field by the kind it is declared with, or for an undeclared one, or about
    the class. -/
def FieldRead.Apt (definition : ClassDefinition) : FieldRead → Prop
  | .field kind name => ∀ field, definition.field? name = some field → field.kind = kind
  | .version | .has _ | .kindOf _ => True
  | .objectIn .. | .objectsIn .. | .fail _ => False

instance FieldRead.decidableApt (definition : ClassDefinition) :
    (r : FieldRead) → Decidable (r.Apt definition)
  | .field kind name =>
    inferInstanceAs (Decidable (∀ field ∈ definition.field? name, field.kind = kind))
  | .version | .has _ | .kindOf _ => .isTrue trivial
  | .objectIn .. | .objectsIn .. | .fail _ => .isFalse id

/-- What an apt read gives, from what the fields hold. -/
def FieldRead.answer (definition : ClassDefinition) (held : List (String × FieldResult)) :
    FieldRead → FieldResult
  | .field kind name => (held.lookup name).getD (.absent kind)
  | .version => .version definition.version
  | .has name => .has (definition.hasField name)
  | .kindOf name => .kindOf ((definition.field? name).map Field.kind)
  | .objectIn .. | .objectsIn .. | .fail _ => .kindOf none

namespace FieldRead

variable {known definition : ClassDefinition} {r : FieldRead}

/-- Whether a read is apt depends on what the definition says only. -/
theorem Apt.of_same (apt : r.Apt definition) (same : known.same definition = true) :
    r.Apt known := by
  have fields := ClassDefinition.fields_eq_of_same same
  cases r with
  | field kind name =>
    intro field found
    rw [ClassDefinition.field?, fields] at found
    exact apt field found
  | version | has name | kindOf name => trivial
  | objectIn name sort typeName | objectsIn name sort typeName | fail text => exact apt

/-- What a read gives depends on what the definition says only. -/
theorem answer_of_same (same : known.same definition = true)
    (held : List (String × FieldResult)) : r.answer known held = r.answer definition held := by
  have key := ClassDefinition.key_eq_of_same same
  have fields := ClassDefinition.fields_eq_of_same same
  cases r <;>
    simp only [answer, ClassDefinition.version, ClassDefinition.hasField, ClassDefinition.field?,
      key, fields]

end FieldRead

namespace PortableContext

/-- The object is written by what the definition says. -/
def Uses (context : PortableContext) (p : Portable) (definition : ClassDefinition) : Prop :=
  (context.lookup (context.keyOf p)).any (·.same definition) = true

instance (context : PortableContext) (p : Portable) (definition : ClassDefinition) :
    Decidable (context.Uses p definition) := inferInstanceAs (Decidable (_ = true))

variable (context : PortableContext) (plan : Int32 → List FieldRead)

/-- An object of the same class that has performed the planned reads. -/
def decoded (p : Portable) (held : List (String × FieldResult)) : Portable :=
  .scripted p.classId none [] none <|
    match context.lookup (context.keyOf p) with
    | some definition => (plan p.classId).map (FieldRead.answer definition held)
    | none => []

mutual

/-- What comes out of the frame of an object. -/
def image : Portable → Portable
  | .scripted classId version writes key got =>
    decoded context plan (.scripted classId version writes key got) (held writes)
  | .link classId behind => decoded context plan (.link classId behind) []
  | .silent classId => decoded context plan (.silent classId) []
  | .customer c =>
    decoded context plan (.customer c) (c.fields.map fun (name, data) => (name, .data data))
termination_by structural p => p

/-- What the fields hold after writes. -/
def held : List FieldWrite → List (String × FieldResult)
  | [] => []
  | write :: writes => (write.name, value write) :: held writes
termination_by structural writes => writes

/-- What a field holds after a write. -/
def value : FieldWrite → FieldResult
  | .data _ data => .data data
  | .portable _ none => .portable none
  | .portable _ (some p) => .portable (some (image p))
  | .nullPortable .. => .portable none
  | .portableArray _ _ none => .portableArray none
  | .portableArray _ _ (some items) => .portableArray (some (images items))
  | .fail _ => .kindOf none
termination_by structural write => write

/-- What comes out of the frames of objects. -/
def images : List Portable → List Portable
  | [] => []
  | p :: items => image p :: images items
termination_by structural items => items

end

theorem images_eq (items : List Portable) :
    images context plan items = items.map (image context plan) := by
  induction items with
  | nil => rfl
  | cons p items ih => rw [images, ih, List.map_cons]

theorem held_eq (writes : List FieldWrite) :
    held context plan writes = writes.map fun write => (write.name, value context plan write) := by
  induction writes with
  | nil => rfl
  | cons write writes ih => rw [held, ih, List.map_cons]

theorem image_eq (p : Portable) :
    image context plan p = decoded context plan p (held context plan p.writes) := by
  cases p with
  | scripted classId version writes key got => rfl
  | link classId behind => rfl
  | silent classId => rfl
  | customer c =>
    rw [image, held_eq, Portable.writes, List.map_map]
    rfl

/-- What comes out of the frame of an object that is written by a definition. -/
theorem image_of_uses {context : PortableContext} {p : Portable} {definition : ClassDefinition}
    (uses : context.Uses p definition) :
    image context plan p = .scripted p.classId none [] none
      ((plan p.classId).map (FieldRead.answer definition (held context plan p.writes))) := by
  obtain ⟨known, found, same⟩ := (Option.any_eq_true _ _).mp uses
  rw [image_eq, decoded, found]
  exact congrArg _ (List.map_congr_left fun r _ => FieldRead.answer_of_same same _)

@[simp] theorem classId_image (p : Portable) : (image context plan p).classId = p.classId := by
  rw [image_eq]
  rfl

theorem value_portable (name : String) (p : Option Portable) :
    value context plan (.portable name p) = .portable (p.map (image context plan)) := by
  cases p <;> rfl

theorem value_portableArray (name : String) (classId : Int32) (items : Option (List Portable)) :
    value context plan (.portableArray name classId items) =
      .portableArray (items.map fun items => items.map (image context plan)) := by
  cases items with
  | none => rfl
  | some items => rw [value, images_eq]; rfl

variable {context : PortableContext} {plan : Int32 → List FieldRead}

theorem held_of_mem {writes : List FieldWrite} {write : FieldWrite} (member : write ∈ writes)
    (once : (writes.map FieldWrite.name).Nodup) :
    (held context plan writes).lookup write.name = some (value context plan write) := by
  rw [held_eq]
  refine Keyed.lookup_of_mem ?_ (List.mem_map_of_mem member)
  rwa [List.map_map]

theorem held_of_not_mem {writes : List FieldWrite} {name : String}
    (absent : name ∉ writes.map FieldWrite.name) :
    (held context plan writes).lookup name = none := by
  rw [held_eq, List.lookup_eq_none_iff]
  intro entry member
  obtain ⟨write, among, rfl⟩ := List.mem_map.mp member
  rw [bne_iff_ne]
  rintro rfl
  exact absent (List.mem_map_of_mem among)

/-- The entry of a write in the sheet that the writes come to. -/
theorem sheet_of_mem {writes : List FieldWrite} {write : FieldWrite} {sheet : Sheet}
    (written : context.sheet writes = some sheet) (member : write ∈ writes)
    (once : (writes.map FieldWrite.name).Nodup) :
    ∃ (front : Sheet) (run : Bytes) (back : Sheet), sheet = front ++ (write.name, run) :: back ∧
      write.name ∉ front.names ∧ context.span write = some run := by
  induction writes generalizing sheet with
  | nil => cases member
  | cons first writes ih =>
    obtain ⟨run, more, spanned, rest, rfl⟩ := sheet_cons written
    obtain ⟨new, others⟩ := List.nodup_cons.mp once
    rcases List.mem_cons.mp member with rfl | among
    · exact ⟨[], run, more, rfl, nofun, spanned⟩
    · obtain ⟨front, bytes, back, rfl, absent, found⟩ := ih rest among others
      refine ⟨(first.name, run) :: front, bytes, back, rfl, ?_, found⟩
      rw [Sheet.names, List.map_cons, List.mem_cons, not_or]
      refine ⟨fun same => new ?_, absent⟩
      rw [← show write.name = first.name from same]
      exact List.mem_map_of_mem among

end PortableContext

namespace Frame

open PortableContext (image value held)

variable {context : PortableContext} {plan : Int32 → List FieldRead} {item : Act Input Portable}

theorem takes_readData {write : FieldWrite} {kind : FieldKind} {run : Bytes} (name : String)
    (written : context.span write = some run) (ofKind : write.kind? = some kind)
    (each : ∀ q ∈ write.objects, ∀ bytes, context.frame q = some bytes →
      Input.Takes item bytes (image context plan q)) :
    Input.Takes (readData item name kind) run (value context plan write) := by
  cases write with
  | data field data =>
    cases ofKind
    cases data with
    | scalar kind scalar =>
      exact (ScalarKind.takes_decode (Act.settled_of_toOption written)).map _
    | text s =>
      have strings : ∀ s' ∈ s, ∀ run, (Wire.string s').toOption = some run →
          Input.Takes Input.string run (id s') :=
        fun _ _ _ formed => Input.takes_string (Act.settled_of_toOption formed)
      exact (Input.takes_present written strings).map_eq (by rw [Option.map_id]; rfl)
    | array kind items =>
      refine (Input.takes_presentRun name written fun item run formed => ?_).map _
      exact ScalarKind.takes_decode (Act.settled_of_toOption formed)
    | textArray items =>
      refine (Input.takes_presentRun name written fun s run formed => ?_).map _
      exact Input.takes_string (Act.settled_of_toOption formed)
  | portable field p =>
    cases ofKind
    rw [PortableContext.span_portable] at written
    rw [PortableContext.value_portable]
    refine (Input.takes_present written fun q held => ?_).map _
    cases held
    exact each q (by simp [FieldWrite.objects])
  | nullPortable field classId =>
    cases ofKind
    cases written
    exact ((Input.takes_bool false).bind_nil (Input.takes_pure none)).map _
  | portableArray field classId items =>
    cases ofKind
    rw [PortableContext.span_portableArray] at written
    rw [PortableContext.value_portableArray]
    refine (Input.takes_present written fun objects held run formed => ?_).map _
    cases held
    exact Input.takes_counted name formed each
  | fail text => cases ofKind

theorem checkDecoded_of_declared {reader : BodyReader} {name : String} {field : Field}
    {p : Portable} (found : reader.definition.field? name = some field)
    (same : field.nested.classId = p.classId) : checkDecoded reader name p = .ok p := by
  rw [checkDecoded, found]
  simp [same]

/-- In the body of an object every apt read gives what the object's writes say. -/
theorem read_apt {nested : Act Input Portable} {definition : ClassDefinition} {p : Portable}
    {sheet : Sheet} (wellFormed : definition.WellFormed) (obeys : p.Obeys definition)
    (written : context.sheet p.writes = some sheet)
    (small : (sheet.body definition).length < Wire.lengthLimit)
    (each : ∀ q ∈ p.objects, ∀ bytes, context.frame q = some bytes →
      Input.Takes nested bytes (image context plan q))
    {r : FieldRead} (apt : r.Apt definition) :
    read nested ⟨definition, sheet.body definition⟩ r =
      .ok (r.answer definition (held context plan p.writes)) := by
  cases r with
  | field kind name =>
    by_cases among : name ∈ p.writes.map FieldWrite.name
    · obtain ⟨write, member, rfl⟩ := List.mem_map.mp among
      obtain ⟨field, found, ofKind, declared⟩ := obeys.fits write member
      obtain rfl := apt field found
      obtain ⟨front, run, back, split, absent, spanned⟩ :=
        PortableContext.sheet_of_mem written member obeys.once
      rw [read_field_of_some (BodyReader.seek_written wellFormed found split absent small),
        FieldRead.answer, PortableContext.held_of_mem member obeys.once]
      have inner : ∀ q ∈ write.objects, ∀ bytes, context.frame q = some bytes →
          Input.Takes (checked nested
            (checkDecoded ⟨definition, sheet.body definition⟩ write.name)) bytes
            (image context plan q) := by
        intro q inside bytes framed
        refine (each q (List.mem_flatMap.mpr ⟨write, member, inside⟩) bytes framed).bind_nil ?_
        refine Input.takes_lift (checkDecoded_of_declared found ?_)
        rw [PortableContext.classId_image]
        exact declared q inside
      have taken := takes_readData write.name spanned ofKind inner
      exact congrArg Prod.fst (taken back.data 0)
    · rw [FieldRead.answer, PortableContext.held_of_not_mem among]
      apply read_field_of_none
      cases found : definition.field? name with
      | none => exact BodyReader.seek_undeclared found
      | some field =>
        obtain rfl := apt field found
        rw [← PortableContext.names_of_sheet written] at among
        exact BodyReader.seek_unwritten wellFormed found among
  | objectIn name sort typeName => cases apt
  | objectsIn name sort typeName => cases apt
  | version => rfl
  | has name => rfl
  | kindOf name => rfl
  | fail text => cases apt

/-- Reading a body makes no difference between definitions that say the same. -/
theorem read_of_same {nested : Act Input Portable} {known definition : ClassDefinition}
    (same : known.same definition = true) (body : Bytes) (r : FieldRead) :
    read nested ⟨known, body⟩ r = read nested ⟨definition, body⟩ r := by
  have key := ClassDefinition.key_eq_of_same same
  have fields := ClassDefinition.fields_eq_of_same same
  obtain ⟨_, _, _, _⟩ := known
  obtain ⟨_, _, _, _⟩ := definition
  cases key
  cases fields
  cases r with
  | field kind name => cases kind <;> rfl
  | _ => rfl

/-- The source has the definition that every part of an object is written by. -/
def Source.Knows (source : Source) (context : PortableContext) (p : Portable) : Prop :=
  ∀ q : Portable, q.PartOf p → ∀ definition, context.lookup (context.keyOf q) = some definition →
    ∃ known, source.context.lookup definition.key = some known ∧ known.same definition = true

/-- For the class of every part of an object the source makes a blank object of the class that
    performs planned reads, all of them apt. -/
structure Source.Ready (source : Source) (context : PortableContext)
    (plan : Int32 → List FieldRead) (p : Portable) : Prop where
  makes : ∀ q : Portable, q.PartOf p →
    source.create q.classId = .ok (.scripted q.classId (plan q.classId))
  apt : ∀ q : Portable, q.PartOf p → ∀ definition,
    context.lookup (context.keyOf q) = some definition → ∀ r ∈ plan q.classId, r.Apt definition

theorem Source.Knows.part {source : Source} {p q : Portable} (knows : source.Knows context p)
    (part : q.PartOf p) : source.Knows context q :=
  fun r inside => knows r (inside.trans part)

/-- A sound context has the definitions that the parts of an object are written by in it. -/
theorem Source.knows_of_sound (sound : context.Sound) (factory : Option PortableFactory)
    (p : Portable) : Source.Knows ⟨context, factory⟩ context p := by
  intro q part definition found
  refine ⟨definition, ?_, ClassDefinition.same_refl definition⟩
  rw [sound.filed _ _ found]
  exact found

theorem Source.Ready.part {source : Source} {p q : Portable} (ready : source.Ready context plan p)
    (part : q.PartOf p) : source.Ready context plan q :=
  ⟨fun r inside => ready.makes r (inside.trans part),
    fun r inside => ready.apt r (inside.trans part)⟩

/-- A source is ready for an object that it makes and whose definition the planned reads are apt
    for, if it is ready for the objects in it. -/
theorem Source.ready_of_uses {source : Source} {p : Portable} {definition : ClassDefinition}
    (makes : source.create p.classId = .ok (.scripted p.classId (plan p.classId)))
    (uses : context.Uses p definition) (apt : ∀ r ∈ plan p.classId, r.Apt definition)
    (inner : ∀ q ∈ p.objects, source.Ready context plan q) : source.Ready context plan p := by
  obtain ⟨known, found, same⟩ := (Option.any_eq_true _ _).mp uses
  refine ⟨fun q part => ?_, fun q part written lookedUp r member => ?_⟩
  · cases part with
    | whole => exact makes
    | inside among part => exact (inner _ among).makes q part
  · cases part with
    | whole =>
      rw [found] at lookedUp
      cases lookedUp
      exact (apt r member).of_same same
    | inside among part => exact (inner _ among).apt q part written lookedUp r member

/-- The frame of an object is read from the front of any input, and yields the object's image. -/
theorem takes_openWithin {source : Source} {p : Portable} {levels : Nat} {run : Bytes}
    (sound : context.Sound) (covers : context.Covers p) (knows : source.Knows context p)
    (ready : source.Ready context plan p) (deep : p.depth < levels)
    (framed : context.frame p = some run) :
    Input.Takes (openWithin source levels) run (image context plan p) := by
  induction levels generalizing p run with
  | zero => omega
  | succ levels ih =>
    obtain ⟨definition, sheet, content, found, obeys, written, sized, rfl⟩ := covers.body framed
    obtain ⟨known, lookedUp, same⟩ := knows p (.whole p) definition found
    have created := ready.makes p (.whole p)
    have key : definition.key.classId = p.classId := by rw [sound.filed _ _ found]; rfl
    have small := (Input.byteArray_ok sized).1
    obtain ⟨length, counted, rfl⟩ := Act.settled_map_ok sized
    apply (Input.takes_classKey definition.key).bind
    apply (Input.takes_length counted).bind
    apply (Input.takes_bytes (sheet.body definition)).bind_nil
    rw [lookedUp]
    apply Input.takes_lift
    have room : ¬ (sheet.body definition).length < BodyReader.tableSize known := by
      rw [Sheet.length_body, BodyReader.tableSize, BodyReader.tableSize,
        ClassDefinition.fields_eq_of_same same]
      omega
    rw [key, created, BodyReader.start, if_neg room]
    have each : ∀ q ∈ p.objects, ∀ bytes, context.frame q = some bytes →
        Input.Takes (openWithin source levels) bytes (image context plan q) := by
      intro q member bytes framed
      have shallower := Portable.depth_lt_of_mem_objects member
      have part : q.PartOf p := .inside member (.whole q)
      exact ih (covers.part part) (knows.part part) (ready.part part) (by omega) framed
    have reads : (plan p.classId).mapM
        (read (openWithin source levels) ⟨known, sheet.body definition⟩) =
        .ok ((plan p.classId).map (FieldRead.answer definition (held context plan p.writes))) := by
      apply Act.settled_mapM
      intro r member
      rw [read_of_same same]
      exact read_apt (sound.wellFormed _ _ found) obeys written small each
        (ready.apt p (.whole p) definition found r member)
    rw [PortableContext.image_eq, PortableContext.decoded, found]
    show (do let got ← (plan p.classId).mapM
              (read (openWithin source levels) ⟨known, sheet.body definition⟩)
             pure (Portable.scripted p.classId none [] none got) : Except Failure Portable) = _
    rw [reads]
    rfl

end Frame

end ObjectWire
