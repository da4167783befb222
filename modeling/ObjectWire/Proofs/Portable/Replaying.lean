import Mathlib.Data.List.Induction
import ObjectWire.Proofs.Portable.Calls
import ObjectWire.Proofs.Portable.Recording

/-!
# Writing by one's own description

An object that is described for the first time is then written by the very writes that described it.
The fields were recorded in the order of the writes, so each write finds its field with the right
kind and class, and not begun by any write before it.  What still may go wrong lies in the data, in
the objects inside, or in the items of an array behind the first one; and if nothing does, every
field of the class has been written.
-/

namespace ObjectWire

/-- A failure of something that has no wire form. -/
inductive Failure.Unwritable : Failure → Prop
  | charTooWide (c : Char) : Unwritable (.charTooWide c)
  | tooLong (of : Counted) (n : Nat) : Unwritable (.tooLong of n)

theorem Wire.unwritable_length {of : Counted} {n : Nat} {failure : Failure}
    (h : length of n = .error failure) : failure.Unwritable := by
  unfold length at h
  split at h
  · cases h
  · cases h
    exact .tooLong of n

theorem Wire.unwritable_string {s : String} {failure : Failure}
    (h : string s = .error failure) : failure.Unwritable := by
  unfold string at h
  cases counted : length .string (Utf8.width s) with
  | ok run => rw [counted] at h; cases h
  | error refused =>
    rw [counted] at h
    cases h
    exact unwritable_length counted

theorem Wire.unwritable_byteArray {run : Bytes} {failure : Failure}
    (h : byteArray run = .error failure) : failure.Unwritable := by
  unfold byteArray at h
  cases counted : length .byteArray run.length with
  | ok run => rw [counted] at h; cases h
  | error refused =>
    rw [counted] at h
    cases h
    exact unwritable_length counted

theorem ScalarKind.unwritable_encode {kind : ScalarKind} {item : kind.Item} {failure : Failure}
    (h : kind.encode item = .error failure) : failure.Unwritable := by
  cases kind with
  | char =>
    have h : encode.encodeChar item = .error failure := h
    unfold encode.encodeChar at h
    split at h
    · cases h
    · cases h
      exact .charTooWide item
  | _ => cases h

namespace Output

variable {allowed : Failure → Prop}

theorem failsOnly_write (run : Bytes) : (write run).FailsOnly allowed := by
  intro output failure final ran
  cases ran

theorem failsOnly_writeItem {item : Except Failure Bytes}
    (h : ∀ failure, item = .error failure → allowed failure) :
    (writeItem item).FailsOnly allowed :=
  (Act.failsOnly_lift h).bind fun run => failsOnly_write run

theorem failsOnly_writeRun {α : Type} {encode : α → Except Failure Bytes}
    (h : ∀ item failure, encode item = .error failure → failure.Unwritable)
    (items : Option (List α)) :
    (FieldData.writeRun encode items).FailsOnly Failure.Unwritable := by
  cases items with
  | none => exact failsOnly_write _
  | some items =>
    refine (failsOnly_write _).bind fun _ => ?_
    refine (failsOnly_writeItem fun _ => Wire.unwritable_length).bind fun _ => ?_
    exact Act.failsOnly_forEach fun item _ => failsOnly_writeItem (h item)

/-- Data fail to be written only because they have no wire form. -/
theorem failsOnly_data (data : FieldData) : data.write.FailsOnly Failure.Unwritable := by
  cases data with
  | scalar kind item => exact failsOnly_writeItem fun _ => ScalarKind.unwritable_encode
  | text s =>
    cases s with
    | none => exact failsOnly_write _
    | some s =>
      have written : (writeItem (Wire.string s)).FailsOnly Failure.Unwritable :=
        failsOnly_writeItem fun _ => Wire.unwritable_string
      exact (failsOnly_write _).bind fun _ => written
  | array kind items => exact failsOnly_writeRun (fun _ _ => ScalarKind.unwritable_encode) items
  | textArray items => exact failsOnly_writeRun (fun _ _ => Wire.unwritable_string) items

end Output

namespace Frame

/-- Makes the frames of objects, one after the other. -/
def closeAll (items : List Portable) : Act PortableContext Unit :=
  Act.forEach (fun q => do
    let _ ← close q) items

/-- What may go wrong with a write that comes to a context, although its field is declared as it is
    written and is not begun: the body or the data are too large, an item of an array is of another
    class, or an object inside cannot be framed after those in front of it were. -/
inductive Fault (context : PortableContext) : FieldWrite → Failure → Prop
  | bodyTooLarge (write : FieldWrite) : Fault context write .bodyTooLarge
  | unwritable {failure : Failure} (write : FieldWrite) (h : failure.Unwritable) :
      Fault context write failure
  | item {name : String} {classId : Int32} {items : List Portable} {q : Portable}
      (member : q ∈ items) (other : q.classId ≠ classId) :
      Fault context (.portableArray name classId (some items)) (.holdsClass name classId q.classId)
  | inside {write : FieldWrite} {front back : List Portable} {q : Portable}
      {reached : PortableContext} {failure : Failure} (parts : write.objects = front ++ q :: back)
      (passed : closeAll front context = (.ok (), reached))
      (refused : (close q reached).1 = .error failure) : Fault context write failure

/-- The step leaves the context alone, and fails for faults of the write only. -/
def Blames {α : Type} (context : PortableContext) (write : FieldWrite) (step : Act Open α) : Prop :=
  ∀ state : Open, Act.Ends step state (fun _ next => next.context = state.context)
    fun failure _ => Fault context write failure

variable {context : PortableContext} {write : FieldWrite} {name : String}
  {declared classId : Int32} {state : Open}

theorem Blames.bind {α β : Type} {step : Act Open α} {next : α → Act Open β}
    (first : Blames context write step) (rest : ∀ value, Blames context write (next value)) :
    Blames context write (step >>= next) := by
  intro state
  apply (first state).bind
  intro value reached same
  exact (rest value reached).mono (fun _ _ still => still.trans same) fun _ _ => id

theorem blames_pure {α : Type} (value : α) : Blames context write (pure value) :=
  fun _ => Act.ends_of_ok rfl rfl

theorem blames_onWriter {α : Type} {step : Act BodyWriter α}
    (h : step.FailsOnly (Fault context write)) : Blames context write (onWriter step) := by
  intro state
  rcases ran : step state.writer with ⟨failure | value, writer⟩
  · have failed : onWriter step state = (.error failure, { state with writer := writer }) := by
      rw [onWriter, Act.on_apply, ran]
    exact Act.ends_of_error failed (h state.writer failure writer ran)
  · have passed : onWriter step state = (.ok value, { state with writer := writer }) := by
      rw [onWriter, Act.on_apply, ran]
    exact Act.ends_of_ok passed rfl

theorem blames_onBody {step : Act Output Unit} (h : step.FailsOnly (Fault context write)) :
    Blames context write (onWriter (BodyWriter.onBody step)) :=
  blames_onWriter (Act.FailsOnly.on h)

theorem blames_put (run : Bytes) : Blames context write (put run) :=
  blames_onBody (Output.failsOnly_write run)

theorem blames_checkClass (same : declared = classId) :
    Blames context write (onWriter (BodyWriter.checkClass name declared classId)) := by
  rw [BodyWriter.checkClass, if_pos same]
  exact blames_onWriter (Act.failsOnly_pure ())

theorem blames_checkClasses {items among : List Portable} (members : ∀ q ∈ among, q ∈ items) :
    Blames context (.portableArray name classId (some items)) (checkClasses name classId among) := by
  induction among with
  | nil => exact blames_pure ()
  | cons q among ih =>
    have first : Blames context (.portableArray name classId (some items))
        (onWriter (BodyWriter.checkClass name classId q.classId)) := by
      by_cases same : classId = q.classId
      · exact blames_checkClass same
      · rw [BodyWriter.checkClass, if_neg same]
        apply blames_onWriter
        intro writer failure final ran
        cases ran
        exact .item (members q (by simp)) (Ne.symm same)
    apply first.bind
    exact fun _ => ih fun r member => members r (List.mem_cons_of_mem _ member)

theorem blames_closed (frame : Closed) :
    Blames context write (onWriter (BodyWriter.onBody frame.write)) := by
  apply blames_onBody
  have sized : (Output.writeItem (Wire.byteArray frame.body)).FailsOnly (Fault context write) :=
    Output.failsOnly_writeItem fun _ failed => .unwritable write (Wire.unwritable_byteArray failed)
  exact (Output.failsOnly_write _).bind fun _ => sized

/-- An object is framed in the context that those in front of it lead to. -/
theorem ends_frame {front back : List Portable} {q : Portable}
    (parts : write.objects = front ++ q :: back)
    (passed : closeAll front context = (.ok (), state.context)) :
    Act.Ends (do let frame ← onContext (close q)
                 onWriter (BodyWriter.onBody frame.write)) state
      (fun _ next => closeAll (front ++ [q]) context = (.ok (), next.context))
      fun failure _ => Fault context write failure := by
  rcases ran : close q state.context with ⟨failure | frame, reached⟩
  · have failed : onContext (close q) state = (.error failure, { state with context := reached }) := by
      rw [onContext, Act.on_apply, ran]
    exact Act.ends_of_error (Act.bind_of_error failed)
      (.inside parts passed (congrArg Prod.fst ran))
  · have closed : onContext (close q) state = (.ok frame, { state with context := reached }) := by
      rw [onContext, Act.on_apply, ran]
    have further : closeAll (front ++ [q]) context = (.ok (), reached) := by
      rw [closeAll, Act.forEach_append]
      exact (Act.bind_of_ok passed).trans (Act.bind_of_ok (Act.bind_of_ok ran))
    have puts : Act.Ends (onWriter (BodyWriter.onBody frame.write)) { state with context := reached }
        (fun _ next => closeAll (front ++ [q]) context = (.ok (), next.context))
        fun failure _ => Fault context write failure := by
      refine (blames_closed frame _).mono (fun _ next same => ?_) fun _ _ => id
      rw [same]
      exact further
    unfold Act.Ends
    rw [Act.bind_of_ok closed]
    exact puts

theorem ends_putAll {front items : List Portable} (parts : write.objects = front ++ items)
    (passed : closeAll front context = (.ok (), state.context)) :
    Act.Ends (putAll items) state (fun _ _ => True) fun failure _ => Fault context write failure := by
  induction items generalizing front state with
  | nil => exact Act.ends_of_ok rfl trivial
  | cons q items ih =>
    rw [putAll_cons]
    apply (ends_frame parts passed).bind
    intro _ next further
    exact ih (by simp [parts]) further

/-- A step that leaves the context alone fails for faults of the write in the context it comes to. -/
theorem Blames.ends {step : Act Open Unit} (blames : Blames state.context write step) :
    Act.Ends step state (fun _ _ => True) fun failure _ => Fault state.context write failure :=
  (blames state).mono (fun _ _ _ => trivial) fun _ _ => id

/-- What is put in front of an object. -/
def announce (name : String) (declared : Int32) (p : Portable) : Act Open Unit := do
  onWriter (BodyWriter.checkClass name declared p.classId)
  put (Wire.bool true)

/-- What is put in front of the objects of an array. -/
def announceItems (name : String) (declared : Int32) (items : List Portable) : Act Open Unit := do
  onWriter (BodyWriter.checkClass name declared declared)
  checkClasses name declared items
  put (Wire.bool true)
  onWriter (BodyWriter.onBody (Output.writeItem (Wire.length .array items.length)))

theorem blames_announce {p : Portable} (same : declared = p.classId) :
    Blames context write (announce name declared p) :=
  (blames_checkClass same).bind fun _ => blames_put _

theorem blames_announceItems {items : List Portable} :
    Blames context (.portableArray name declared (some items))
      (announceItems name declared items) := by
  have counted : Blames context (.portableArray name declared (some items))
      (onWriter (BodyWriter.onBody (Output.writeItem (Wire.length .array items.length)))) :=
    blames_onBody (Output.failsOnly_writeItem fun _ failed =>
      .unwritable _ (Wire.unwritable_length failed))
  apply (blames_checkClass rfl).bind
  intro _
  apply (blames_checkClasses fun _ => id).bind
  intro _
  exact (blames_put _).bind fun _ => counted

theorem ends_onward_portable {p : Portable} (same : declared = p.classId) (state : Open) :
    Act.Ends (onward (.portable name (some p)) declared) state (fun _ _ => True)
      fun failure _ => Fault state.context (.portable name (some p)) failure := by
  have parts : onward (.portable name (some p)) declared = (do
      announce name declared p
      let frame ← onContext (close p)
      onWriter (BodyWriter.onBody frame.write)) := by
    simp only [onward, announce, bind_assoc]
  rw [parts]
  apply (blames_announce same state).bind
  intro _ next here
  have start : closeAll [] state.context = (.ok (), next.context) := by rw [here]; rfl
  exact (ends_frame (by rfl) start).mono (fun _ _ _ => trivial) fun _ _ => id

theorem ends_onward_items {items : List Portable} (state : Open) :
    Act.Ends (onward (.portableArray name declared (some items)) declared) state (fun _ _ => True)
      fun failure _ =>
        Fault state.context (.portableArray name declared (some items)) failure := by
  have parts : onward (.portableArray name declared (some items)) declared = (do
      announceItems name declared items
      putAll items) := by
    simp only [onward, announceItems, bind_assoc]
  rw [parts]
  apply (blames_announceItems state).bind
  intro _ next here
  have start : closeAll [] state.context = (.ok (), next.context) := by rw [here]; rfl
  exact ends_putAll (List.nil_append _).symm start

/-- Once its field is begun and declares the class that the write names, a write fails only for
    what it brings. -/
theorem ends_onward (same : ∀ classId, write.classId? = some classId → declared = classId)
    (state : Open) :
    Act.Ends (onward write declared) state (fun _ _ => True)
      fun failure _ => Fault state.context write failure := by
  cases write with
  | data name value =>
    apply Blames.ends
    apply blames_onBody
    intro output failure final ran
    exact .unwritable _ (Output.failsOnly_data value output failure final ran)
  | portable name value =>
    cases value with
    | none => exact (blames_put _).ends
    | some p => exact ends_onward_portable (same _ rfl) state
  | nullPortable name classId =>
    exact ((blames_checkClass (same _ rfl)).bind fun _ => blames_put _).ends
  | portableArray name classId items =>
    obtain rfl : declared = classId := same _ rfl
    cases items with
    | none => exact ((blames_checkClass rfl).bind fun _ => blames_put _).ends
    | some items => exact ends_onward_items state
  | fail text => exact Act.ends_of_ok rfl trivial

/-- The state that writes lead to, one after the other, whether they fail or not. -/
def attemptAll (writes : List FieldWrite) (state : Open) : Open :=
  writes.foldl (fun state write => (perform write state).2) state

theorem attemptAll_append_singleton (writes : List FieldWrite) (write : FieldWrite)
    (state : Open) :
    attemptAll (writes ++ [write]) state = (perform write (attemptAll writes state)).2 := by
  rw [attemptAll, List.foldl_append]
  rfl

theorem performAll_eq (writes : List FieldWrite) :
    performAll writes = Act.forEach perform writes := by
  induction writes with
  | nil => rfl
  | cons write writes ih => rw [performAll, ih, Act.forEach]

/-- The fields recorded for the first so many writes are begun, and those behind are not. -/
structure Upto (definition : ClassDefinition) (count : Nat) (writer : BodyWriter) : Prop where
  stands : writer.Stands definition
  begun : ∀ i : Nat, writer.written[i]? = some true ↔ i < count

variable {definition : ClassDefinition} {writes before after : List FieldWrite} {count : Nat}
  {state : Open}

open PortableContext (Recorded)

theorem upto_start (definition : ClassDefinition) {buffer : Output} (clean : buffer.content = []) :
    Upto definition 0 (.start definition buffer) := by
  refine ⟨BodyWriter.stands_start definition clean, fun i => ?_⟩
  simp [BodyWriter.start, List.getElem?_replicate]

/-- The next write finds its field, and may begin it. -/
theorem Upto.admits {writer : BodyWriter} (upto : Upto definition count writer)
    (recorded : Recorded writes definition) (place : writes[count]? = some write) :
    ∃ field kind, write.kind? = some kind ∧ writer.Admits write.name kind field ∧
      field.index.toNatClampNeg = count ∧
      ∀ classId, write.classId? = some classId → field.nested.classId = classId := by
  obtain ⟨field, found, index, records⟩ := recorded.finds place
  refine ⟨field, field.kind, records.kind, ⟨?_, rfl, ?_⟩, index, records.classId⟩
  · rw [upto.stands.describes, found]
  · rw [index]
    exact fun marked => Nat.lt_irrefl _ ((upto.begun count).mp marked)

/-- Whatever becomes of the next write, its field is then begun. -/
theorem Upto.perform (upto : Upto definition count state.writer)
    (recorded : Recorded writes definition) (place : writes[count]? = some write) :
    Upto definition (count + 1) (perform write state).2.writer := by
  obtain ⟨field, kind, call, admits, index, -⟩ := upto.admits recorded place
  have longer := perform_of_admits call recorded.placed upto.stands admits
  obtain ⟨stands, -⟩ := stands_perform recorded.placed write upto.stands
  refine ⟨stands, fun i => ?_⟩
  have inside : count < state.writer.written.length := by
    rw [upto.stands.marks, recorded.length]
    exact (List.getElem?_eq_some_iff.mp place).1
  rw [longer.written, BodyWriter.begun, index, List.getElem?_set]
  by_cases here : count = i
  · subst here
    simp [inside]
  · rw [if_neg here, upto.begun i]
    omega

theorem Upto.attemptAll (recorded : Recorded writes definition)
    (start : Upto definition 0 state.writer) (parts : writes = before ++ after) :
    Upto definition before.length (attemptAll before state).writer := by
  induction before using List.reverseRecOn generalizing after with
  | nil => exact start
  | append_singleton front write ih =>
    rw [List.append_assoc] at parts
    have place : writes[front.length]? = some write := by simp [parts]
    rw [attemptAll_append_singleton, List.length_append]
    exact (ih parts).perform recorded place

/-- The next write fails only for what it brings. -/
theorem Upto.fault (upto : Upto definition count state.writer)
    (recorded : Recorded writes definition) (place : writes[count]? = some write)
    {failure : Failure} {final : Open}
    (failed : Frame.perform write state = (.error failure, final)) :
    Fault state.context write failure := by
  obtain ⟨field, kind, call, admits, index, same⟩ := upto.admits recorded place
  have begins := onWriter_beginField recorded.placed upto.stands admits
  rw [perform_begins call] at failed
  split at begins
  · rw [Act.bind_of_error begins] at failed
    cases failed
    exact .bodyTooLarge write
  · rw [Act.bind_of_ok begins] at failed
    have fault := (ends_onward same _).of_error failed
    exact fault

/-- The first so many fields have offsets. -/
def Located (count : Nat) (writer : BodyWriter) : Prop :=
  ∀ i < count, ∃ offset, BodyWriter.entry writer.body.content i = Wire.int offset ∧
    offset ≠ BodyReader.unwritten

/-- A write that succeeds gives its field an offset. -/
theorem Upto.located (upto : Upto definition count state.writer)
    (recorded : Recorded writes definition) (place : writes[count]? = some write)
    (located : Located count state.writer) {final : Open}
    (ran : Frame.perform write state = (.ok (), final)) : Located (count + 1) final.writer := by
  obtain ⟨field, kind, call, admits, index, -⟩ := upto.admits recorded place
  have inside := admits.inside recorded.placed upto.stands.describes
  have begins := onWriter_beginField recorded.placed upto.stands admits
  have longer := perform_of_admits call recorded.placed upto.stands admits
  obtain ⟨-, kept⟩ := stands_perform recorded.placed write upto.stands
  obtain ⟨begun, -⟩ := upto.stands.begun inside admits.fresh
  rw [ran] at longer kept
  rw [perform_begins call] at ran
  split at begins
  · rw [Act.bind_of_error begins] at ran
    cases ran
  case isFalse large =>
    intro i known
    rcases Nat.lt_succ_iff_lt_or_eq.mp known with earlier | rfl
    · rw [kept.entries i ((upto.begun i).mpr earlier)]
      exact located i earlier
    · have small := Nat.not_le.mp large
      have own : BodyWriter.entry (state.writer.begun field).body.content
          field.index.toNatClampNeg = _ :=
        BodyWriter.entry_begun_self (upto.stands.index_le inside)
      rw [if_pos small, index] at own
      refine ⟨_, ?_, BodyWriter.ofNat_ne_unwritten small⟩
      rw [begun.entry_eq longer (index ▸ inside), own]

/-- The fields recorded for the writes that are done are begun and have offsets. -/
structure Done (definition : ClassDefinition) (done : List FieldWrite) (state : Open) : Prop where
  upto : Upto definition done.length state.writer
  located : Located done.length state.writer

theorem Done.perform (recorded : Recorded writes definition) {done rest : List FieldWrite}
    {write : FieldWrite} {reached : Open} (parts : writes = done ++ write :: rest)
    (complete : Done definition done state) (ran : Frame.perform write state = (.ok (), reached)) :
    Done definition (done ++ [write]) reached := by
  obtain ⟨upto, located⟩ := complete
  have place : writes[done.length]? = some write := by simp [parts]
  have begun := upto.perform recorded place
  rw [ran] at begun
  refine ⟨?_, ?_⟩
  · rwa [List.length_append]
  · rw [List.length_append]
    exact upto.located recorded place located ran

/-- Writing an object by the definition that its own writes recorded.  Whether or not the writes
    before it failed, each write comes to a writer that has nothing against it: its field is declared
    under its name, with its kind and, if it names a class, with that class, and was not written
    before.  So it fails only for what it brings, in the context that it comes to.  If all writes
    succeed, each field of the definition has been written exactly once, and has an offset. -/
theorem written_by_own_description {context : PortableContext} {p : Portable}
    (own : context.OwnKeys) (describes : context.DescribesItself p definition) {buffer : Output}
    (clean : buffer.content = []) (start : state.writer = .start definition buffer) :
    (∀ before write after, p.writes = before ++ write :: after →
      let reached := attemptAll before state
      (∃ kind, write.kind? = some kind ∧ reached.writer.refusal? write.name kind = none) ∧
      (∃ field, definition.field? write.name = some field ∧
        ∀ classId, write.classId? = some classId → field.nested.classId = classId) ∧
      ∀ failure final, perform write reached = (.error failure, final) →
        Fault reached.context write failure) ∧
    ∀ final, performAll p.writes state = (.ok (), final) →
      ∀ (i : Nat) (field : Field), definition.fields[i]? = some field →
        (p.writes.map FieldWrite.name).count field.name = 1 ∧
        final.writer.written[i]? = some true ∧
        ∃ offset, BodyReader.offsetOf ⟨definition, final.writer.body.content⟩ field = .ok offset ∧
          offset ≠ BodyReader.unwritten := by
  have recorded := describes.records own
  have started : Upto definition 0 state.writer := start ▸ upto_start definition clean
  constructor
  · intro before write after parts reached
    have upto : Upto definition before.length reached.writer :=
      Upto.attemptAll recorded started parts
    have place : p.writes[before.length]? = some write := by simp [parts]
    obtain ⟨field, kind, call, admits, -, same⟩ := upto.admits recorded place
    have found := admits.found
    rw [upto.stands.describes] at found
    exact ⟨⟨kind, call, admits.refusal?_none⟩, ⟨field, found, same⟩,
      fun failure final failed => upto.fault recorded place failed⟩
  · intro final ran i field place
    rw [performAll_eq] at ran
    have complete : Done definition p.writes final :=
      Act.forEach_ok ⟨started, nofun⟩
        (fun _ _ _ _ _ parts before stepped => before.perform recorded parts stepped) ran
    obtain ⟨upto, located⟩ := complete
    have inside : i < p.writes.length := by
      rw [← recorded.length]
      exact (List.getElem?_eq_some_iff.mp place).1
    obtain ⟨offset, entry, marked⟩ := located i inside
    rw [← recorded.placed.index place] at entry
    refine ⟨?_, (upto.begun i).mpr inside, offset, BodyWriter.offsetOf_of_entry entry, marked⟩
    rw [← recorded.names]
    exact List.count_eq_one_of_mem recorded.distinct
      (List.mem_map_of_mem (List.mem_of_getElem? place))

/-- An object with a number and an object inside that has a number of the same name. -/
theorem written_by_own_description_of_nested :
    let inner : Portable := .scripted 2 none [.data "n" (.scalar .long (8 : Int64))] none []
    let p : Portable := .scripted 1 none [.data "n" (.scalar .int (7 : Int32)),
      .portable "q" (some inner)] none []
    let context : PortableContext := .start 3 (.ofSettings 16 64 1)
    ∃ definition final, context.OwnKeys ∧ context.DescribesItself p definition ∧
      let state : Open := ⟨.start definition (.empty 0), context⟩
      (attemptAll [.data "n" (.scalar .int (7 : Int32))] state).writer.refusal? "q" .portable =
        none ∧
      (∃ field, definition.field? "q" = some field ∧ field.nested.classId = 2) ∧
      performAll p.writes state = (.ok (), final) ∧
      ∀ (i : Nat) (field : Field), definition.fields[i]? = some field →
        (p.writes.map FieldWrite.name).count field.name = 1 ∧
        final.writer.written[i]? = some true ∧
        ∃ offset, BodyReader.offsetOf ⟨definition, final.writer.body.content⟩ field = .ok offset ∧
          offset ≠ BodyReader.unwritten := by
  intro inner p context
  have own : context.OwnKeys := nofun
  have outcome : ((PortableContext.describe p context).1.toOption.bind fun definition =>
      (PortableContext.describeWrites p.writes (.start ⟨1, 3⟩) context).1.toOption.bind fun draft =>
      draft.build.toOption.bind fun recorded =>
      if recorded.same definition then
        (performAll p.writes ⟨.start definition (.empty 0), context⟩).1.toOption
      else none).isSome = true := by decide +kernel
  obtain ⟨⟨⟩, outcome⟩ := Option.isSome_iff_exists.mp outcome
  obtain ⟨definition, answers, outcome⟩ := Option.bind_eq_some_iff.mp outcome
  obtain ⟨draft, described, outcome⟩ := Option.bind_eq_some_iff.mp outcome
  obtain ⟨recorded, built, outcome⟩ := Option.bind_eq_some_iff.mp outcome
  split at outcome
  case isFalse => cases outcome
  case isTrue same =>
    have describes : context.DescribesItself p definition :=
      ⟨rfl, Act.settled_of_toOption answers, draft, recorded, Act.settled_of_toOption described,
        Act.settled_of_toOption built, same⟩
    have ran : performAll p.writes ⟨.start definition (.empty 0), context⟩ = (.ok (), _) :=
      Prod.ext (Act.settled_of_toOption outcome) rfl
    obtain ⟨each, written⟩ := written_by_own_description own describes
      (rfl : (Output.empty 0).content = [])
      (rfl : (⟨.start definition (.empty 0), context⟩ : Open).writer = _)
    obtain ⟨⟨kind, call, admitted⟩, ⟨field, found, classed⟩, -⟩ :=
      each [.data "n" (.scalar .int (7 : Int32))] (.portable "q" (some inner)) [] rfl
    cases call
    exact ⟨definition, _, own, describes, admitted, ⟨field, found, classed 2 rfl⟩, ran,
      written _ ran⟩

end Frame

end ObjectWire
