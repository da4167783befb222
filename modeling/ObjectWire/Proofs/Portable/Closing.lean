import ObjectWire.Proofs.Portable.Description
import ObjectWire.Proofs.Portable.Form

/-!
# Closing frames

While a body is under construction its context evolves, and the body is that of a sheet at every
moment: each write puts one more entry behind those that are there.  What closing an object yields
is therefore the frame of the object by the definitions that are in use afterwards.
-/

namespace ObjectWire

namespace BodyWriter

variable {writer after : BodyWriter} {definition : ClassDefinition} {sheet : Sheet}
  {name : String} {run : Bytes}

/-- What is appended to the body belongs to the field that was begun last. -/
theorem Holds.extend {step : Act Output Unit} {form : Option Bytes}
    (holds : writer.Holds definition (sheet ++ [(name, run)])) (appends : Output.Appends step form)
    (h : onBody step writer = (.ok (), after)) :
    ∃ more, form = some more ∧ after.Holds definition (sheet ++ [(name, run ++ more)]) := by
  obtain ⟨body, ran, rfl⟩ := Act.on_ok h
  obtain ⟨more, formed, content⟩ := appends _ _ ran
  refine ⟨more, formed, holds.describes, ?_, ?_⟩
  · show body.content = _
    rw [content, holds.body, Sheet.body_append]
  · have names : Sheet.names (sheet ++ [(name, run ++ more)]) =
        Sheet.names (sheet ++ [(name, run)]) := by simp [Sheet.names]
    rw [names]
    exact holds.written

end BodyWriter

namespace Frame

/-- The context behind a body under construction evolves. -/
def Grows (state now : Open) : Prop := state.context.Evolves now.context

instance : Std.Refl Grows := ⟨fun state => @PortableContext.Evolves.refl state.context⟩

instance : Trans Grows Grows Grows := ⟨fun first second => first.trans second⟩

/-- The frame is that of the object, in a context that covers the object. -/
structure Frames (context : PortableContext) (p : Portable) (closed : Closed) : Prop where
  found : context.lookup (context.keyOf p) = some closed.definition
  body : ∃ sheet, context.sheet p.writes = some sheet ∧
    closed.body = sheet.body closed.definition
  covers : context.Covers p

theorem Frames.appends {context : PortableContext} {p : Portable} {closed : Closed}
    (frames : Frames context p closed) : Output.Appends closed.write (context.frame p) := by
  obtain ⟨sheet, written, body⟩ := frames.body
  rw [PortableContext.frame_of_sheet frames.found written, ← body]
  have key := Output.appends_write (Wire.classKey closed.definition.key)
  exact key.andThen (Output.appends_writeItem (Wire.byteArray closed.body))

/-- What closing an object comes to in any sound context. -/
def Closes (p : Portable) : Prop :=
  ∀ context : PortableContext, context.Sound →
    Act.Meets PortableContext.Evolves (close p) context fun closed now => Frames now p closed

section Steps

variable {state : Open} {definition : ClassDefinition} {sheet : Sheet} {name : String}
  {run : Bytes}

theorem meets_onWriter {α : Type} {step : Act BodyWriter α} {wanted : α → Open → Prop}
    (h : ∀ value writer, step state.writer = (.ok value, writer) →
      wanted value { state with writer := writer }) :
    Act.Meets Grows (onWriter step) state wanted := by
  refine ⟨.refl, fun value now ran => ?_⟩
  obtain ⟨writer, answered, rfl⟩ := Act.on_ok ran
  exact h value writer answered

theorem meets_onContext {α : Type} {step : Act PortableContext α}
    {wanted : α → PortableContext → Prop}
    (h : Act.Meets PortableContext.Evolves step state.context wanted) :
    Act.Meets Grows (onContext step) state fun value now =>
      wanted value now.context ∧ now.writer = state.writer := by
  refine ⟨h.1, fun value now ran => ?_⟩
  obtain ⟨context, answered, rfl⟩ := Act.on_ok ran
  exact ⟨h.2 value context answered, rfl⟩

/-- The field is one of the class and new to the sheet, and is put behind it without data. -/
theorem meets_begin {kind : FieldKind} (wellFormed : definition.WellFormed)
    (holds : state.writer.Holds definition sheet) :
    Act.Meets Grows (onWriter (BodyWriter.beginField name kind)) state fun declared now =>
      (∃ field, definition.field? name = some field ∧ kind = field.kind ∧
        field.nested.classId = declared) ∧ name ∉ sheet.names ∧
      now.writer.Holds definition (sheet ++ [(name, [])]) := by
  apply meets_onWriter
  intro declared writer begun
  obtain ⟨field, found, same, rfl, new, after⟩ := BodyWriter.beginField_ok wellFormed holds begun
  exact ⟨⟨field, found, same.symm, rfl⟩, new, after⟩

theorem meets_extend {step : Act Output Unit} {form : Option Bytes}
    (holds : state.writer.Holds definition (sheet ++ [(name, run)]))
    (appends : Output.Appends step form) :
    Act.Meets Grows (onWriter (BodyWriter.onBody step)) state fun _ now =>
      ∃ more, form = some more ∧ now.writer.Holds definition (sheet ++ [(name, run ++ more)]) :=
  meets_onWriter fun _ _ ran => holds.extend appends ran

theorem meets_put (holds : state.writer.Holds definition (sheet ++ [(name, run)]))
    (bytes : Bytes) :
    Act.Meets Grows (put bytes) state fun _ now =>
      now.writer.Holds definition (sheet ++ [(name, run ++ bytes)]) :=
  (meets_extend holds (Output.appends_write bytes)).mono fun _ _ _ ⟨_, same, after⟩ => by
    cases same
    exact after

theorem meets_check (holds : state.writer.Holds definition sheet) (declared actual : Int32) :
    Act.Meets Grows (onWriter (BodyWriter.checkClass name declared actual)) state fun _ now =>
      declared = actual ∧ now.writer.Holds definition sheet := by
  apply meets_onWriter
  intro _ writer checked
  unfold BodyWriter.checkClass at checked
  split at checked
  case isTrue same => cases checked; exact ⟨same, holds⟩
  case isFalse => cases checked

theorem meets_checkClasses (holds : state.writer.Holds definition sheet) (declared : Int32)
    (items : List Portable) :
    Act.Meets Grows (checkClasses name declared items) state fun _ now =>
      (∀ q ∈ items, declared = q.classId) ∧ now.writer.Holds definition sheet := by
  induction items generalizing state with
  | nil => exact Act.meets_pure ⟨nofun, holds⟩
  | cons p items ih =>
    refine (meets_check holds declared p.classId).bind fun _ now _ ⟨same, still⟩ => ?_
    refine (ih still).mono fun _ _ _ ⟨others, after⟩ => ?_
    exact ⟨List.forall_mem_cons.mpr ⟨same, others⟩, after⟩

/-- The frame of an object, put behind the data of a field. -/
theorem meets_frame {p : Portable} (closes : Closes p) (sound : state.context.Sound)
    (holds : state.writer.Holds definition (sheet ++ [(name, run)])) :
    Act.Meets Grows (do
        let frame ← onContext (close p)
        onWriter (BodyWriter.onBody frame.write)) state fun _ now =>
      now.context.Covers p ∧ ∃ more, now.context.frame p = some more ∧
        now.writer.Holds definition (sheet ++ [(name, run ++ more)]) := by
  apply (meets_onContext (closes state.context sound)).bind
  rintro closed now - ⟨frames, same⟩
  rw [← same] at holds
  apply (meets_extend holds frames.appends).mono
  rintro - later evolved ⟨more, framed, after⟩
  exact ⟨evolved.covers frames.covers, more, evolved.frame p more framed, after⟩

theorem meets_putAll {items : List Portable} (closes : ∀ q ∈ items, Closes q)
    (sound : state.context.Sound)
    (holds : state.writer.Holds definition (sheet ++ [(name, run)])) :
    Act.Meets Grows (putAll items) state fun _ now =>
      (∀ q ∈ items, now.context.Covers q) ∧
        ∃ more, Wire.all now.context.frame items = some more ∧
          now.writer.Holds definition (sheet ++ [(name, run ++ more)]) := by
  induction items generalizing state run with
  | nil =>
    refine Act.meets_pure ⟨nofun, [], rfl, ?_⟩
    rwa [List.append_nil]
  | cons p items ih =>
    have first := meets_frame (closes p (by simp)) sound holds
    rw [putAll_cons]
    apply first.bind
    rintro - now evolved ⟨covers, bytes, framed, still⟩
    refine (ih (fun q member => closes q (List.mem_cons_of_mem _ member))
      (evolved.sound sound) still).mono ?_
    rintro - later further ⟨others, more, rest, after⟩
    refine ⟨List.forall_mem_cons.mpr ⟨further.covers covers, others⟩, bytes ++ more, ?_, ?_⟩
    · rw [Wire.all, further.frame p bytes framed, rest]
      rfl
    · rwa [← List.append_assoc]

/-- What a write comes to: one more entry of the sheet, for a field that the definition has and the
    sheet had not. -/
structure Performed (definition : ClassDefinition) (sheet : Sheet) (write : FieldWrite)
    (now : Open) : Prop where
  fits : write.Fits definition
  new : write.name ∉ sheet.names
  covers : ∀ q ∈ write.objects, now.context.Covers q
  entry : ∃ run, now.context.span write = some run ∧
    now.writer.Holds definition (sheet ++ [(write.name, run)])

theorem Performed.of_no_objects {write : FieldWrite} {now : Open} {field : Field} {run : Bytes}
    (none : write.objects = []) (found : definition.field? write.name = some field)
    (kind : write.kind? = some field.kind) (new : write.name ∉ sheet.names)
    (written : now.context.span write = some run)
    (holds : now.writer.Holds definition (sheet ++ [(write.name, run)])) :
    Performed definition sheet write now := by
  refine ⟨⟨field, found, kind, ?_⟩, new, ?_, run, written, holds⟩
  · rw [none]
    exact List.forall_mem_nil _
  · rw [none]
    exact List.forall_mem_nil _

/-- The mark of an absent object, in a field that is declared for its class. -/
theorem meets_absent {kind : FieldKind} (wellFormed : definition.WellFormed)
    (holds : state.writer.Holds definition sheet) (classId : Int32) :
    Act.Meets Grows (do
        let declared ← onWriter (BodyWriter.beginField name kind)
        onWriter (BodyWriter.checkClass name declared classId)
        put (Wire.bool false)) state fun _ now =>
      (∃ field, definition.field? name = some field ∧ kind = field.kind) ∧ name ∉ sheet.names ∧
        now.writer.Holds definition (sheet ++ [(name, Wire.bool false)]) := by
  apply (meets_begin wellFormed holds).bind
  rintro declared now - ⟨⟨field, found, kind, -⟩, new, begun⟩
  apply (meets_check begun _ _).bind
  rintro - checked - ⟨-, begun⟩
  exact (meets_put begun _).mono fun _ _ _ after => ⟨⟨field, found, kind⟩, new, after⟩

theorem meets_perform {write : FieldWrite} (closes : ∀ q ∈ write.objects, Closes q)
    (sound : state.context.Sound) (wellFormed : definition.WellFormed)
    (holds : state.writer.Holds definition sheet) :
    Act.Meets Grows (perform write) state fun _ => Performed definition sheet write := by
  cases write with
  | data name value =>
    rw [perform, BodyWriter.writeData, onWriter_bind]
    apply (meets_begin wellFormed holds).bind
    rintro declared now - ⟨⟨field, found, kind, -⟩, new, begun⟩
    apply (meets_extend begun value.appends_write).mono
    rintro - later - ⟨run, formed, after⟩
    exact .of_no_objects rfl found (congrArg some kind) new formed after
  | portable name value =>
    cases value with
    | none =>
      apply (meets_begin wellFormed holds).bind
      rintro declared now - ⟨⟨field, found, kind, -⟩, new, begun⟩
      apply (meets_put begun _).mono
      intro _ _ _ after
      exact .of_no_objects rfl found (congrArg some kind) new rfl after
    | some p =>
      apply (meets_begin wellFormed holds).bind
      rintro declared now evolved ⟨⟨field, found, kind, rfl⟩, new, begun⟩
      apply (meets_check begun _ _).bind
      rintro - checked further ⟨same, begun⟩
      apply (meets_put begun _).bind
      intro _ marked last begun
      have closing := closes p (by simp [FieldWrite.objects])
      have nowSound := last.sound (further.sound (evolved.sound sound))
      apply (meets_frame closing nowSound begun).mono
      rintro - later - ⟨covers, run, framed, after⟩
      refine ⟨⟨field, found, congrArg some kind, ?_⟩, new, ?_, _, ?_, after⟩
      · simpa [FieldWrite.objects] using same
      · simpa [FieldWrite.objects] using covers
      · rw [PortableContext.span_portable, Wire.optional, framed]
        rfl
  | nullPortable name classId =>
    apply (meets_absent wellFormed holds classId).mono
    rintro - now - ⟨⟨field, found, kind⟩, new, after⟩
    exact .of_no_objects rfl found (congrArg some kind) new rfl after
  | portableArray name classId items =>
    cases items with
    | none =>
      apply (meets_absent wellFormed holds classId).mono
      rintro - now - ⟨⟨field, found, kind⟩, new, after⟩
      exact .of_no_objects rfl found (congrArg some kind) new rfl after
    | some items =>
      apply (meets_begin wellFormed holds).bind
      rintro declared opened evolved ⟨⟨field, found, kind, rfl⟩, new, begun⟩
      apply (meets_check begun _ _).bind
      rintro - named more ⟨-, begun⟩
      apply (meets_checkClasses begun _ items).bind
      rintro - checked further ⟨same, begun⟩
      apply (meets_put begun _).bind
      intro _ marked last begun
      have counted := Output.appends_writeItem (Wire.length .array items.length)
      apply (meets_extend begun counted).bind
      rintro - sized final ⟨count, sized, begun⟩
      have nowSound := final.sound (last.sound (further.sound (more.sound (evolved.sound sound))))
      have inside : ∀ q ∈ items, Closes q := closes
      apply (meets_putAll inside nowSound begun).mono
      rintro - later - ⟨covers, run, framed, after⟩
      refine ⟨⟨field, found, congrArg some kind, same⟩, new, covers, _, ?_, after⟩
      rw [PortableContext.span_portableArray, Wire.optional, Wire.run, sized, framed,
        List.nil_append, List.append_assoc]
      rfl
  | fail text => exact Act.meets_fail

theorem meets_performAll {writes : List FieldWrite}
    (closes : ∀ write ∈ writes, ∀ q ∈ write.objects, Closes q) (sound : state.context.Sound)
    (wellFormed : definition.WellFormed) (holds : state.writer.Holds definition sheet)
    (distinct : sheet.names.Nodup) :
    Act.Meets Grows (performAll writes) state fun _ now =>
      (∀ write ∈ writes, write.Fits definition ∧ ∀ q ∈ write.objects, now.context.Covers q) ∧
        ∃ more, now.context.sheet writes = some more ∧ (sheet ++ more).names.Nodup ∧
          now.writer.Holds definition (sheet ++ more) := by
  induction writes generalizing state sheet with
  | nil =>
    refine Act.meets_pure ⟨nofun, [], rfl, ?_⟩
    rw [List.append_nil]
    exact ⟨distinct, holds⟩
  | cons write writes ih =>
    apply (meets_perform (closes write (by simp)) sound wellFormed holds).bind
    rintro - now evolved ⟨fits, new, covers, run, written, holds⟩
    have longer : Sheet.names (sheet ++ [(write.name, run)]) = sheet.names ++ [write.name] := by
      simp [Sheet.names]
    have still : (Sheet.names (sheet ++ [(write.name, run)])).Nodup := by
      rw [longer, List.nodup_append]
      refine ⟨distinct, by simp, fun known member other only => ?_⟩
      rw [List.mem_singleton.mp only]
      rintro rfl
      exact new member
    refine (ih (fun other member => closes other (List.mem_cons_of_mem _ member))
      (evolved.sound sound) holds still).mono ?_
    rintro - later further ⟨others, more, rest, nodup, after⟩
    rw [List.append_assoc] at nodup after
    refine ⟨List.forall_mem_cons.mpr ⟨⟨fits, ?_⟩, others⟩, _, ?_, nodup, after⟩
    · exact fun q member => further.covers (covers q member)
    · have spanned := PortableContext.span_mono written fun q _ => further.frame q
      rw [PortableContext.sheet, spanned, rest]
      rfl

end Steps

/-- Filling a body keeps the buffer it borrows out of sight. -/
theorem meets_fill {context : PortableContext} {definition : ClassDefinition}
    {writes : Act Open Unit} {wanted : Open → Prop}
    (h : ∀ state : Open, state.writer = .start definition context.pool.acquire.1 →
      context.Evolves state.context →
      Act.Meets Grows writes state fun _ now => wanted now) :
    Act.Meets PortableContext.Evolves (fill definition writes) context fun closed now =>
      ∃ last : Open, wanted last ∧ closed = ⟨definition, last.writer.body.content⟩ ∧
        last.context.Evolves now := by
  have lent : context.Evolves { context with pool := context.pool.acquire.2 } := .borrow .refl
  obtain ⟨grows, answers⟩ :=
    h ⟨.start definition context.pool.acquire.1, { context with pool := context.pool.acquire.2 }⟩
      rfl lent
  unfold Act.Meets fill
  dsimp only
  rcases ran : writes ⟨.start definition context.pool.acquire.1,
    { context with pool := context.pool.acquire.2 }⟩ with ⟨outcome, reached⟩
  rw [ran] at grows
  refine ⟨(lent.trans grows).giveBack _, fun closed now done => ?_⟩
  cases outcome with
  | error failure => cases done
  | ok value =>
    cases done
    exact ⟨reached, answers value reached ran, rfl, .giveBack _ .refl⟩

/-- Whatever becomes of closing an object, the context evolves; and a frame that is closed is that
    of the object. -/
theorem meets_close (p : Portable) : Closes p := by
  induction p using Portable.induction with
  | step p ih =>
    intro context sound
    rw [close_eq]
    have described := (PortableContext.meets_describe p context sound).weaken
      fun _ _ (fills : PortableContext.Fills _ _) => fills.1
    apply described.bind
    intro definition now evolved found
    have nowSound := evolved.sound sound
    have wellFormed := nowSound.wellFormed _ _ found
    have closes : ∀ write ∈ p.writes, ∀ q ∈ write.objects, Closes q :=
      fun write member q among => ih q (List.mem_flatMap.mpr ⟨write, member, among⟩)
    have start : ∀ state : Open, state.writer = .start definition now.pool.acquire.1 →
        state.writer.Holds definition [] := by
      intro state started
      rw [started]
      exact BodyWriter.holds_start definition nowSound.clean.acquire_content
    have filled := meets_fill fun state started lent =>
      meets_performAll closes (lent.sound nowSound) wellFormed (start state started) List.nodup_nil
    apply filled.mono
    rintro closed final further ⟨last, ⟨each, sheet, written, nodup, after⟩, rfl, released⟩
    rw [List.nil_append] at nodup after
    have there : final.lookup (final.keyOf p) = some definition := by
      rw [PortableContext.keyOf_of_evolves (evolved.trans further)]
      exact further.lookup found
    refine ⟨there, ⟨sheet, released.sheet written, after.body⟩, fun q part => ?_⟩
    cases part with
    | whole =>
      refine ⟨definition, there, fun write member => (each write member).1, ?_⟩
      rwa [← PortableContext.names_of_sheet written]
    | inside member part =>
      obtain ⟨write, among, holds⟩ := List.mem_flatMap.mp member
      exact released.covers ((each write among).2 _ holds) q part

end Frame

end ObjectWire
