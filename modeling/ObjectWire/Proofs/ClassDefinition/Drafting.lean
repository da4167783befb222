import ObjectWire.Proofs.ClassDefinition.Reread
import ObjectWire.Proofs.Keyed

/-!
# Calls on a draft

A caller drives a draft by one call after the other and goes on after a call was refused.  Here a
call changes the draft in place, one step at a time, and may fail after any of the steps; that it
comes to nothing then, and to the whole addition otherwise, is `Addition.perform_eq_inPlace`.  What
a draft owes to the calls made on it is an invariant of such a run: the fields are those of the
accepted calls in order, each with its place as its index, and every class that a field refers to is
attached once.

An index of names that is kept along with the fields makes no difference to any of this: it refuses
the same names, and finds the same fields.
-/

namespace ObjectWire

/-- Fields with an index of their names. -/
structure IndexedFields where
  fields : List Field
  /-- The place of the field of each name. -/
  places : List (String × Nat)
  consistent : ∀ name, places.lookup name = fields.findIdx? fun field => field.name = name

namespace IndexedFields

/-- No fields. -/
def empty : IndexedFields := ⟨[], [], fun _ => rfl⟩

/-- The field whose place is filed under a name. -/
def find? (name : String) (indexed : IndexedFields) : Option Field :=
  (indexed.places.lookup name).bind fun place => indexed.fields[place]?

theorem find?_eq (indexed : IndexedFields) (name : String) :
    indexed.find? name = indexed.fields.find? fun field => field.name = name := by
  rw [find?, indexed.consistent, List.find?_eq_bind_findIdx?_getElem?]

theorem consistent_append {indexed : IndexedFields} {field : Field}
    (new : indexed.places.lookup field.name = none) (name : String) :
    (indexed.places ++ [(field.name, indexed.fields.length)]).lookup name =
      (indexed.fields ++ [field]).findIdx? fun field => field.name = name := by
  rw [List.findIdx?_append, ← indexed.consistent]
  by_cases same : field.name = name
  · subst same
    rw [Keyed.lookup_append_of_none new, new]
    simp
  · have missed : (name == field.name) = false := beq_false_of_ne fun equal => same equal.symm
    rw [List.lookup_append, List.lookup_cons, missed]
    simp [same]

/-- Appends a field and files its place, unless one is filed under its name. -/
def push? (field : Field) (indexed : IndexedFields) : Option IndexedFields :=
  if new : indexed.places.lookup field.name = none then
    some ⟨indexed.fields ++ [field], indexed.places ++ [(field.name, indexed.fields.length)],
      consistent_append new⟩
  else none

end IndexedFields

/-- A definition finds its fields as the index of their names does. -/
theorem ClassDefinition.field?_eq_find? {definition : ClassDefinition} {indexed : IndexedFields}
    (same : indexed.fields = definition.fields) (name : String) :
    definition.field? name = indexed.find? name := by
  rw [indexed.find?_eq, same]
  rfl

/-- A draft takes the fields that the index of their names takes. -/
theorem Draft.pushField_eq_push? {draft : Draft} {indexed : IndexedFields}
    (same : indexed.fields = draft.fields) (field : Field) :
    draft.pushField field = match indexed.push? field with
      | some pushed => .ok { draft with fields := pushed.fields }
      | none => .error (.duplicateField field.name draft.key.classId) := by
  have known : (indexed.places.lookup field.name).isSome =
      draft.fields.any fun known => known.name = field.name := by
    rw [indexed.consistent, List.findIdx?_isSome, same]
  unfold IndexedFields.push?
  rw [Draft.pushField, ← known, ← same]
  by_cases new : indexed.places.lookup field.name = none
  · rw [dif_pos new, if_neg (by rw [new]; exact Bool.false_ne_true)]
  · rw [dif_neg new, if_pos (Option.isSome_iff_ne_none.mpr new)]

namespace Draft

/-- A change that may fail, made in place: a failure leaves the draft as it was. -/
def inPlace (change : Draft → Except Failure Draft) : Act Draft Unit := fun draft =>
  match change draft with
  | .ok next => (.ok (), next)
  | .error failure => (.error failure, draft)

theorem inPlace_of_ok {change : Draft → Except Failure Draft} {draft next : Draft}
    (h : change draft = .ok next) : inPlace change draft = (.ok (), next) := by
  rw [inPlace, h]

theorem inPlace_of_error {change : Draft → Except Failure Draft} {draft : Draft}
    {failure : Failure} (h : change draft = .error failure) :
    inPlace change draft = (.error failure, draft) := by
  rw [inPlace, h]

/-- Asks for the next index and appends a field that has it. -/
def appendField (field : Int32 → Field) : Act Draft Unit := do
  let draft ← get
  let index ← Act.lift draft.nextIndex
  inPlace (pushField (field index))

theorem appendField_apply (field : Int32 → Field) (draft : Draft) :
    appendField field draft =
      match draft.nextIndex >>= fun index => draft.pushField (field index) with
      | .ok next => (.ok (), next)
      | .error failure => (.error failure, draft) := by
  unfold appendField
  rw [Act.bind_of_ok (Act.get_apply draft), Act.bind_apply, Act.lift_apply]
  cases draft.nextIndex <;> rfl

end Draft

/-- A call that adds a field to a draft. -/
inductive Addition where
  | plain (name : String) (kind : FieldKind)
  | portable (name : String) (definition : ClassDefinition)
  | portableArray (name : String) (definition : ClassDefinition)

namespace Addition

/-- The name of the field. -/
def name : Addition → String
  | .plain name _ | .portable name _ | .portableArray name _ => name

/-- The kind of the field. -/
def kind : Addition → FieldKind
  | .plain _ kind => kind
  | .portable _ _ => .portable
  | .portableArray _ _ => .portableArray

/-- The definition that comes along. -/
def brought? : Addition → Option ClassDefinition
  | .plain _ _ => none
  | .portable _ definition | .portableArray _ definition => some definition

/-- The field that the call is about, at an index. -/
def field (call : Addition) (index : Int32) : Field :=
  ⟨call.name, call.kind, index, call.brought?.elim .none ClassDefinition.key⟩

/-- The draft with the field added. -/
def apply : Addition → Draft → Except Failure Draft
  | .plain name kind => Draft.addField name kind
  | .portable name definition => Draft.addPortable name definition
  | .portableArray name definition => Draft.addPortableArray name definition

/-- The call as it is made: the field is appended, and what comes along is attached after it. -/
def perform : Addition → Act Draft Unit
  | .plain name kind => do
    if kind.isPortable then throw (.needsNestedDefinition kind)
    Draft.appendField (plain name kind).field
  | .portable name definition => do
    Draft.appendField (portable name definition).field
    Act.change (Draft.pushNested definition)
  | .portableArray name definition => do
    Draft.appendField (portableArray name definition).field
    Act.change (Draft.pushNested definition)

/-- The kind goes with what the call brings along. -/
def Permitted (call : Addition) : Prop := call.kind.isPortable = call.brought?.isSome

/-- What the call brings along is well formed. -/
def WellFormed (call : Addition) : Prop :=
  ∀ definition, call.brought? = some definition → definition.WellFormed

theorem appendField_change_eq_inPlace (name : String) (kind : FieldKind)
    (definition : ClassDefinition) :
    (do Draft.appendField fun index => ⟨name, kind, index, definition.key⟩
        Act.change (Draft.pushNested definition)) =
      Draft.inPlace (Draft.addNested name kind definition) := by
  funext draft
  rw [Act.bind_apply, Draft.appendField_apply]
  unfold Draft.inPlace Draft.addNested
  cases draft.nextIndex with
  | error failure => rfl
  | ok index =>
    simp only [Act.settled_bind_of_ok]
    cases draft.pushField ⟨name, kind, index, definition.key⟩ <;> rfl

/-- A call is made entirely or not at all. -/
theorem perform_eq_inPlace (call : Addition) : call.perform = Draft.inPlace call.apply := by
  cases call with
  | plain name kind =>
    funext draft
    cases portable : kind.isPortable with
    | true =>
      simp only [perform, Draft.inPlace, apply, Draft.addField, portable]
      rfl
    | false =>
      have added : draft.addField name kind = draft.nextIndex >>= fun index =>
          draft.pushField ((plain name kind).field index) := by
        unfold Draft.addField
        rw [portable]
        rfl
      have made : (plain name kind).perform draft =
          Draft.appendField (plain name kind).field draft := by
        simp only [perform, portable]
        rfl
      rw [made, Draft.appendField_apply, ← added]
      rfl
  | portable name definition => exact appendField_change_eq_inPlace name .portable definition
  | portableArray name definition =>
    exact appendField_change_eq_inPlace name .portableArray definition

/-- What an accepted call has done. -/
structure Accepted (call : Addition) (draft next : Draft) : Prop where
  permitted : call.Permitted
  small : draft.fields.length < 0x80000000
  fresh : ∀ known ∈ draft.fields, known.name ≠ call.name
  key : next.key = draft.key
  fields : next.fields = draft.fields ++ [call.field (Int32.ofNat draft.fields.length)]
  nested : ∀ inner ∈ next.nested, inner ∈ draft.nested ∨ call.brought? = some inner

theorem accepted_of_addNested {call : Addition} {draft next : Draft}
    {definition : ClassDefinition} (brought : call.brought? = some definition)
    (permitted : call.Permitted)
    (h : draft.addNested call.name call.kind definition = .ok next) : call.Accepted draft next := by
  obtain ⟨index, middle, indexed, pushed, rfl⟩ := Draft.addNested_ok h
  obtain ⟨small, rfl⟩ := Draft.index_of_nextIndex indexed
  obtain ⟨fresh, rfl⟩ := Draft.pushField_ok pushed
  refine ⟨permitted, small, fresh, Draft.pushNested_key _ _, ?_, ?_⟩
  · rw [Draft.pushNested_fields, field, brought]
    rfl
  · intro inner member
    rw [brought]
    rcases Draft.mem_pushNested_nested member with known | rfl
    · exact .inl known
    · exact .inr rfl

theorem accepted_of_apply {call : Addition} {draft next : Draft} (h : call.apply draft = .ok next) :
    call.Accepted draft next := by
  cases call with
  | plain name kind =>
    obtain ⟨plain, index, indexed, pushed⟩ := Draft.addField_ok h
    obtain ⟨small, rfl⟩ := Draft.index_of_nextIndex indexed
    obtain ⟨fresh, rfl⟩ := Draft.pushField_ok pushed
    exact ⟨plain, small, fresh, rfl, rfl, fun inner member => .inl member⟩
  | portable name definition => exact accepted_of_addNested rfl rfl h
  | portableArray name definition => exact accepted_of_addNested rfl rfl h

theorem exists_apply {call : Addition} {draft : Draft} (permitted : call.Permitted)
    (small : draft.fields.length < 0x80000000)
    (fresh : ∀ known ∈ draft.fields, known.name ≠ call.name) :
    ∃ next, call.apply draft = .ok next := by
  cases call with
  | plain name kind =>
    exact Draft.addField_of_fresh permitted small fresh
  | portable name definition | portableArray name definition =>
    exact Draft.addNested_of_fresh small fresh

/-- A call succeeds exactly if its kind goes with what it brings along, there is an index left and
    the name is new. -/
theorem exists_apply_iff (call : Addition) (draft : Draft) :
    (∃ next, call.apply draft = .ok next) ↔
      call.Permitted ∧ draft.fields.length < 0x80000000 ∧
        ∀ known ∈ draft.fields, known.name ≠ call.name := by
  constructor
  · rintro ⟨next, made⟩
    have accepted := accepted_of_apply made
    exact ⟨accepted.permitted, accepted.small, accepted.fresh⟩
  · rintro ⟨permitted, small, fresh⟩
    exact exists_apply permitted small fresh

/-- Makes one call after the other, whether they succeed or fail, and answers with the outcomes. -/
def drive (calls : List Addition) : Act Draft (List (Except Failure Unit)) :=
  Act.collect (fun call => call.perform.attempt) calls

theorem drive_cons {call : Addition} {more : List Addition} {draft next reached : Draft}
    {outcome : Except Failure Unit} {outcomes : List (Except Failure Unit)}
    (first : call.perform.attempt draft = (.ok outcome, next))
    (ran : drive more next = (.ok outcomes, reached)) :
    drive (call :: more) draft = (.ok (outcome :: outcomes), reached) := by
  unfold drive Act.collect
  rw [Act.bind_of_ok first]
  exact Act.bind_of_ok ran

/-- The calls that succeeded. -/
def succeeded (calls : List Addition) (outcomes : List (Except Failure Unit)) : List Addition :=
  (calls.zip outcomes).filterMap fun made => made.2.toOption.map fun _ => made.1

theorem mem_of_mem_succeeded {calls : List Addition} {outcomes : List (Except Failure Unit)}
    {call : Addition} (member : call ∈ succeeded calls outcomes) : call ∈ calls := by
  obtain ⟨⟨made, outcome⟩, among, kept⟩ := List.mem_filterMap.mp member
  obtain ⟨-, -, rfl⟩ := Option.map_eq_some_iff.mp kept
  exact (List.of_mem_zip among).1

/-- The fields of a list of calls, with their places as indices. -/
def fieldsOf (calls : List Addition) : List Field :=
  calls.mapIdx fun place call => call.field (Int32.ofNat place)

/-- What a draft owes to the calls on it that succeeded. -/
structure Recorded (key : ClassKey) (calls : List Addition) (draft : Draft) : Prop where
  key : draft.key = key
  fields : draft.fields = fieldsOf calls
  brought : ∀ inner ∈ draft.nested, ∃ call ∈ calls, call.brought? = some inner
  consistent : draft.Consistent
  complete : draft.Complete

variable {key : ClassKey} {calls : List Addition} {draft next : Draft}

theorem recorded_start (key : ClassKey) : Recorded key [] (.start key) :=
  ⟨rfl, rfl, by simp [Draft.start], Draft.consistent_start key, Draft.complete_start key⟩

theorem consistent_of_apply {call : Addition} (consistent : draft.Consistent)
    (h : call.apply draft = .ok next) : next.Consistent := by
  cases call with
  | plain name kind => exact consistent.addField h
  | portable name definition | portableArray name definition => exact consistent.addNested rfl h

theorem complete_of_apply {call : Addition} (complete : draft.Complete)
    (h : call.apply draft = .ok next) : next.Complete := by
  cases call with
  | plain name kind => exact complete.addField h
  | portable name definition | portableArray name definition => exact complete.addNested h

/-- One more call that succeeded. -/
theorem Recorded.step {call : Addition} (recorded : Recorded key calls draft)
    (h : call.apply draft = .ok next) : Recorded key (calls ++ [call]) next := by
  have accepted := accepted_of_apply h
  refine ⟨accepted.key.trans recorded.key, ?_, ?_, consistent_of_apply recorded.consistent h,
    complete_of_apply recorded.complete h⟩
  · rw [accepted.fields, recorded.fields]
    simp [fieldsOf, List.mapIdx_append]
  · intro inner member
    rcases accepted.nested inner member with known | new
    · obtain ⟨other, among, brings⟩ := recorded.brought inner known
      exact ⟨other, List.mem_append_left _ among, brings⟩
    · exact ⟨call, by simp, new⟩

/-- Whatever calls are made, succeeding or failing, the draft has the fields of those that
    succeeded. -/
theorem Recorded.drive (recorded : Recorded key calls draft) (more : List Addition) :
    ∃ outcomes reached, Addition.drive more draft = (.ok outcomes, reached) ∧
      outcomes.length = more.length ∧ Recorded key (calls ++ succeeded more outcomes) reached := by
  induction more generalizing calls draft with
  | nil => exact ⟨[], draft, rfl, rfl, by simpa [succeeded] using recorded⟩
  | cons call more ih =>
    cases made : call.apply draft with
    | ok next =>
      obtain ⟨outcomes, reached, ran, length, after⟩ := ih (recorded.step made)
      have first : call.perform.attempt draft = (.ok (.ok ()), next) := by
        rw [Act.attempt, perform_eq_inPlace, Draft.inPlace_of_ok made]
      refine ⟨.ok () :: outcomes, reached, drive_cons first ran, by simp [length], ?_⟩
      simpa [succeeded, Except.toOption] using after
    | error failure =>
      obtain ⟨outcomes, reached, ran, length, after⟩ := ih recorded
      have first : call.perform.attempt draft = (.ok (.error failure), draft) := by
        rw [Act.attempt, perform_eq_inPlace, Draft.inPlace_of_error made]
      refine ⟨.error failure :: outcomes, reached, drive_cons first ran, by simp [length], ?_⟩
      simpa [succeeded, Except.toOption] using after

/-- A definition as it comes of a run of calls with the given outcomes, which reached the draft. -/
structure Yields (key : ClassKey) (calls : List Addition) (outcomes : List (Except Failure Unit))
    (draft : Draft) (definition : ClassDefinition) : Prop where
  key : definition.key = key
  answered : outcomes.length = calls.length
  fields : definition.fields = fieldsOf (succeeded calls outcomes)
  orderly : definition.Orderly
  wellFormed : definition.WellFormed
  brought : ∀ inner ∈ definition.nested,
    ∃ call ∈ succeeded calls outcomes, call.brought? = some inner
  refused : ∀ (call : Addition) (failure : Failure) (reached : Draft),
    call.perform draft = (.error failure, reached) → reached = draft
  accepted : ∀ call : Addition,
    (∃ next, call.apply draft = .ok next ∧ call.perform draft = (.ok (), next)) ↔
      call.Permitted ∧ definition.fields.length < 0x80000000 ∧
        definition.hasField call.name = false

theorem perform_error {call : Addition} {reached : Draft} {failure : Failure}
    (h : call.perform draft = (.error failure, reached)) : reached = draft := by
  rw [perform_eq_inPlace] at h
  unfold Draft.inPlace at h
  split at h <;> cases h
  rfl

theorem hasField_eq_false_iff {definition : ClassDefinition} {name : String} :
    definition.hasField name = false ↔ ∀ known ∈ definition.fields, known.name ≠ name := by
  simp [ClassDefinition.hasField, ClassDefinition.field?]

/-- Whatever calls are made on a new draft, each succeeding or failing, a definition can be built
    that has exactly the fields of those that succeeded, in order and found by name, and every
    class that they refer to; and the next call either leaves the draft alone or succeeds. -/
theorem exists_yields (key : ClassKey) (calls : List Addition)
    (wellFormed : ∀ call ∈ calls, call.WellFormed) :
    ∃ outcomes draft definition, drive calls (.start key) = (.ok outcomes, draft) ∧
      draft.build = .ok definition ∧ Yields key calls outcomes draft definition := by
  obtain ⟨outcomes, draft, ran, answered, recorded⟩ := (recorded_start key).drive calls
  rw [List.nil_append] at recorded
  have built := Draft.build_of_complete recorded.complete
  have inner : ∀ inner ∈ draft.nested, inner.WellFormed := by
    intro inner member
    obtain ⟨call, among, brings⟩ := recorded.brought inner member
    exact wellFormed call (mem_of_mem_succeeded among) inner brings
  have whole := ClassDefinition.wellFormed_of_build recorded.consistent inner built
  refine ⟨outcomes, draft, _, ran, built, recorded.key, answered, recorded.fields, whole.orderly,
    whole, recorded.brought, fun call failure reached => perform_error, ?_⟩
  intro call
  rw [hasField_eq_false_iff, ← exists_apply_iff call draft]
  constructor
  · rintro ⟨next, made, -⟩
    exact ⟨next, made⟩
  · rintro ⟨next, made⟩
    exact ⟨next, made, by rw [perform_eq_inPlace, Draft.inPlace_of_ok made]⟩

/-- A class that is brought along. -/
def bareClass : ClassDefinition := .fieldless ⟨7, 2⟩

/-- Calls of which the second, third and last must fail, and of which two bring the same class. -/
def mixedCalls : List Addition :=
  [.plain "id" (.scalar .int), .plain "id" (.scalar .long), .plain "item" .portable,
    .portable "item" bareClass, .portableArray "items" bareClass, .portable "id" bareClass]

theorem wellFormed_mixedCalls : ∀ call ∈ mixedCalls, call.WellFormed := by
  intro call among definition brings
  suffices same : definition = bareClass from same ▸ ClassDefinition.wellFormed_fieldless _
  simp only [mixedCalls, List.mem_cons, List.not_mem_nil, or_false] at among
  rcases among with rfl | rfl | rfl | rfl | rfl | rfl <;> cases brings <;> rfl

theorem exists_yields_mixedCalls :
    (∀ call ∈ mixedCalls, call.WellFormed) ∧
      ∃ outcomes draft definition,
        outcomes = [.ok (), .error (.duplicateField "id" 1),
          .error (.needsNestedDefinition .portable), .ok (), .ok (),
          .error (.duplicateField "id" 1)] ∧
        drive mixedCalls (.start ⟨1, 0⟩) = (.ok outcomes, draft) ∧
        draft.build = .ok definition ∧ Yields ⟨1, 0⟩ mixedCalls outcomes draft definition := by
  obtain ⟨outcomes, draft, definition, ran, built, yields⟩ :=
    exists_yields ⟨1, 0⟩ mixedCalls wellFormed_mixedCalls
  have made : (drive mixedCalls (.start ⟨1, 0⟩)).1 =
      .ok [.ok (), .error (.duplicateField "id" 1), .error (.needsNestedDefinition .portable),
        .ok (), .ok (), .error (.duplicateField "id" 1)] := by
    rfl
  rw [ran] at made
  exact ⟨wellFormed_mixedCalls, outcomes, draft, definition, Except.ok.inj made, ran, built, yields⟩

end Addition

end ObjectWire
