import ObjectWire.Proofs.Portable.Calls

/-!
# Write calls that fail

A write call that fails has either been refused before it began its field, because the class has
no such field, has it with another kind or had it begun already; then nothing has changed.  Or it
has begun its field, and the field is spent: it cannot be written any more, and it reads as what
stands where the body ended, which is what the call left of its data and then the data of the
fields that are written next.
-/

namespace ObjectWire

namespace BodyWriter

/-- A call has begun a field.  All other fields are as they were; this one, which had no data, is
    there for good, and its data are whatever comes behind the body as it was. -/
structure Commits (definition : ClassDefinition) (field : Field) (before after : BodyWriter) :
    Prop where
  blank : BodyReader.seek ⟨definition, before.body.content⟩ field.name field.kind = .ok none
  fresh : before.written[field.index.toNatClampNeg]? = some false
  marked : after.written = before.written.set field.index.toNatClampNeg true
  others : ∀ i < definition.fields.length, i ≠ field.index.toNatClampNeg →
    entry after.body.content i = entry before.body.content i
  data : before.body.content.drop (BodyReader.tableSize definition) <+:
    after.body.content.drop (BodyReader.tableSize definition)
  /-- No later call writes the field. -/
  spent : ∀ later : Frame.Open, after.Calls later.writer → ∀ write : FieldWrite,
    write.name = field.name → write.kind? = some field.kind →
      Frame.perform write later = (.error (.writtenTwice field.name), later)
  /-- What the call left behind the body stays there, and later calls write behind that. -/
  follows : ∀ later, after.Calls later →
    after.body.content.drop before.body.size <+: later.body.content.drop before.body.size
  /-- The field is found where the body ended, if that is not too far away to be an offset. -/
  reads : ∀ later, after.Calls later →
    BodyReader.seek ⟨definition, later.body.content⟩ field.name field.kind =
      .ok (if before.body.size < Wire.lengthLimit then
        some (.ofBytes (later.body.content.drop before.body.size)) else none)

variable {definition : ClassDefinition} {field : Field} {kind : FieldKind} {name : String}

/-- Where the entry of a field says the end of another body, or nothing if that is too far away,
    the field is found there. -/
theorem seek_entry {writer : BodyWriter} (found : definition.field? field.name = some field)
    {position : Nat} (behind : BodyReader.tableSize definition ≤ position)
    (inside : position ≤ writer.body.size)
    (at_position : entry writer.body.content field.index.toNatClampNeg =
      if position < Wire.lengthLimit then Wire.int (Int32.ofNat position)
      else Wire.int BodyReader.unwritten) :
    BodyReader.seek ⟨definition, writer.body.content⟩ field.name field.kind =
      .ok (if position < Wire.lengthLimit then
        some (.ofBytes (writer.body.content.drop position)) else none) := by
  by_cases small : position < Wire.lengthLimit
  · rw [if_pos small] at at_position ⊢
    exact seek_at found small behind inside at_position
  · rw [if_neg small] at at_position ⊢
    exact seek_blank found at_position

/-- What is behind the table is never cut off, so what is further behind is not either. -/
theorem Keeps.follows {before after : BodyWriter} (kept : Keeps definition before after)
    {position : Nat} (behind : BodyReader.tableSize definition ≤ position) :
    before.body.content.drop position <+: after.body.content.drop position := by
  obtain ⟨more, appended⟩ := kept.data
  have further := congrArg (List.drop (position - BodyReader.tableSize definition)) appended
  rw [List.drop_append, List.drop_drop, List.drop_drop, Nat.add_sub_cancel' behind] at further
  exact ⟨_, further⟩

theorem Keeps.size_le {before after : BodyWriter} (kept : Keeps definition before after)
    (room : BodyReader.tableSize definition ≤ before.body.size)
    (still : BodyReader.tableSize definition ≤ after.body.size) :
    before.body.size ≤ after.body.size := by
  have longer := kept.data.length_le
  rw [List.length_drop, List.length_drop] at longer
  rw [Output.size] at room still ⊢
  rw [Output.size]
  omega

/-- Beginning a field commits the writer to it, however the call goes on behind that. -/
theorem Stands.commits {writer now : BodyWriter} (placed : definition.Placed)
    (stands : writer.Stands definition) (admits : writer.Admits name kind field)
    (longer : (writer.begun field).Lengthens now) : Commits definition field writer now := by
  have inside := admits.inside placed stands.describes
  obtain ⟨begun, kept⟩ := stands.begun inside admits.fresh
  obtain ⟨after, further⟩ := begun.lengthens longer
  have found : definition.field? name = some field := stands.describes ▸ admits.found
  obtain ⟨named, -⟩ := placed.position found
  rw [← named] at found
  have index := stands.index_le inside
  have blank := stands.blank _ inside admits.fresh
  have marked : now.written[field.index.toNatClampNeg]? = some true := by
    rw [longer.written, BodyWriter.begun,
      List.getElem?_set_self (by rw [stands.marks]; exact inside)]
  have beginsHere : entry (writer.begun field).body.content field.index.toNatClampNeg =
      if writer.body.size < Wire.lengthLimit then Wire.int (Int32.ofNat writer.body.size)
      else Wire.int BodyReader.unwritten := by
    rw [entry_begun_self index, blank]
  have beginsMarked : (writer.begun field).written[field.index.toNatClampNeg]? = some true := by
    rw [← longer.written, marked]
  refine ⟨seek_blank found blank, ?_, longer.written, ?_, (kept.trans further).data, ?_, ?_, ?_⟩
  · have room : field.index.toNatClampNeg < writer.written.length := by rwa [stands.marks]
    have flag := List.getElem?_eq_getElem room
    cases unset : writer.written[field.index.toNatClampNeg] with
    | false => rw [flag, unset]
    | true => exact (admits.fresh (by rw [flag, unset])).elim
  · intro i known other
    rw [begun.entry_eq longer known, entry_begun_of_ne index other]
  · intro later calls write same call
    obtain ⟨lasts, keeps⟩ := calls.stands placed after
    apply Frame.perform_of_refused call
    have still := keeps.marks _ marked
    rw [refusal?, lasts.describes, same, found]
    dsimp only
    rw [if_neg (by simp), still]
    rfl
  · intro later calls
    obtain ⟨-, keeps⟩ := calls.stands placed after
    exact keeps.follows stands.room
  · intro later calls
    obtain ⟨lasts, keeps⟩ := calls.stands placed after
    have whole := (kept.trans further).trans keeps
    apply seek_entry found stands.room (whole.size_le stands.room lasts.room)
    rw [keeps.entries _ marked, further.entries _ beginsMarked, beginsHere]

end BodyWriter

namespace Frame

/-- A call that fails, after any earlier calls, was either refused before it began its field, and
    has changed nothing, or it has begun the field, and the writer is committed to it. -/
theorem failed_call {definition : ClassDefinition} (built : definition.Built) {buffer : Output}
    (clean : buffer.content = []) {state now : Open}
    (earlier : (BodyWriter.start definition buffer).Calls state.writer) {write : FieldWrite}
    {kind : FieldKind} (call : write.kind? = some kind) {failure : Failure}
    (failed : perform write state = (.error failure, now)) :
    (state.writer.refusal? write.name kind = some failure ∧ now = state) ∨
      (state.writer.refusal? write.name kind = none ∧
        now.writer.written ≠ state.writer.written ∧
        ∃ field, definition.field? write.name = some field ∧ field.kind = kind ∧
          BodyWriter.Commits definition field state.writer now.writer) := by
  have placed := built.wellFormed.placed
  obtain ⟨stands, -⟩ := earlier.stands placed (BodyWriter.stands_start definition clean)
  cases refused : state.writer.refusal? write.name kind with
  | some reason =>
    rw [perform_of_refused call refused] at failed
    cases failed
    exact .inl ⟨rfl, rfl⟩
  | none =>
    obtain ⟨field, admits⟩ := BodyWriter.exists_admits refused
    have longer := perform_of_admits call placed stands admits
    rw [failed] at longer
    have commits := stands.commits placed admits longer
    refine .inr ⟨rfl, fun same => ?_, field, stands.describes ▸ admits.found, admits.kind, commits⟩
    have flag := commits.fresh
    have inside := (List.getElem?_eq_some_iff.mp flag).1
    rw [← same, commits.marked, List.getElem?_set_self inside] at flag
    cases flag

/-- A class with a character and a number. -/
def characterAndNumber : ClassDefinition :=
  ⟨⟨9, 0⟩, [⟨"c", .scalar .char, 0, .none⟩, ⟨"x", .scalar .int, 1, .none⟩], [], none⟩

theorem characterAndNumber_built : characterAndNumber.Built :=
  .build (.addField (.addField (.start ⟨9, 0⟩) (rfl : Draft.addField "c" (.scalar .char) _ = _))
    (rfl : Draft.addField "x" (.scalar .int) _ = _)) rfl

/-- A character that takes more than 16 bits is refused after its field was begun. -/
theorem failed_call_of_wide_character :
    let state : Open := ⟨.start characterAndNumber (.empty 0), .start 0 (.ofSettings 16 64 1)⟩
    let (outcome, now) := perform (.data "c" (.scalar .char '😀')) state
    outcome = .error (.charTooWide '😀') ∧
      ∃ field, characterAndNumber.field? "c" = some field ∧ field.kind = .scalar .char ∧
        BodyWriter.Commits characterAndNumber field state.writer now.writer := by
  intro state
  rcases failed_call characterAndNumber_built rfl (.none state.writer)
    (rfl : FieldWrite.kind? (.data "c" (.scalar .char '😀')) = _)
    (rfl : perform (.data "c" (.scalar .char '😀')) state = _) with ⟨refused, -⟩ | ⟨-, -, commits⟩
  · cases refused
  · exact ⟨rfl, commits⟩

/-- The field then cannot be written with a character that fits, and reads as the first half of the
    number that is written next. -/
theorem failed_character_reads_as_number :
    let state : Open := ⟨.start characterAndNumber (.empty 0), .start 0 (.ofSettings 16 64 1)⟩
    let failed := perform (.data "c" (.scalar .char '😀')) state
    let next := perform (.data "x" (.scalar .int (0x00410042 : Int32))) failed.2
    let again := perform (.data "c" (.scalar .char 'a')) next.2
    failed.1 = .error (.charTooWide '😀') ∧ failed.2.writer.written ≠ state.writer.written ∧
      failed.2.writer.body.content ≠ state.writer.body.content ∧
      next.1 = .ok () ∧ again.1 = .error (.writtenTwice "c") ∧
      BodyReader.scalar ⟨characterAndNumber, next.2.writer.body.content⟩ .char "c" = .ok 'A' :=
  ⟨rfl, by decide, by decide, rfl, rfl, rfl⟩

end Frame

end ObjectWire
