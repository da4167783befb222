import Mathlib.Data.List.Nodup
import ObjectWire.Proofs.ClassDefinition.Coherent
import ObjectWire.Proofs.ClassDefinition.Received
import ObjectWire.Proofs.Wire.Progress

/-!
# What is kept of a layout

A layout from elsewhere may say too much: it may nest a definition twice, and it may have fields
that refer to a class without holding objects of it.  Reading drops both.  What is kept is orderly
at every level, and it is written with no more bytes than were read.
-/

namespace ObjectWire

namespace Wire

theorem length_classKey (key : ClassKey) : (classKey key).length = 8 := by
  simp [classKey, int]

theorem length_field {f : Field} {run : Bytes} (h : field f = .ok run) :
    run.length = Utf8.width f.name + 17 := by
  obtain ⟨name, written, rfl⟩ := field_ok h
  obtain ⟨front, counted, rfl⟩ := Act.settled_map_ok written
  obtain ⟨-, rfl⟩ := Input.lt_of_length_ok counted
  simp only [List.length_append, length_classKey, int, BigEndian.length_encode, List.length_cons,
    List.length_nil, Utf8.width]
  omega

end Wire

namespace ClassDefinition

/-- What readers and writers of objects rely on at one level of a definition. -/
structure Orderly (level : ClassDefinition) : Prop where
  placed : ∀ (i : Nat) (field : Field), level.fields[i]? = some field → field.index.toInt = i
  named : (level.fields.map Field.name).Nodup
  found : ∀ (name : String) (field : Field),
    level.field? name = some field ↔ field ∈ level.fields ∧ field.name = name
  attached : ∀ field ∈ level.fields, field.kind.isPortable = true →
    ∃ inner ∈ level.nested, inner.key = field.nested
  distinct : (level.nested.map key).Nodup
  plain : ∀ field ∈ level.fields, field.kind.isPortable = false → field.nested = ⟨0, 0⟩

variable {definition part : ClassDefinition}

/-- Where names are distinct, a name finds the field that has it. -/
theorem field?_eq_some_iff (named : (definition.fields.map Field.name).Nodup) {name : String}
    {field : Field} :
    definition.field? name = some field ↔ field ∈ definition.fields ∧ field.name = name := by
  unfold field?
  constructor
  · intro found
    have matched := List.find?_some found
    exact ⟨List.mem_of_find?_eq_some found, of_decide_eq_true matched⟩
  · rintro ⟨member, rfl⟩
    cases found : definition.fields.find? fun known => known.name = field.name with
    | none =>
      have absent := List.find?_eq_none.mp found field member
      exact absurd (decide_eq_true rfl) absent
    | some known =>
      have matched := List.find?_some found
      have among := List.mem_of_find?_eq_some found
      rw [List.inj_on_of_nodup_map named among member (of_decide_eq_true matched)]

theorem WellFormed.orderly (wellFormed : definition.WellFormed) : definition.Orderly where
  placed := wellFormed.complete.placed
  named := wellFormed.consistent.named
  found _ _ := field?_eq_some_iff wellFormed.consistent.named
  attached := wellFormed.complete.attached
  distinct := wellFormed.consistent.distinct
  plain := wellFormed.consistent.plain

theorem WellFormed.of_partOf (wellFormed : definition.WellFormed)
    (within : part.PartOf definition) :
    part.WellFormed := by
  induction within with
  | whole definition => exact wellFormed
  | inside member _ ih => exact ih (wellFormed.nested _ member)

end ClassDefinition

namespace Input

variable {input rest : Input}

theorem remaining_of_string {text : String} (h : string input = (.ok text, rest)) :
    rest.remaining + (Utf8.width text + 4) ≤ input.remaining := by
  obtain ⟨n, counted, declared, h⟩ := Act.bind_ok h
  obtain ⟨run, taken, read, h⟩ := Act.bind_ok h
  cases decoded : Utf8.decode run with
  | error fault =>
    simp only [decoded] at h
    cases h
  | ok found =>
    simp only [decoded] at h
    cases h
    have front := costs_entries (.negativeLength .string) input counted n declared
    have back := costs_bytes n counted rest run read
    have wide := Utf8.width_of_decode decoded
    rw [(bytes_ok read).1] at wide
    omega

/-- A field is written with as many bytes as were read, or with fewer. -/
theorem remaining_of_field {f : Field} {run : Bytes} (h : field input = (.ok f, rest))
    (written : Wire.field f = .ok run) : rest.remaining + run.length ≤ input.remaining := by
  rw [Wire.length_field written]
  obtain ⟨index, afterIndex, indexed, h⟩ := Act.bind_ok h
  obtain ⟨name, afterName, named, h⟩ := Act.bind_ok h
  obtain ⟨number, afterNumber, numbered, h⟩ := Act.bind_ok h
  cases known : FieldKind.ofNumber? number.toInt with
  | none =>
    simp only [known] at h
    cases h
  | some kind =>
    simp only [known] at h
    obtain ⟨nested, reached, referred, h⟩ := Act.bind_ok h
    cases h
    have first := costs_int input afterIndex index indexed
    have second := remaining_of_string named
    have third := costs_byte afterName afterNumber number numbered
    have fourth := costs_classKey afterNumber rest nested referred
    show rest.remaining + (Utf8.width name + 17) ≤ input.remaining
    omega

theorem remaining_of_fieldsInto {count : Nat} {draft next : Draft}
    (h : fieldsInto count draft input = (.ok next, rest)) :
    ∃ items, next.fields = draft.fields ++ items ∧
      ∀ run, Wire.fields items = .ok run → rest.remaining + run.length ≤ input.remaining := by
  induction count generalizing draft input with
  | zero =>
    cases h
    exact ⟨[], (List.append_nil _).symm, by rintro _ ⟨⟩; exact Nat.le_refl _⟩
  | succ count ih =>
    obtain ⟨f, middle, read, h⟩ := Act.bind_ok h
    obtain ⟨pushed, reached, lifted, h⟩ := Act.bind_ok h
    obtain ⟨kept, rfl⟩ := Act.lift_ok lifted
    obtain ⟨-, rfl⟩ := Draft.pushField_ok kept
    obtain ⟨items, fields, bound⟩ := ih h
    refine ⟨f :: items, by simpa using fields, fun run written => ?_⟩
    obtain ⟨front, first, written⟩ := Act.settled_bind_ok written
    obtain ⟨back, others, written⟩ := Act.settled_bind_ok written
    cases written
    have here := remaining_of_field read first
    have later := bound back others
    rw [List.length_append]
    omega

/-- Nested definitions that are dropped were read as well. -/
theorem remaining_of_nestedInto {step : Act Input ClassDefinition}
    (each : ∀ {before after : Input} {definition : ClassDefinition} {run : Bytes},
      step before = (.ok definition, after) → definition.layout = .ok run →
        after.remaining + run.length ≤ before.remaining)
    (forward : step.Within Advances) {count : Nat} {draft next : Draft}
    (h : nestedInto step count draft input = (.ok next, rest)) :
    ∃ items, next.nested = draft.nested ++ items ∧
      ∀ run, ClassDefinition.layoutOfAll items = .ok run →
        rest.remaining + run.length ≤ input.remaining := by
  induction count generalizing draft input with
  | zero =>
    cases h
    exact ⟨[], (List.append_nil _).symm, by rintro _ ⟨⟩; exact Nat.le_refl _⟩
  | succ count ih =>
    obtain ⟨definition, middle, read, h⟩ := Act.bind_ok h
    obtain ⟨items, nested, bound⟩ := ih h
    unfold Draft.pushNested at nested
    split at nested
    case isTrue =>
      refine ⟨items, nested, fun run written => ?_⟩
      have here := Advances.remaining_le (Act.within_of_ok forward read)
      have later := bound run written
      omega
    case isFalse =>
      refine ⟨definition :: items, by simpa using nested, fun run written => ?_⟩
      obtain ⟨front, first, written⟩ := Act.settled_bind_ok written
      obtain ⟨back, others, written⟩ := Act.settled_bind_ok written
      cases written
      have here := each read first
      have later := bound back others
      rw [List.length_append]
      omega

/-- The layout of a definition that was read has at most as many bytes as were read. -/
theorem remaining_of_layoutWithin {levels : Nat} {definition : ClassDefinition} {run : Bytes}
    (h : layoutWithin levels input = (.ok definition, rest))
    (written : definition.layout = .ok run) : rest.remaining + run.length ≤ input.remaining := by
  induction levels generalizing input rest definition run with
  | zero => cases h
  | succ levels ih =>
    obtain ⟨key, afterKey, fieldCount, afterFieldCount, withFields, afterFields, nestedCount,
      afterNestedCount, draft, keyed, fieldsCounted, fieldsRead, nestedCounted, nestedRead,
      built⟩ := layoutWithin_ok h
    obtain ⟨-, rfl⟩ := Draft.build_ok built
    obtain ⟨fields, fieldsKept, fieldsBound⟩ := remaining_of_fieldsInto fieldsRead
    obtain ⟨nested, nestedKept, nestedBound⟩ :=
      remaining_of_nestedInto ih (advances_layoutWithin levels) nestedRead
    obtain ⟨-, unchanged⟩ := length_of_nestedInto nestedRead
    obtain ⟨-, none⟩ := fieldsInto_ok fieldsRead (Draft.consistent_start key)
    simp only [Draft.start, List.nil_append] at fieldsKept
    rw [none, Draft.start, List.nil_append] at nestedKept
    obtain ⟨fieldEntries, fieldRun, nestedEntries, nestedRun, fieldsDeclared, fieldsWritten,
      nestedDeclared, nestedWritten, rfl⟩ := ClassDefinition.layout_ok written
    obtain ⟨-, rfl⟩ := Wire.entries_ok fieldsDeclared
    obtain ⟨-, rfl⟩ := Wire.entries_ok nestedDeclared
    rw [unchanged, fieldsKept] at fieldsWritten
    rw [nestedKept] at nestedWritten
    have first := costs_classKey input afterKey key keyed
    have second := costs_entries _ afterKey afterFieldCount fieldCount fieldsCounted
    have third := fieldsBound fieldRun fieldsWritten
    have fourth := costs_entries _ afterFields afterNestedCount nestedCount nestedCounted
    have fifth := nestedBound nestedRun nestedWritten
    simp only [List.length_append, Wire.length_classKey, BigEndian.length_encode]
    omega

end Input

namespace ClassDefinition

/-- Whatever bytes a layout is read from, every level of what comes out is orderly, at most
    `maxDefinitionLevels` levels are nested, and it can be written again, with no more bytes than
    were taken, and read back as the same definition. -/
theorem layout_read_is_orderly {input rest : Input} {definition : ClassDefinition}
    (read : Input.layout input = (.ok definition, rest)) :
    (∀ part : ClassDefinition, part.PartOf definition → part.Orderly) ∧
      definition.depth ≤ Failure.maxDefinitionLevels ∧
      ∃ taken run, input.rest = taken ++ rest.rest ∧
        rest.position = input.position + taken.length ∧
        definition.layout = .ok run ∧ run.length ≤ taken.length ∧
        ∀ more position, ∃ again,
          Input.layout ⟨run ++ more, position⟩ = (.ok again, ⟨more, position + run.length⟩) ∧
          again.same definition = true := by
  have wellFormed := Input.wellFormed_of_layoutWithin read
  have shallow := Input.depth_of_layoutWithin read
  obtain ⟨run, written⟩ := (exists_layout_iff definition).mpr (Input.fits_of_layoutWithin read)
  obtain ⟨taken, split, moved⟩ := Act.within_of_ok (Input.advances_layoutWithin _) read
  refine ⟨fun part within => (wellFormed.of_partOf within).orderly, Nat.le_of_lt_succ shallow,
    taken, run, split, moved, written, ?_, ?_⟩
  · have bound := Input.remaining_of_layoutWithin read written
    rw [Input.remaining, Input.remaining, split, List.length_append] at bound
    omega
  · intro more position
    exact ⟨definition.bare, Input.takes_layoutWithin wellFormed shallow written more position,
      bare_same definition⟩

/-- A number that is said to refer to a class, and a nested definition that is there twice: of 84
    bytes, 68 are written again. -/
theorem layout_read_is_orderly_excess :
    let street : Bytes := [0, 0, 0, 2, 0, 0, 0, 0, 0, 0, 0, 0, 0, 0, 0, 0]
    let number : Bytes := [0, 0, 0, 0, 0, 0, 0, 1, 0x6E, 5, 0, 0, 0, 7, 0, 0, 0, 9]
    let home : Bytes := [0, 0, 0, 1, 0, 0, 0, 1, 0x73, 10, 0, 0, 0, 2, 0, 0, 0, 0]
    let excess : Bytes := [0, 0, 0, 1, 0, 0, 0, 0, 0, 0, 0, 2] ++ number ++ home ++ [0, 0, 0, 2] ++
      street ++ street
    excess.length = 84 ∧ ∃ definition rest,
      Input.layout (.ofBytes excess) = (.ok definition, rest) ∧ definition.Orderly ∧
      ∃ run, definition.layout = .ok run ∧ run.length = 68 ∧ ∃ again,
        Input.layout ⟨run, 0⟩ = (.ok again, ⟨[], 68⟩) ∧ again.same definition = true := by
  intro street number home excess
  have written : (Input.layout (.ofBytes excess)).1.toOption.bind
      (fun definition => definition.layout.toOption.map List.length) = some 68 := by decide +kernel
  rcases ran : Input.layout (.ofBytes excess) with ⟨outcome, rest⟩
  rw [ran] at written
  obtain ⟨definition, settled, written⟩ := Option.bind_eq_some_iff.mp written
  obtain ⟨form, laidOut, length⟩ := Option.map_eq_some_iff.mp written
  obtain rfl := Act.settled_of_toOption settled
  obtain ⟨orderly, -, taken, run, -, -, written, -, again⟩ := layout_read_is_orderly ran
  have same : run = form := by
    rw [Act.settled_of_toOption laidOut] at written
    exact (Except.ok.inj written).symm
  obtain ⟨parsed, reread, agreed⟩ := again [] 0
  rw [same, List.append_nil, length] at reread
  exact ⟨rfl, definition, rest, rfl, orderly definition (.whole definition), form,
    Act.settled_of_toOption laidOut, length, parsed, reread, agreed⟩

end ClassDefinition

end ObjectWire
