import ObjectWire.Portable.BodyWriter
import ObjectWire.Proofs.Act
import ObjectWire.Proofs.ClassDefinition.WellFormed
import ObjectWire.Proofs.Wire.Takes

/-!
# Bodies as sheets

A body says for every field of the class where its data start, and then has the data in the order
in which the fields were begun.  A sheet is that list of data, and its body follows from it.
Beginning a field puts an empty entry at the end of the sheet, writing data extends the last entry,
and a field is found again at its entry, wherever that is.
-/

namespace ObjectWire

/-- The data in a body, under the names of their fields, in the order of writing. -/
abbrev Sheet : Type := List (String × Bytes)

theorem Output.patchInt_ok {position : Nat} {n : Int32} {output after : Output}
    (h : patchInt position n output = (.ok (), after)) :
    after.content =
      output.content.take position ++ Wire.int n ++ output.content.drop (position + 4) := by
  unfold patchInt at h
  by_cases inside : position + 4 ≤ output.size
  · rw [if_pos inside] at h
    cases h
    rfl
  · rw [if_neg inside] at h
    cases h

namespace Sheet

variable {sheet : Sheet} {name : String} {definition : ClassDefinition} {field : Field}

/-- The names of the fields that were begun. -/
def names (sheet : Sheet) : List String := sheet.map Prod.fst

/-- The data, one after the other. -/
def data (sheet : Sheet) : Bytes := sheet.flatMap Prod.snd

/-- Where the data of a field start, if the first data start at `base`. -/
def offset (base : Nat) (name : String) : Sheet → Int32
  | [] => BodyReader.unwritten
  | (known, run) :: others =>
    if known = name then Int32.ofNat base else offset (base + run.length) name others

/-- The table of the offsets of all fields. -/
def table (definition : ClassDefinition) (sheet : Sheet) : Bytes :=
  definition.fields.flatMap fun field =>
    Wire.int (sheet.offset (BodyReader.tableSize definition) field.name)

/-- The body that a sheet comes to. -/
def body (definition : ClassDefinition) (sheet : Sheet) : Bytes :=
  sheet.table definition ++ sheet.data

theorem length_int (n : Int32) : (Wire.int n).length = 4 := by simp [Wire.int]

/-! Tables of entries that are four bytes each. -/

section Entries

variable {α : Type} {entry : α → Bytes} {items : List α} {item : α} {i : Nat}

theorem length_entries (width : ∀ item, (entry item).length = 4) (items : List α) :
    (items.flatMap entry).length = items.length * 4 := by
  induction items with
  | nil => rfl
  | cons item items ih =>
    rw [List.flatMap_cons, List.length_append, width, ih, List.length_cons]
    omega

theorem split_at (found : items[i]? = some item) :
    ∃ front back, items = front ++ item :: back ∧ front.length = i := by
  obtain ⟨inside, rfl⟩ := List.getElem?_eq_some_iff.mp found
  refine ⟨items.take i, items.drop (i + 1), ?_, by simp; omega⟩
  rw [← List.drop_eq_getElem_cons inside, List.take_append_drop]

theorem drop_entries (width : ∀ item, (entry item).length = 4) (found : items[i]? = some item) :
    ∃ rest, (items.flatMap entry).drop (i * 4) = entry item ++ rest := by
  obtain ⟨front, back, rfl, rfl⟩ := split_at found
  refine ⟨back.flatMap entry, ?_⟩
  rw [List.flatMap_append, List.flatMap_cons, ← length_entries width front, List.drop_left]

/-- A table of entries in which one entry is another is the table with that entry overwritten,
    and so is everything that begins with the table. -/
theorem patch_entries (entry other : α → Bytes) (width : ∀ item, (entry item).length = 4)
    (found : items[i]? = some item)
    (others : ∀ j known, items[j]? = some known → j ≠ i → other known = entry known)
    (rest : Bytes) :
    (items.flatMap entry ++ rest).take (i * 4) ++ other item ++
      (items.flatMap entry ++ rest).drop (i * 4 + 4) = items.flatMap other ++ rest := by
  obtain ⟨front, back, rfl, rfl⟩ := split_at found
  have before : front.flatMap other = front.flatMap entry := by
    rw [List.flatMap_def, List.flatMap_def, List.map_congr_left fun known member => ?_]
    obtain ⟨j, inside, rfl⟩ := List.mem_iff_getElem.mp member
    refine others j _ ?_ (Nat.ne_of_lt inside)
    rw [List.getElem?_append_left inside, List.getElem?_eq_getElem inside]
  have behind : back.flatMap other = back.flatMap entry := by
    rw [List.flatMap_def, List.flatMap_def, List.map_congr_left fun known member => ?_]
    obtain ⟨j, inside, rfl⟩ := List.mem_iff_getElem.mp member
    refine others (front.length + 1 + j) _ ?_ (by omega)
    rw [List.getElem?_append_right (by omega)]
    simp [show front.length + 1 + j - front.length = j + 1 by omega]
  have skipped : (front.flatMap entry ++ entry item).length = front.length * 4 + 4 := by
    rw [List.length_append, length_entries width, width]
  simp only [List.flatMap_append, List.flatMap_cons, before, behind, List.append_assoc]
  rw [← skipped, ← length_entries width front, List.take_left,
    ← List.append_assoc _ (entry item) (back.flatMap entry ++ rest), List.drop_left]

end Entries

theorem length_table (definition : ClassDefinition) (sheet : Sheet) :
    (sheet.table definition).length = BodyReader.tableSize definition :=
  length_entries (fun _ => length_int _) definition.fields

theorem length_body (definition : ClassDefinition) (sheet : Sheet) :
    (sheet.body definition).length = BodyReader.tableSize definition + sheet.data.length := by
  rw [body, List.length_append, length_table]

theorem body_nil (definition : ClassDefinition) :
    body definition [] =
      (List.replicate definition.fields.length (Wire.int BodyReader.unwritten)).flatten := by
  rw [body, table, List.flatMap_def]
  simp [offset, data, List.map_const']

theorem offset_of_absent {base : Nat} (absent : name ∉ sheet.names) :
    sheet.offset base name = BodyReader.unwritten := by
  induction sheet generalizing base with
  | nil => rfl
  | cons entry others ih =>
    obtain ⟨known, run⟩ := entry
    simp only [names, List.map_cons, List.mem_cons, not_or] at absent
    rw [offset, if_neg (Ne.symm absent.1)]
    exact ih absent.2

/-- The data of a field start behind all that was written before. -/
theorem offset_at {base : Nat} {front back : Sheet} {run : Bytes} (absent : name ∉ front.names) :
    offset base name (front ++ (name, run) :: back) = Int32.ofNat (base + front.data.length) := by
  induction front generalizing base with
  | nil => simp [offset, data]
  | cons entry front ih =>
    obtain ⟨known, before⟩ := entry
    simp only [names, List.map_cons, List.mem_cons, not_or] at absent
    rw [List.cons_append, offset, if_neg (Ne.symm absent.1), ih absent.2]
    simp [data, Nat.add_assoc]

/-- What comes last does not move what was written before. -/
theorem offset_append {base : Nat} {other : String} {run : Bytes} (h : other ≠ name) :
    offset base name (sheet ++ [(other, run)]) = offset base name sheet := by
  induction sheet generalizing base with
  | nil => simp [offset, h]
  | cons entry sheet ih =>
    obtain ⟨known, before⟩ := entry
    rw [List.cons_append, offset, offset, ih]

/-- How much of the last field is written makes no difference to the offsets. -/
theorem offset_last {base : Nat} {other : String} (run more : Bytes) :
    offset base name (sheet ++ [(other, run)]) = offset base name (sheet ++ [(other, more)]) := by
  induction sheet generalizing base with
  | nil => simp [offset]
  | cons entry sheet ih =>
    obtain ⟨known, before⟩ := entry
    rw [List.cons_append, List.cons_append, offset, offset, ih]

theorem body_append (definition : ClassDefinition) (sheet : Sheet) (name : String)
    (run more : Bytes) :
    body definition (sheet ++ [(name, run)]) ++ more =
      body definition (sheet ++ [(name, run ++ more)]) := by
  have tables : table definition (sheet ++ [(name, run)]) =
      table definition (sheet ++ [(name, run ++ more)]) := by
    simp only [table, offset_last run (run ++ more)]
  rw [body, body, tables]
  simp [data]

end Sheet

namespace ClassDefinition

/-- Every field stands where its index says. -/
def Placed (definition : ClassDefinition) : Prop :=
  ∀ (i : Nat) (field : Field), definition.fields[i]? = some field → field.index.toInt = i

theorem WellFormed.placed {definition : ClassDefinition} (wellFormed : definition.WellFormed) :
    definition.Placed :=
  wellFormed.complete.placed

theorem Placed.index {definition : ClassDefinition} (placed : definition.Placed) {i : Nat}
    {field : Field} (place : definition.fields[i]? = some field) :
    field.index.toNatClampNeg = i := by
  rw [Int32.toNatClampNeg, placed i field place, Int.toNat_natCast]

/-- A name leads to a field that has the name and stands at its index. -/
theorem Placed.position {definition : ClassDefinition} (placed : definition.Placed)
    {name : String} {field : Field} (found : definition.field? name = some field) :
    field.name = name ∧ definition.fields[field.index.toNatClampNeg]? = some field := by
  refine ⟨by simpa using List.find?_some found, ?_⟩
  obtain ⟨i, inside, at_i⟩ := List.mem_iff_getElem.mp (List.mem_of_find?_eq_some found)
  have place : definition.fields[i]? = some field := by rw [List.getElem?_eq_getElem inside, at_i]
  rwa [placed.index place]

/-- The fields of a well-formed definition stand where their indices say, and a name leads to one
    of them. -/
theorem WellFormed.position {definition : ClassDefinition} (wellFormed : definition.WellFormed)
    {name : String} {field : Field} (found : definition.field? name = some field) :
    field.name = name ∧ definition.fields[field.index.toNatClampNeg]? = some field ∧
      ∀ j known, definition.fields[j]? = some known → j ≠ field.index.toNatClampNeg →
        known.name ≠ name := by
  obtain ⟨named, place⟩ := wellFormed.placed.position found
  refine ⟨named, place, fun j known other apart same => apart ?_⟩
  have inside := (List.getElem?_eq_some_iff.mp place).1
  have distinct : (definition.fields.map Field.name).Nodup := wellFormed.consistent.named
  have equal : (definition.fields.map Field.name)[field.index.toNatClampNeg]? =
      (definition.fields.map Field.name)[j]? := by
    rw [List.getElem?_map, List.getElem?_map, place, other, Option.map_some, Option.map_some, named,
      same]
  exact ((List.getElem?_inj (by simpa using inside) distinct).mp equal).symm

end ClassDefinition

namespace Sheet

/-- Putting an empty entry last overwrites the offset of its field with the size of the body. -/
theorem body_begin {definition : ClassDefinition} (wellFormed : definition.WellFormed)
    {sheet : Sheet} {name : String} {field : Field} (found : definition.field? name = some field)
    (fresh : name ∉ sheet.names) :
    (sheet.body definition).take (field.index.toNatClampNeg * 4) ++
        Wire.int (Int32.ofNat (sheet.body definition).length) ++
        (sheet.body definition).drop (field.index.toNatClampNeg * 4 + 4) =
      body definition (sheet ++ [(name, [])]) := by
  obtain ⟨named, place, others⟩ := wellFormed.position found
  have last : Wire.int (Int32.ofNat (sheet.body definition).length) =
      Wire.int (offset (BodyReader.tableSize definition) field.name (sheet ++ [(name, [])])) := by
    rw [named, offset_at fresh, length_body]
  rw [last, body, body, table, table]
  have patched := patch_entries
    (fun field => Wire.int (offset (BodyReader.tableSize definition) field.name sheet))
    (fun field =>
      Wire.int (offset (BodyReader.tableSize definition) field.name (sheet ++ [(name, [])])))
    (fun _ => length_int _) place
    (fun j known at_j apart => by rw [offset_append (Ne.symm (others j known at_j apart))])
    sheet.data
  rw [patched]
  simp [data]

end Sheet

namespace BodyWriter

/-- The body under construction is that of a sheet. -/
structure Holds (writer : BodyWriter) (definition : ClassDefinition) (sheet : Sheet) : Prop where
  describes : writer.definition = definition
  body : writer.body.content = sheet.body definition
  written : writer.written = definition.fields.map fun field => decide (field.name ∈ sheet.names)

theorem holds_start (definition : ClassDefinition) {buffer : Output} (clean : buffer.content = []) :
    (start definition buffer).Holds definition [] := by
  refine ⟨rfl, ?_, ?_⟩
  · rw [Sheet.body_nil, start, Output.append, clean]
    rfl
  · simp [start, Sheet.names, List.map_const']

variable {writer after : BodyWriter} {definition : ClassDefinition} {sheet : Sheet}
  {name : String}

theorem written_begin {field : Field} {written : List Bool} (wellFormed : definition.WellFormed)
    (found : definition.field? name = some field)
    (before : written = definition.fields.map fun field => decide (field.name ∈ sheet.names)) :
    written.set field.index.toNatClampNeg true =
      definition.fields.map fun field =>
        decide (field.name ∈ Sheet.names (sheet ++ [(name, [])])) := by
  obtain ⟨named, place, others⟩ := wellFormed.position found
  apply List.ext_getElem?
  intro j
  rw [before, List.getElem?_set, List.getElem?_map, List.getElem?_map]
  by_cases here : field.index.toNatClampNeg = j
  · have inside := (List.getElem?_eq_some_iff.mp place).1
    rw [if_pos here, if_pos (by simpa [← here] using inside), ← here, place]
    simp [Sheet.names, named]
  · rw [if_neg here]
    cases at_j : definition.fields[j]? with
    | none => rfl
    | some known =>
      have other := others j known at_j (Ne.symm here)
      have same : known.name ∈ sheet.names ↔ known.name ∈ Sheet.names (sheet ++ [(name, [])]) := by
        rw [Sheet.names, Sheet.names, List.map_append, List.mem_append]
        simp [other]
      rw [Option.map_some, Option.map_some, decide_eq_decide.mpr same]

/-- Beginning a field finds it with the kind asked for, not begun before, and puts it last. -/
theorem beginField_ok {kind : FieldKind} {declared : Int32} (wellFormed : definition.WellFormed)
    (holds : writer.Holds definition sheet)
    (h : beginField name kind writer = (.ok declared, after)) :
    ∃ field, definition.field? name = some field ∧ field.kind = kind ∧
      declared = field.nested.classId ∧ name ∉ sheet.names ∧
      after.Holds definition (sheet ++ [(name, [])]) := by
  obtain ⟨describes, body, written⟩ := holds
  obtain ⟨_, _, got, h⟩ := Act.bind_ok h
  cases got
  cases found : writer.definition.field? name with
  | none => simp only [found] at h; cases h
  | some field =>
    simp only [found] at h
    split at h
    case isTrue => cases h
    case isFalse same =>
      split at h
      case isTrue => cases h
      case isFalse fresh =>
        obtain ⟨_, marked, set, h⟩ := Act.bind_ok h
        cases set
        split at h
        case isTrue => cases h
        case isFalse small =>
          obtain ⟨_, patched, done, h⟩ := Act.bind_ok h
          cases h
          obtain ⟨reached, overwritten, rfl⟩ := Act.on_ok done
          rw [describes] at found
          obtain ⟨named, place, others⟩ := wellFormed.position found
          have new : name ∉ sheet.names := by
            rw [written, List.getElem?_map, place] at fresh
            simpa [named] using fresh
          refine ⟨field, found, Classical.not_not.mp same, rfl, new, describes, ?_, ?_⟩
          · rw [← Sheet.body_begin wellFormed found new, ← body]
            exact Output.patchInt_ok overwritten
          · exact written_begin wellFormed found written

end BodyWriter

end ObjectWire
