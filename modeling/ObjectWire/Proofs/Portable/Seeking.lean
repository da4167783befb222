import ObjectWire.Portable.Frame
import ObjectWire.Proofs.Portable.FieldData
import ObjectWire.Proofs.Portable.Sheet

/-!
# Seeking fields

In the body that a sheet comes to, a field is found at its entry, however many fields were written
before it and whatever is written behind it.  Reading a field is reading what stands where it is
found; a field that is not there reads as the default of its kind.
-/

namespace ObjectWire

namespace BodyReader

variable {definition : ClassDefinition} {sheet : Sheet} {field : Field} {name : String}

theorem offsetOf_body (wellFormed : definition.WellFormed)
    (found : definition.field? name = some field) :
    offsetOf ⟨definition, sheet.body definition⟩ field =
      .ok (sheet.offset (tableSize definition) name) := by
  obtain ⟨named, place, -⟩ := wellFormed.position found
  have inside := (List.getElem?_eq_some_iff.mp place).1
  have room : field.index.toNatClampNeg * 4 ≤ (sheet.table definition).length := by
    rw [Sheet.length_table, tableSize]
    omega
  obtain ⟨rest, dropped⟩ := Sheet.drop_entries
    (fun field : Field => Sheet.length_int (sheet.offset (tableSize definition) field.name)) place
  have taken := Input.takes_int (sheet.offset (tableSize definition) name) (rest ++ sheet.data) 0
  rw [offsetOf, Sheet.body, List.drop_append_of_le_length room, Sheet.table, dropped, named,
    List.append_assoc]
  exact congrArg Prod.fst taken

theorem seek_undeclared {kind : FieldKind} {body : Bytes} (h : definition.field? name = none) :
    seek ⟨definition, body⟩ name kind = .ok none := by
  rw [seek, h]
  rfl

theorem seek_declared (wellFormed : definition.WellFormed)
    (found : definition.field? name = some field) :
    seek ⟨definition, sheet.body definition⟩ name field.kind =
      if sheet.offset (tableSize definition) name = unwritten then .ok none
      else if (tableSize definition : Int) ≤ (sheet.offset (tableSize definition) name).toInt &&
          (sheet.offset (tableSize definition) name).toInt ≤ (sheet.body definition).length then
        .ok (some (.ofBytes ((sheet.body definition).drop
          (sheet.offset (tableSize definition) name).toNatClampNeg)))
      else .error (.invalidOffset name (sheet.offset (tableSize definition) name)) := by
  rw [seek, found]
  dsimp only
  rw [if_neg (by simp), offsetOf_body wellFormed found]
  rfl

theorem seek_unwritten (wellFormed : definition.WellFormed)
    (found : definition.field? name = some field) (absent : name ∉ sheet.names) :
    seek ⟨definition, sheet.body definition⟩ name field.kind = .ok none := by
  rw [seek_declared wellFormed found, Sheet.offset_of_absent absent, if_pos rfl]

theorem seek_written {front back : Sheet} {run : Bytes} (wellFormed : definition.WellFormed)
    (found : definition.field? name = some field) (split : sheet = front ++ (name, run) :: back)
    (absent : name ∉ front.names) (small : (sheet.body definition).length < Wire.lengthLimit) :
    seek ⟨definition, sheet.body definition⟩ name field.kind =
      .ok (some (.ofBytes (run ++ back.data))) := by
  have data : sheet.data = front.data ++ (run ++ back.data) := by
    rw [split]
    simp [Sheet.data]
  have length : (sheet.body definition).length =
      tableSize definition + front.data.length + (run ++ back.data).length := by
    rw [Sheet.length_body, data, List.length_append]
    omega
  have offset : sheet.offset (tableSize definition) name =
      Int32.ofNat (tableSize definition + front.data.length) := by
    rw [split]
    exact Sheet.offset_at absent
  have fits : tableSize definition + front.data.length < Wire.lengthLimit := by omega
  have start : (Int32.ofNat (tableSize definition + front.data.length)).toInt =
      (tableSize definition + front.data.length : Nat) := Input.toInt_ofNat_of_lt fits
  have marked : Int32.ofNat (tableSize definition + front.data.length) ≠ unwritten := by
    intro same
    rw [same] at start
    have : unwritten.toInt = -1 := by decide
    omega
  have dropped : (sheet.body definition).drop (tableSize definition + front.data.length) =
      run ++ back.data := by
    rw [Sheet.body, data, ← List.append_assoc, ← Sheet.length_table definition sheet,
      ← List.length_append, List.drop_left]
  rw [seek_declared wellFormed found, offset, if_neg marked, if_pos, Input.toNatClampNeg_ofNat fits,
    dropped]
  rw [start, length]
  simp
  omega

end BodyReader

/-- What is read of a field that is not there. -/
def FieldResult.absent : FieldKind → FieldResult
  | .scalar kind => .data (.scalar kind kind.default)
  | .text => .data (.text none)
  | .array kind => .data (.array kind none)
  | .textArray => .data (.textArray none)
  | .portable => .portable none
  | .portableArray => .portableArray none

namespace Frame

/-- Reads an object and checks it. -/
def checked (nested : Act Input Portable) (check : Portable → Except Failure Portable) :
    Act Input Portable := do
  let p ← nested
  Act.lift (check p)

/-- Reads what stands in a field of a kind. -/
def readData (item : Act Input Portable) (name : String) : FieldKind → Act Input FieldResult
  | .scalar kind => (fun value => .data (.scalar kind value)) <$> kind.decode
  | .text => (fun s => .data (.text s)) <$> Input.present Input.string
  | .array kind =>
    (fun items => .data (.array kind items)) <$> Input.present (Input.counted name kind.decode)
  | .textArray =>
    (fun items => .data (.textArray items)) <$> Input.present (Input.counted name Input.string)
  | .portable => .portable <$> Input.present item
  | .portableArray => .portableArray <$> Input.present (Input.counted name item)

variable {nested : Act Input Portable} {reader : BodyReader} {kind : FieldKind} {name : String}

theorem seekPresent_of_none (h : reader.seek name kind = .ok none) :
    reader.seekPresent name kind = .ok none := by
  rw [BodyReader.seekPresent, h]
  rfl

theorem seekPresent_of_error {failure : Failure} (h : reader.seek name kind = .error failure) :
    reader.seekPresent name kind = .error failure := by
  rw [BodyReader.seekPresent, h]
  rfl

theorem read_field_of_none (h : reader.seek name kind = .ok none) :
    read nested reader (.field kind name) = .ok (.absent kind) := by
  cases kind with
  | scalar kind => rw [read, BodyReader.scalar, h]; rfl
  | text => rw [read, BodyReader.text, seekPresent_of_none h]; rfl
  | array kind => rw [read, BodyReader.array, BodyReader.run, seekPresent_of_none h]; rfl
  | textArray => rw [read, BodyReader.textArray, BodyReader.run, seekPresent_of_none h]; rfl
  | portable => rw [read, portableIn, seekPresent_of_none h]; rfl
  | portableArray => rw [read, portablesIn, BodyReader.run, seekPresent_of_none h]; rfl

theorem seekPresent_of_some {input rest : Input} {flag : Bool}
    (h : reader.seek name kind = .ok (some input)) (flagged : Input.bool input = (.ok flag, rest)) :
    reader.seekPresent name kind = .ok (if flag then some rest else none) := by
  have flagged : Input.bool.run input = (.ok flag, rest) := flagged
  rw [BodyReader.seekPresent, h, Act.settled_bind_of_ok]
  simp only [flagged]
  cases flag <;> rfl

theorem seekPresent_of_cut {input rest : Input} {failure : Failure}
    (h : reader.seek name kind = .ok (some input))
    (cut : Input.bool input = (.error failure, rest)) :
    reader.seekPresent name kind = .error failure := by
  have cut : Input.bool.run input = (.error failure, rest) := cut
  rw [BodyReader.seekPresent, h, Act.settled_bind_of_ok]
  simp only [cut]
  rfl

/-- What stands behind the flag is read where the flag says that it is there. -/
theorem seekPresent_then {β : Type} {input : Input} (step : Act Input β)
    (h : reader.seek name kind = .ok (some input)) :
    (reader.seekPresent name kind >>= fun found =>
      match found with
      | none => pure none
      | some input => some <$> (step.run input).1) = ((Input.present step).run input).1 := by
  rw [Input.present, Act.run, Act.bind_apply]
  rcases flagged : Input.bool input with ⟨outcome, rest⟩
  cases outcome with
  | error failure =>
    rw [seekPresent_of_cut h flagged]
    rfl
  | ok flag =>
    rw [seekPresent_of_some h flagged]
    cases flag with
    | false => rfl
    | true =>
      show some <$> (step rest).1 = ((some <$> step) rest).1
      rw [Act.map_apply]
      rfl

/-- Where the field is found, the object behind the flag is read and checked. -/
theorem portableIn_of_some {input : Input} (h : reader.seek name .portable = .ok (some input)) :
    portableIn nested reader name =
      ((Input.present (checked nested (checkDecoded reader name))).run input).1 := by
  have same : portableIn nested reader name =
      (reader.seekPresent name .portable >>= fun found =>
        match found with
        | none => pure none
        | some input => some <$> ((checked nested (checkDecoded reader name)).run input).1) := by
    rw [portableIn]
    congr 1
    funext found
    cases found with
    | none => rfl
    | some input =>
      simp only [checked, Act.run, Act.bind_apply]
      rcases nested input with ⟨_ | p, rest⟩ <;> rfl
  rw [same]
  exact seekPresent_then (checked nested (checkDecoded reader name)) h

theorem portablesIn_of_some {input : Input}
    (h : reader.seek name .portableArray = .ok (some input)) :
    portablesIn nested reader name =
      ((Input.present (Input.counted name
        (checked nested (checkDecoded reader name)))).run input).1 :=
  seekPresent_then (Input.counted name (checked nested (checkDecoded reader name))) h

theorem read_field_of_some {input : Input} (h : reader.seek name kind = .ok (some input)) :
    read nested reader (.field kind name) =
      ((readData (checked nested (checkDecoded reader name)) name kind).run input).1 := by
  cases kind with
  | scalar kind =>
    rw [read, BodyReader.scalar, h, readData, Act.run, Act.map_apply]
    rfl
  | text =>
    rw [read, BodyReader.text, readData, Act.run, Act.map_apply]
    exact congrArg _ (seekPresent_then Input.string h)
  | array kind =>
    rw [read, readData, Act.run, Act.map_apply]
    exact congrArg _ (seekPresent_then (Input.counted name kind.decode) h)
  | textArray =>
    rw [read, readData, Act.run, Act.map_apply]
    exact congrArg _ (seekPresent_then (Input.counted name Input.string) h)
  | portable =>
    rw [read, readData, Act.run, Act.map_apply]
    exact congrArg _ (portableIn_of_some h)
  | portableArray =>
    rw [read, readData, Act.run, Act.map_apply]
    exact congrArg _ (portablesIn_of_some h)

end Frame

end ObjectWire
