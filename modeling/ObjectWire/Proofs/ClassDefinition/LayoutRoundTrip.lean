import ObjectWire.Proofs.ClassDefinition.Built
import ObjectWire.Proofs.Wire.Takes

/-!
# Layouts read back

Reading the layout of a well-formed definition gives the definition back, without its labels, and
takes exactly the layout.  Each part of the layout is matched with the step that reads it: keys,
fields into a growing draft, nested definitions into the same draft by induction on the levels that
reading allows.  The checks made on the way are those a well-formed definition passes.
-/

namespace ObjectWire

namespace Wire

theorem entries_ok {n : Nat} {run : Bytes} (h : entries n = .ok run) :
    n < lengthLimit ∧ run = BigEndian.encode 4 n := by
  unfold entries at h
  by_cases fits : n < lengthLimit
  · rw [if_pos fits] at h
    cases h
    exact ⟨fits, rfl⟩
  · rw [if_neg fits] at h
    cases h

theorem field_ok {f : Field} {run : Bytes} (h : field f = .ok run) :
    ∃ name, string f.name = .ok name ∧
      run = int f.index ++ name ++ [UInt8.ofNat f.kind.number] ++ classKey f.nested := by
  obtain ⟨name, written, h⟩ := Act.settled_bind_ok h
  cases h
  exact ⟨name, written, rfl⟩

end Wire

/-- A layout that was written is written part by part. -/
theorem ClassDefinition.layout_ok {definition : ClassDefinition} {run : Bytes}
    (h : definition.layout = .ok run) :
    ∃ fieldCount fields nestedCount inner,
      Wire.entries definition.fields.length = .ok fieldCount ∧
      Wire.fields definition.fields = .ok fields ∧
      Wire.entries definition.nested.length = .ok nestedCount ∧
      layoutOfAll definition.nested = .ok inner ∧
      run = Wire.classKey definition.key ++ fieldCount ++ fields ++ nestedCount ++ inner := by
  rw [layout_def] at h
  obtain ⟨fieldCount, fieldsCounted, h⟩ := Act.settled_bind_ok h
  obtain ⟨fields, fieldsWritten, h⟩ := Act.settled_bind_ok h
  obtain ⟨nestedCount, nestedCounted, h⟩ := Act.settled_bind_ok h
  obtain ⟨inner, innerWritten, h⟩ := Act.settled_bind_ok h
  cases h
  exact ⟨fieldCount, fields, nestedCount, inner, fieldsCounted, fieldsWritten, nestedCounted,
    innerWritten, rfl⟩

namespace Input

theorem takes_classKey (key : ClassKey) : Takes classKey (Wire.classKey key) key :=
  (takes_int key.classId).bind ((takes_int key.version).bind_nil (takes_pure key))

theorem takes_entries {refusal : Int32 → Failure} {n : Nat} {run : Bytes}
    (h : Wire.entries n = .ok run) : Takes (entries refusal) run n := by
  obtain ⟨fits, rfl⟩ := Wire.entries_ok h
  apply (takes_int_ofNat fits).bind_nil
  rw [if_neg (ofNat_nonneg fits), toNatClampNeg_ofNat fits]
  exact takes_pure n

theorem toInt_kindByte (kind : FieldKind) :
    (UInt8.ofNat kind.number).toInt8.toInt = (kind.number : Int) := by
  cases kind with
  | scalar item => cases item <;> rfl
  | array item => cases item <;> rfl
  | _ => rfl

theorem takes_field {f : Field} {run : Bytes} (h : Wire.field f = .ok run)
    (plain : f.kind.isPortable = false → f.nested = .none) : Takes field run f := by
  obtain ⟨name, written, rfl⟩ := Wire.field_ok h
  have kindByte : Takes byte [UInt8.ofNat f.kind.number] (UInt8.ofNat f.kind.number).toInt8 := by
    simpa [Wire.byte] using takes_byte (UInt8.ofNat f.kind.number).toInt8
  have known : FieldKind.ofNumber? (UInt8.ofNat f.kind.number).toInt8.toInt = some f.kind := by
    rw [toInt_kindByte, FieldKind.ofNumber?_number]
  simp only [List.append_assoc]
  refine (takes_int f.index).bind ((takes_string written).bind (kindByte.bind ?_))
  simp only [known]
  apply (takes_classKey f.nested).bind_nil
  have nested : (if f.kind.isPortable = true then f.nested else ClassKey.none) = f.nested := by
    by_cases holds : f.kind.isPortable = true
    · rw [if_pos holds]
    · rw [if_neg holds]
      exact (plain (Bool.eq_false_iff.mpr holds)).symm
  rw [nested]
  exact takes_pure f

theorem takes_fieldsInto {items : List Field} {run : Bytes} {draft : Draft}
    (h : Wire.fields items = .ok run)
    (named : ((draft.fields ++ items).map Field.name).Nodup)
    (plain : ∀ field ∈ items, field.kind.isPortable = false → field.nested = .none) :
    Takes (fieldsInto items.length draft) run
      { draft with fields := draft.fields ++ items } := by
  induction items generalizing run draft with
  | nil =>
    cases h
    rw [List.append_nil]
    exact takes_pure draft
  | cons f items ih =>
    obtain ⟨front, written, h⟩ := Act.settled_bind_ok h
    obtain ⟨back, others, h⟩ := Act.settled_bind_ok h
    cases h
    have fresh : ∀ known ∈ draft.fields, known.name ≠ f.name := by
      simp only [List.map_append, List.map_cons] at named
      intro known member
      exact (List.nodup_append.mp named).2.2 _ (List.mem_map_of_mem member) _ (by simp)
    have pushed := Draft.pushField_of_fresh fresh
    have regrouped : draft.fields ++ f :: items = draft.fields ++ [f] ++ items := by simp
    rw [regrouped] at named ⊢
    apply (takes_field written (plain f (by simp))).bind
    apply (takes_lift pushed).bind
    exact ih others named fun field member => plain field (List.mem_cons_of_mem _ member)

theorem takes_nestedInto {step : Act Input ClassDefinition} {items : List ClassDefinition}
    {run : Bytes} {draft : Draft} (h : ClassDefinition.layoutOfAll items = .ok run)
    (distinct : ((draft.nested ++ items).map ClassDefinition.key).Nodup)
    (each : ∀ item ∈ items, ∀ front, item.layout = .ok front → Takes step front item.bare) :
    Takes (nestedInto step items.length draft) run
      { draft with nested := draft.nested ++ items.map ClassDefinition.bare } := by
  induction items generalizing run draft with
  | nil =>
    cases h
    rw [List.map_nil, List.append_nil]
    exact takes_pure draft
  | cons item items ih =>
    obtain ⟨front, written, h⟩ := Act.settled_bind_ok h
    obtain ⟨back, others, h⟩ := Act.settled_bind_ok h
    cases h
    have new : ¬ (draft.nested.any fun known => known.key = item.bare.key) = true := by
      simp only [List.any_eq_true, decide_eq_true_eq, ClassDefinition.bare_key]
      rintro ⟨known, member, equal⟩
      simp only [List.map_append, List.map_cons] at distinct
      exact (List.nodup_append.mp distinct).2.2 _ (List.mem_map_of_mem member) _ (by simp) equal
    have attached : draft.pushNested item.bare =
        { draft with nested := draft.nested ++ [item.bare] } := if_neg new
    have later :
        (((draft.pushNested item.bare).nested ++ items).map ClassDefinition.key).Nodup := by
      rw [attached]
      simpa using distinct
    apply (each item (by simp) front written).bind
    have rest := ih others later fun other member => each other (List.mem_cons_of_mem _ member)
    rw [attached] at rest ⊢
    simpa using rest

/-- Reading the layout of a well-formed definition, with levels to spare. -/
theorem takes_layoutWithin {definition : ClassDefinition} {levels : Nat} {run : Bytes}
    (wellFormed : definition.WellFormed) (shallow : definition.depth < levels)
    (h : definition.layout = .ok run) : Takes (layoutWithin levels) run definition.bare := by
  induction wellFormed generalizing levels run with
  | @level definition consistent complete nested ih =>
    cases levels with
    | zero => omega
    | succ levels =>
      obtain ⟨fieldCount, fields, nestedCount, inner, fieldsCounted, fieldsWritten, nestedCounted,
        innerWritten, rfl⟩ := ClassDefinition.layout_ok h
      have each : ∀ item ∈ definition.nested, ∀ front, item.layout = .ok front →
          Takes (layoutWithin levels) front item.bare := by
        intro item member front written
        have deeper := ClassDefinition.depth_lt_of_mem_nested member
        exact ih item member (by omega) written
      have bareComplete : Draft.Complete
          ⟨definition.key, definition.fields, definition.nested.map ClassDefinition.bare⟩ := by
        refine ⟨complete.placed, ?_⟩
        intro field member holds
        obtain ⟨known, among, equal⟩ := complete.attached field member holds
        exact ⟨known.bare, List.mem_map_of_mem among, by rw [ClassDefinition.bare_key, equal]⟩
      have built : Draft.build
          ⟨definition.key, definition.fields, definition.nested.map ClassDefinition.bare⟩ =
            .ok definition.bare := by
        rw [Draft.build_of_complete bareComplete, ← ClassDefinition.bareAll_eq_map]
        cases definition
        rfl
      simp only [List.append_assoc]
      apply (takes_classKey definition.key).bind
      apply (takes_entries fieldsCounted).bind
      have fieldsTaken := @takes_fieldsInto _ _ (.start definition.key) fieldsWritten
        consistent.named consistent.plain
      apply fieldsTaken.bind
      apply (takes_entries nestedCounted).bind
      refine (takes_nestedInto innerWritten ?_ each).bind_nil ?_
      · exact consistent.distinct
      · exact takes_lift built

/-- Of nested definitions that go too deep the first one fails to be read. -/
theorem fails_nestedInto {levels : Nat} {items : List ClassDefinition} {run : Bytes}
    {draft : Draft} (h : ClassDefinition.layoutOfAll items = .ok run)
    (wellFormed : ∀ item ∈ items, item.WellFormed)
    (deep : levels < ClassDefinition.depthOfAll items)
    (each : ∀ item ∈ items, ∀ front, item.layout = .ok front → levels ≤ item.depth →
      Fails (layoutWithin levels) front .definitionTooDeep) :
    Fails (nestedInto (layoutWithin levels) items.length draft) run .definitionTooDeep := by
  induction items generalizing run draft with
  | nil =>
    rw [ClassDefinition.depthOfAll] at deep
    omega
  | cons item items ih =>
    obtain ⟨front, written, h⟩ := Act.settled_bind_ok h
    obtain ⟨back, others, h⟩ := Act.settled_bind_ok h
    cases h
    rw [ClassDefinition.depthOfAll] at deep
    by_cases here : levels ≤ item.depth
    · exact (each item (by simp) front written here).bind _ back
    · have shallow : item.depth < levels := by omega
      have taken := takes_layoutWithin (wellFormed item (by simp)) shallow written
      refine taken.fails (ih others ?_ (by omega) ?_)
      · exact fun other member => wellFormed other (List.mem_cons_of_mem _ member)
      · exact fun other member => each other (List.mem_cons_of_mem _ member)

theorem fails_layoutWithin {definition : ClassDefinition} {levels : Nat} {run : Bytes}
    (wellFormed : definition.WellFormed) (deep : levels ≤ definition.depth)
    (h : definition.layout = .ok run) : Fails (layoutWithin levels) run .definitionTooDeep := by
  induction wellFormed generalizing levels run with
  | @level definition consistent complete nested ih =>
    cases levels with
    | zero => exact fun _ _ => rfl
    | succ levels =>
      obtain ⟨fieldCount, fields, nestedCount, inner, fieldsCounted, fieldsWritten, nestedCounted,
        innerWritten, rfl⟩ := ClassDefinition.layout_ok h
      have within : levels < ClassDefinition.depthOfAll definition.nested := by
        cases definition
        exact deep
      simp only [List.append_assoc]
      apply (takes_classKey definition.key).fails
      apply (takes_entries fieldsCounted).fails
      have fieldsTaken := @takes_fieldsInto _ _ (.start definition.key) fieldsWritten
        consistent.named consistent.plain
      apply fieldsTaken.fails
      apply (takes_entries nestedCounted).fails
      rw [← List.append_nil inner]
      refine Fails.bind (fails_nestedInto innerWritten nested within ?_) _ []
      exact fun item member front written deeper => ih item member deeper written

end Input

namespace ClassDefinition

/-- Every count and every name in a definition is small enough to be written. -/
inductive Fits : ClassDefinition → Prop
  | level {definition : ClassDefinition} (fields : definition.fields.length < Wire.lengthLimit)
      (names : ∀ field ∈ definition.fields, Utf8.width field.name < Wire.lengthLimit)
      (count : definition.nested.length < Wire.lengthLimit)
      (nested : ∀ inner ∈ definition.nested, inner.Fits) : Fits definition

theorem exists_fields_iff (items : List Field) :
    (∃ run, Wire.fields items = .ok run) ↔
      ∀ field ∈ items, Utf8.width field.name < Wire.lengthLimit := by
  induction items with
  | nil => simp [Wire.fields]
  | cons f items ih =>
    rw [List.forall_mem_cons, ← ih]
    constructor
    · rintro ⟨run, h⟩
      obtain ⟨front, written, h⟩ := Act.settled_bind_ok h
      obtain ⟨back, others, -⟩ := Act.settled_bind_ok h
      obtain ⟨name, written, -⟩ := Wire.field_ok written
      obtain ⟨_, counted, -⟩ := Act.settled_map_ok written
      exact ⟨(Input.lt_of_length_ok counted).1, back, others⟩
    · rintro ⟨small, back, others⟩
      have counted : Wire.length .string (Utf8.width f.name) =
          .ok (BigEndian.encode 4 (Utf8.width f.name)) := if_pos small
      simp [Wire.fields, Wire.field, Wire.string, counted, others, bind, Except.bind, pure,
        Except.pure, Functor.map, Except.map]

theorem entries_of_lt {n : Nat} (h : n < Wire.lengthLimit) :
    Wire.entries n = .ok (BigEndian.encode 4 n) :=
  if_pos h

/-- A definition has a layout exactly if everything in it fits. -/
theorem exists_layout_iff (definition : ClassDefinition) :
    (∃ run, definition.layout = .ok run) ↔ definition.Fits := by
  induction definition using induction with
  | step definition ih =>
    have all : ∀ items : List ClassDefinition, (∀ item ∈ items, item ∈ definition.nested) →
        ((∃ run, layoutOfAll items = .ok run) ↔ ∀ item ∈ items, item.Fits) := by
      intro items
      induction items with
      | nil => intro _; simp [layoutOfAll]
      | cons item items rest =>
        intro members
        rw [List.forall_mem_cons, ← ih item (members item (by simp)),
          ← rest fun x hx => members x (by simp [hx])]
        constructor
        · rintro ⟨run, h⟩
          obtain ⟨front, written, h⟩ := Act.settled_bind_ok h
          obtain ⟨back, others, -⟩ := Act.settled_bind_ok h
          exact ⟨⟨front, written⟩, back, others⟩
        · rintro ⟨⟨front, written⟩, back, others⟩
          exact ⟨front ++ back, by rw [layoutOfAll, written, others]; rfl⟩
    rw [layout_def]
    constructor
    · rintro ⟨run, h⟩
      obtain ⟨_, fieldsCounted, h⟩ := Act.settled_bind_ok h
      obtain ⟨fields, fieldsWritten, h⟩ := Act.settled_bind_ok h
      obtain ⟨_, nestedCounted, h⟩ := Act.settled_bind_ok h
      obtain ⟨inner, innerWritten, -⟩ := Act.settled_bind_ok h
      exact .level (Wire.entries_ok fieldsCounted).1 ((exists_fields_iff _).mp ⟨_, fieldsWritten⟩)
        (Wire.entries_ok nestedCounted).1 ((all _ fun _ member => member).mp ⟨_, innerWritten⟩)
    · rintro ⟨count, names, nestedCount, nested⟩
      obtain ⟨fields, fieldsWritten⟩ := (exists_fields_iff _).mpr names
      obtain ⟨inner, innerWritten⟩ := (all _ fun _ member => member).mpr nested
      rw [entries_of_lt count, entries_of_lt nestedCount, fieldsWritten, innerWritten]
      exact ⟨_, rfl⟩

/-- However a definition came about, if nothing in it is too large to be written and it nests at
    most as deep as reading allows, then reading its layout, whatever follows it, gives back the
    same definition, which finds the same fields, and takes exactly the layout. -/
theorem layout_reads_back {definition : ClassDefinition} (built : definition.Built)
    (shallow : definition.depth ≤ Failure.maxDefinitionLevels) :
    ((∃ run, definition.layout = .ok run) ↔ definition.Fits) ∧
      ∀ run, definition.layout = .ok run → ∀ rest position, ∃ parsed,
        Input.layout ⟨run ++ rest, position⟩ = (.ok parsed, ⟨rest, position + run.length⟩) ∧
        parsed.same definition = true ∧ ∀ name, parsed.field? name = definition.field? name := by
  refine ⟨exists_layout_iff definition, fun run written rest position => ?_⟩
  have taken : Input.Takes Input.layout run definition.bare :=
    Input.takes_layoutWithin built.wellFormed (Nat.lt_succ_of_le shallow) written
  exact ⟨definition.bare, taken rest position, bare_same definition, bare_field? definition⟩

/-- A class with an object of another class in its only field. -/
theorem layout_reads_back_nested :
    let street : ClassDefinition := ⟨⟨2, 0⟩, [⟨"zip", .scalar .int, 0, .none⟩], [], none⟩
    let home : ClassDefinition := ⟨⟨-1, 7⟩, [⟨"home", .portable, 0, ⟨2, 0⟩⟩], [street], none⟩
    home.Built ∧ home.depth ≤ Failure.maxDefinitionLevels ∧
      ∃ run, home.layout = .ok run ∧ ∃ parsed,
        Input.layout ⟨run ++ [0xFF], 0⟩ = (.ok parsed, ⟨[0xFF], 0 + run.length⟩) ∧
        parsed.same home = true := by
  intro street home
  have street_built : street.Built :=
    .build (.addField (.start ⟨2, 0⟩) (rfl : Draft.addField "zip" (.scalar .int) _ = _)) rfl
  have built : home.Built :=
    .build (.addPortable (.start ⟨-1, 7⟩) street_built rfl) rfl
  have shallow : home.depth ≤ Failure.maxDefinitionLevels := by decide
  have street_fits : street.Fits := .level (by decide) (by decide) (by decide) nofun
  have fits : home.Fits := .level (by decide) (by decide) (by decide) (by simpa [home])
  obtain ⟨written, reads⟩ := layout_reads_back built shallow
  obtain ⟨run, taken⟩ := written.mpr fits
  obtain ⟨parsed, read, same, -⟩ := reads run taken [0xFF] 0
  exact ⟨built, shallow, run, taken, parsed, read, same⟩

end ClassDefinition

end ObjectWire
