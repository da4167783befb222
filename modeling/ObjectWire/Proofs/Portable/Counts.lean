import ObjectWire.Proofs.ClassDefinition.Received
import ObjectWire.Proofs.Portable.Hostile
import ObjectWire.Proofs.Wire.Metered

/-!
# Declared counts

The numbers in front of arrays, fields and nested definitions are whatever the bytes say.  Items of
arrays take at least one byte, objects among them twelve, fields of definitions seventeen and nested
definitions sixteen, so whatever is declared, no more rounds are begun than there are bytes, and one
that fails.  A nested definition is begun behind the twelve bytes in front of the fields of the one
around it, so this holds of all levels together.
-/

namespace ObjectWire

namespace Input

theorem spends_classKey : Spends classKey 8 := ⟨costs_classKey, advances_classKey⟩

theorem spends_entries (refusal : Int32 → Failure) : Spends (entries refusal) 4 :=
  ⟨costs_entries refusal, advances_entries refusal⟩

theorem spends_field : Spends field 17 := by
  refine spends_int.bind (n := 13) fun index => ?_
  refine spends_string.bind (n := 9) fun name => ?_
  refine ((spends_word 1).map _).bind (n := 8) fun number => ?_
  split
  case h_1 => exact spends_fail _ 8
  case h_2 => exact spends_classKey.bind (n := 0) fun nested => spends_pure _

theorem spends_present {α : Type} {step : Act Input α} (forward : step.Within Advances) :
    Spends (present step) 1 := by
  refine spends_bool.bind (n := 0) fun flag => ?_
  split
  case isTrue => exact (spends_of_advances forward).map _
  case isFalse => exact spends_pure _

namespace Metered

variable {α : Type} {metered : Act Metered α} {plain : Act Input α} {wanted : α → Nat → Prop}
  {cost header : Nat}

/-! Arrays in fields. -/

/-- Reads something that may be absent. -/
def present (step : Act Metered α) : Act Metered (Option α) := do
  if ← free Input.bool then some <$> step else pure none

/-- Reads a run of items in the field of a given name and counts them. -/
def counted (name : String) (item : Act Input α) : Act Metered (List α) := do
  let count ← free Input.int
  if count < 0 then Act.fail (.negativeArrayLength count name)
  else Act.times count.toNatClampNeg (element (free item))

/-- Reads what stands in a field of a kind and counts the items of arrays. -/
def readData (item : Act Input Portable) (name : String) : FieldKind → Act Metered FieldResult
  | .scalar kind => (fun value => .data (.scalar kind value)) <$> free kind.decode
  | .text => (fun s => .data (.text s)) <$> free (Input.present Input.string)
  | .array kind =>
    (fun items => .data (.array kind items)) <$> present (counted name kind.decode)
  | .textArray => (fun items => .data (.textArray items)) <$> present (counted name Input.string)
  | .portable => .portable <$> free (Input.present item)
  | .portableArray => .portableArray <$> present (counted name item)

theorem pays_present {held : Option α → Nat → Prop}
    (pays : Pays metered plain cost header fun item => held (some item)) (absent : held none 0) :
    Pays (present metered) (Input.present plain) 1 (header + 1) held := by
  rw [Nat.add_comm]
  refine Pays.behind (n := 0) spends_bool fun flag => ?_
  cases flag with
  | true => exact (pays.map some).mono (Nat.zero_le _) (Nat.le_refl _) fun _ _ => id
  | false => exact pays_pure absent

theorem pays_counted {item : Act Input α} (spends : Spends item 1) (name : String) :
    Pays (counted name item) (Input.counted name item) 4 4 fun items more =>
      items.length = more := by
  refine Pays.behind (m := 0) (n := 0) spends_int fun count => ?_
  split
  case isTrue => exact pays_fail _
  case isFalse => exact pays_times spends _

end Metered

end Input

namespace FieldResult

/-- The number of items in an array, and zero for everything else. -/
def length : FieldResult → Nat
  | .data (.array _ (some items)) => items.length
  | .data (.textArray (some items)) => items.length
  | .portableArray (some items) => items.length
  | _ => 0

end FieldResult

namespace Frame

variable {nested item : Act Input Portable} {reader : BodyReader} {kind : FieldKind}
  {name : String}

theorem spends_header : Input.Spends header 12 := by
  refine Input.spends_classKey.bind (n := 4) fun key => ?_
  refine (Input.spends_length _).bind (n := 0) fun n => ?_
  exact ((Input.spends_bytes n).mono n.zero_le).bind (n := 0) fun body => Input.spends_pure _

/-- A frame takes at least the twelve bytes in front of its body. -/
theorem spends_openWithin (source : Source) (levels : Nat) :
    Input.Spends (openWithin source levels) 12 := by
  rw [openWithin_eq_openBy]
  cases levels with
  | zero => exact Input.spends_fail _ 12
  | succ levels =>
    refine spends_header.bind (n := 0) fun headed => ?_
    obtain ⟨key, body⟩ := headed
    dsimp only
    split
    case h_1 => exact Input.spends_fail _ 0
    case h_2 => exact Input.spends_lift _

theorem spends_checked {n : Nat} (spends : Input.Spends nested n)
    (check : Portable → Except Failure Portable) : Input.Spends (checked nested check) n :=
  spends.bind (n := 0) fun p => Input.spends_lift (check p)

theorem read_field_of_error {failure : Failure} (h : reader.seek name kind = .error failure) :
    read nested reader (.field kind name) = .error failure := by
  cases kind with
  | scalar kind => rw [read, BodyReader.scalar, h]; rfl
  | text => rw [read, BodyReader.text, seekPresent_of_error h]; rfl
  | array kind => rw [read, BodyReader.array, BodyReader.run, seekPresent_of_error h]; rfl
  | textArray => rw [read, BodyReader.textArray, BodyReader.run, seekPresent_of_error h]; rfl
  | portable => rw [read, portableIn, seekPresent_of_error h]; rfl
  | portableArray => rw [read, portablesIn, BodyReader.run, seekPresent_of_error h]; rfl

end Frame

namespace Input.Metered

variable {item : Act Input Portable}

/-- What is no array has no items. -/
theorem pays_single {α : Type} {step : Act Input α} (spends : Spends step 1)
    {answer : α → FieldResult} (single : ∀ value, (answer value).length = 0) :
    Pays (answer <$> free step) (answer <$> step) 1 5 fun result more => result.length = more := by
  apply Pays.map
  refine (pays_free spends).mono (Nat.le_refl _) (Nat.le_refl _) ?_
  exact fun value more none => (single value).trans none.symm

theorem pays_array {α : Type} {step : Act Input α} (spends : Spends step 1) (name : String)
    {answer : Option (List α) → FieldResult} (absent : (answer none).length = 0)
    (held : ∀ items, (answer (some items)).length = items.length) :
    Pays (answer <$> present (counted name step))
      (answer <$> Input.present (Input.counted name step)) 1 5 fun result more =>
        result.length = more := by
  have items : Pays (counted name step) (Input.counted name step) 4 4 fun items more =>
      (answer (some items)).length = more :=
    (pays_counted spends name).mono (Nat.le_refl _) (Nat.le_refl _)
      fun items more length => (held items).trans length
  exact Pays.map answer (pays_present items absent)

/-- Whatever is read in a field, the items of an array are paid for. -/
theorem pays_readData (spends : Spends item 1) (name : String) (kind : FieldKind) :
    Pays (readData item name kind) (Frame.readData item name kind) 1 5 fun result more =>
      result.length = more := by
  cases kind with
  | scalar kind => exact pays_single kind.spends_decode fun _ => rfl
  | text => exact pays_single (spends_present spends_string.forward) fun _ => rfl
  | array kind => exact pays_array kind.spends_decode name rfl fun _ => rfl
  | textArray => exact pays_array (spends_string.mono (by decide)) name rfl fun _ => rfl
  | portable => exact pays_single (spends_present spends.forward) fun _ => rfl
  | portableArray => exact pays_array spends name rfl fun _ => rfl

/-! Layouts. -/

/-- Reads fields into a draft and counts them. -/
def fieldsInto : (count : Nat) → Draft → Act Metered Draft
  | 0, draft => pure draft
  | count + 1, draft => do
    let field ← element (free Input.field)
    let draft ← free (Act.lift (draft.pushField field))
    fieldsInto count draft

/-- Reads nested definitions into a draft and counts them, with what is counted inside them. -/
def nestedInto (nested : Act Metered ClassDefinition) : (count : Nat) → Draft → Act Metered Draft
  | 0, draft => pure draft
  | count + 1, draft => do
    let definition ← element nested
    nestedInto nested count (draft.pushNested definition)

/-- Reads a layout and counts the fields and nested definitions, at every level. -/
def layoutWithin : (levels : Nat) → Act Metered ClassDefinition
  | 0 => Act.fail .definitionTooDeep
  | levels + 1 => do
    let key ← free classKey
    let fieldCount ← free (entries .negativeFieldCount)
    let draft ← fieldsInto fieldCount (.start key)
    let nestedCount ← free (entries .negativeNestedCount)
    let draft ← nestedInto (layoutWithin levels) nestedCount draft
    free (Act.lift draft.build)

theorem pays_fieldsInto (count : Nat) (draft : Draft) :
    Pays (fieldsInto count draft) (Input.fieldsInto count draft) 0 0 fun next more =>
      next.fields.length = draft.fields.length + more ∧ next.nested = draft.nested := by
  induction count generalizing draft with
  | zero => exact pays_pure ⟨rfl, rfl⟩
  | succ count ih =>
    have first : Pays (element (free field)) field 0 0 fun _ more => more = 1 :=
      Pays.element ((pays_free spends_field).mono (by decide) (Nat.le_refl _) fun _ _ => id)
        fun _ _ none => by rw [none]
    refine first.bind (n := 0) fun f more one => ?_
    refine (pays_lift _).bind (n := 0) ?_
    rintro middle none ⟨pushed, rfl⟩
    obtain ⟨-, rfl⟩ := Draft.pushField_ok pushed
    refine (ih _).mono (Nat.le_refl _) (Nat.le_refl _) ?_
    rintro next others ⟨fields, nested⟩
    refine ⟨?_, nested⟩
    rw [fields, List.length_append, List.length_singleton]
    omega

/-- Of the nested definitions that are begun, those for the same class are dropped but for one. -/
theorem pays_nestedInto {metered : Act Metered ClassDefinition} {plain : Act Input ClassDefinition}
    (pays : Pays metered plain 1 1 fun _ _ => True) (count : Nat) (draft : Draft) :
    Pays (nestedInto metered count draft) (Input.nestedInto plain count draft) 0 0
      fun next more => next.fields = draft.fields ∧
        next.nested.length ≤ draft.nested.length + more := by
  induction count generalizing draft with
  | zero => exact pays_pure ⟨rfl, Nat.le_refl _⟩
  | succ count ih =>
    have first : Pays (element metered) plain 0 0 fun _ more => 1 ≤ more :=
      pays.element fun _ more _ => Nat.le_add_left 1 more
    refine first.bind (n := 0) fun definition more one => ?_
    refine (ih _).mono (Nat.le_refl _) (Nat.le_refl _) ?_
    rintro next others ⟨fields, nested⟩
    have pushed := length_pushNested_le definition draft
    exact ⟨fields.trans (Draft.pushNested_fields definition draft), by omega⟩

theorem pays_layoutWithin (levels : Nat) :
    Pays (layoutWithin levels) (Input.layoutWithin levels) 16 12 fun definition more =>
      definition.fields.length + definition.nested.length ≤ more := by
  induction levels with
  | zero => exact pays_fail _
  | succ levels ih =>
    refine Pays.behind (m := 4) (n := 8) spends_classKey fun key => ?_
    refine Pays.behind (m := 0) (n := 4) (spends_entries _) fun fieldCount => ?_
    refine (pays_fieldsInto fieldCount _).bind (n := 4) ?_
    rintro draft more ⟨fields, none⟩
    refine Pays.mono (Pays.behind (m := 0) (n := 0) (spends_entries _) fun nestedCount => ?_)
      (Nat.le_refl 4) (Nat.zero_le 4) fun _ _ => id
    have each := ih.mono (by decide : 1 ≤ 16) (by decide : 1 ≤ 12) fun _ _ _ => trivial
    refine (pays_nestedInto each nestedCount draft).bind (n := 0) ?_
    rintro complete later ⟨kept, few⟩
    refine (pays_lift _).mono (Nat.le_refl _) (Nat.le_refl _) ?_
    rintro definition _ ⟨built, rfl⟩
    obtain ⟨-, rfl⟩ := Draft.build_ok built
    rw [none] at few
    simp only [kept, fields, Draft.start, List.length_nil] at few ⊢
    omega

/-- Whatever counts and lengths an input claims, no more elements are begun than there are bytes to
    pay for them, and one more that fails: of a list of any shape, of an array in a field of any
    kind, and of the fields and nested definitions of a layout, at all levels together.  Where it
    answers, no more were begun than bytes are gone.  An array is read from where its field is
    sought, and no element is begun where that finds nothing. -/
theorem declared_counts_are_paid :
    (∀ inner, Bounds (list inner) (Shape.list inner).decode fun answer begun =>
      ∃ items, answer = .list items ∧ items.length = begun) ∧
    (∀ source levels reader name kind,
      let nested := Frame.openWithin source levels
      let item := Frame.checked nested (Frame.checkDecoded reader name)
      (Bounds (readData item name kind) (Frame.readData item name kind) fun result begun =>
        result.length = begun) ∧
      match reader.seek name kind with
      | .ok (some input) => input.rest <:+ reader.body ∧
          Frame.read nested reader (.field kind name) =
            ((Frame.readData item name kind).run input).1
      | .ok none => Frame.read nested reader (.field kind name) = .ok (.absent kind)
      | .error failure => Frame.read nested reader (.field kind name) = .error failure) ∧
    ∀ levels, Bounds (layoutWithin levels) (Input.layoutWithin levels) fun definition begun =>
      definition.fields.length + definition.nested.length ≤ begun := by
  refine ⟨fun inner => (pays_list inner).bounds, fun source levels reader name kind => ?_,
    fun levels => (pays_layoutWithin levels).bounds⟩
  intro nested item
  have spends : Spends item 1 :=
    (Frame.spends_checked (Frame.spends_openWithin source levels) _).mono (by decide)
  refine ⟨(pays_readData spends name kind).bounds, ?_⟩
  cases sought : reader.seek name kind with
  | error failure => exact Frame.read_field_of_error sought
  | ok found =>
    cases found with
    | none => exact Frame.read_field_of_none sought
    | some input =>
      obtain ⟨-, offset, -, -, -, -, rfl⟩ := BodyReader.seek_ok sought
      exact ⟨List.drop_suffix offset reader.body, Frame.read_field_of_some sought⟩

end Input.Metered

end ObjectWire
