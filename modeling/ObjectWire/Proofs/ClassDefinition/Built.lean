import ObjectWire.Proofs.ClassDefinition.WellFormed

/-!
# Where definitions come from

However a definition is come by, field by field through a draft or out of a layout, it is well
formed.  A draft is consistent and complete after every step; a layout is read into a draft that is
consistent all along and found complete at the end.
-/

namespace ObjectWire

mutual

/-- Drafts as they arise by adding fields. -/
inductive Draft.Built : Draft → Prop
  | start (key : ClassKey) : Draft.Built (.start key)
  | addField {draft next : Draft} {name : String} {kind : FieldKind} :
      draft.Built → draft.addField name kind = .ok next → next.Built
  | addPortable {draft next : Draft} {name : String} {definition : ClassDefinition} :
      draft.Built → definition.Built → draft.addPortable name definition = .ok next → next.Built
  | addPortableArray {draft next : Draft} {name : String} {definition : ClassDefinition} :
      draft.Built → definition.Built → draft.addPortableArray name definition = .ok next →
      next.Built

/-- Definitions as they arise: from a draft, or from a layout.  Labels may come later. -/
inductive ClassDefinition.Built : ClassDefinition → Prop
  | build {draft : Draft} {definition : ClassDefinition} :
      draft.Built → draft.build = .ok definition → definition.Built
  | read {input rest : Input} {definition : ClassDefinition} :
      Input.layout input = (.ok definition, rest) → definition.Built
  | relabelled {definition other : ClassDefinition} :
      definition.Built → definition.same other = true → other.Built

end

namespace Draft

theorem addField_ok {draft next : Draft} {name : String} {kind : FieldKind}
    (h : draft.addField name kind = .ok next) :
    kind.isPortable = false ∧ ∃ index, draft.nextIndex = .ok index ∧
      draft.pushField ⟨name, kind, index, .none⟩ = .ok next := by
  unfold addField at h
  cases holds : kind.isPortable with
  | true => rw [holds] at h; cases h
  | false =>
    rw [holds] at h
    cases indexed : draft.nextIndex with
    | error failure => rw [indexed] at h; cases h
    | ok index =>
      rw [indexed] at h
      exact ⟨rfl, index, rfl, h⟩

theorem addNested_ok {draft next : Draft} {name : String} {kind : FieldKind}
    {definition : ClassDefinition} (h : draft.addNested name kind definition = .ok next) :
    ∃ index middle, draft.nextIndex = .ok index ∧
      draft.pushField ⟨name, kind, index, definition.key⟩ = .ok middle ∧
      next = middle.pushNested definition := by
  unfold addNested at h
  cases indexed : draft.nextIndex with
  | error failure => rw [indexed] at h; cases h
  | ok index =>
    rw [indexed] at h
    cases pushed : draft.pushField ⟨name, kind, index, definition.key⟩ with
    | error failure => simp only [bind, Except.bind, pushed] at h; cases h
    | ok middle =>
      simp only [bind, Except.bind, pushed] at h
      cases h
      exact ⟨index, middle, rfl, pushed, rfl⟩

theorem addField_of_fresh {draft : Draft} {name : String} {kind : FieldKind}
    (plain : kind.isPortable = false) (small : draft.fields.length < 0x80000000)
    (fresh : ∀ known ∈ draft.fields, known.name ≠ name) :
    ∃ next, draft.addField name kind = .ok next := by
  let field : Field := ⟨name, kind, Int32.ofNat draft.fields.length, .none⟩
  have pushed : draft.pushField field = .ok { draft with fields := draft.fields ++ [field] } :=
    pushField_of_fresh fresh
  unfold addField
  rw [plain, nextIndex_of_lt small]
  exact ⟨_, pushed⟩

theorem addNested_of_fresh {draft : Draft} {name : String} {kind : FieldKind}
    {definition : ClassDefinition} (small : draft.fields.length < 0x80000000)
    (fresh : ∀ known ∈ draft.fields, known.name ≠ name) :
    ∃ next, draft.addNested name kind definition = .ok next := by
  let field : Field := ⟨name, kind, Int32.ofNat draft.fields.length, definition.key⟩
  have pushed : draft.pushField field = .ok { draft with fields := draft.fields ++ [field] } :=
    pushField_of_fresh fresh
  unfold addNested
  rw [nextIndex_of_lt small, Act.settled_bind_of_ok, pushed]
  exact ⟨_, rfl⟩

/-- A field at the end of a complete draft stands where it should. -/
theorem Complete.placed_append {draft : Draft} (complete : draft.Complete) {field : Field}
    {index : Int32} (next : draft.nextIndex = .ok index) (at_end : field.index = index) :
    ∀ (i : Nat) (f : Field), (draft.fields ++ [field])[i]? = some f → f.index.toInt = i := by
  intro i f found
  rw [List.getElem?_append] at found
  split at found
  case isTrue => exact complete.placed i f found
  case isFalse beyond =>
    obtain ⟨inside, rfl⟩ := List.getElem?_eq_some_iff.mp found
    rw [List.length_singleton] at inside
    rw [List.getElem_singleton, at_end, nextIndex_ok next]
    omega

theorem Complete.addField {draft next : Draft} {name : String} {kind : FieldKind}
    (complete : draft.Complete) (h : draft.addField name kind = .ok next) : next.Complete := by
  obtain ⟨plain, index, indexed, pushed⟩ := addField_ok h
  obtain ⟨-, rfl⟩ := pushField_ok pushed
  refine ⟨complete.placed_append indexed rfl, ?_⟩
  intro field member holds
  rcases List.mem_append.mp member with member | member
  · exact complete.attached field member holds
  · rw [List.mem_singleton.mp member, plain] at holds
    cases holds

theorem Complete.addNested {draft next : Draft} {name : String} {kind : FieldKind}
    {definition : ClassDefinition} (complete : draft.Complete)
    (h : draft.addNested name kind definition = .ok next) : next.Complete := by
  obtain ⟨index, middle, indexed, pushed, rfl⟩ := addNested_ok h
  obtain ⟨-, rfl⟩ := pushField_ok pushed
  obtain ⟨present, kept⟩ :=
    mem_pushNested definition
      { draft with fields := draft.fields ++ [⟨name, kind, index, definition.key⟩] }
  refine ⟨?_, ?_⟩
  · rw [pushNested_fields]
    exact complete.placed_append indexed rfl
  · intro field member holds
    rw [pushNested_fields] at member
    rcases List.mem_append.mp member with member | member
    · obtain ⟨known, among, equal⟩ := complete.attached field member holds
      exact ⟨known, kept known among, equal⟩
    · rw [List.mem_singleton.mp member]
      exact present

theorem Consistent.addField {draft next : Draft} {name : String} {kind : FieldKind}
    (consistent : draft.Consistent) (h : draft.addField name kind = .ok next) :
    next.Consistent := by
  obtain ⟨-, index, -, pushed⟩ := addField_ok h
  exact consistent.pushField (fun _ => rfl) pushed

theorem Consistent.addNested {draft next : Draft} {name : String} {kind : FieldKind}
    {definition : ClassDefinition} (consistent : draft.Consistent)
    (holds : kind.isPortable = true) (h : draft.addNested name kind definition = .ok next) :
    next.Consistent := by
  obtain ⟨index, middle, -, pushed, rfl⟩ := addNested_ok h
  refine (consistent.pushField ?_ pushed).pushNested definition
  intro plain
  rw [holds] at plain
  cases plain

theorem mem_pushNested_nested {draft : Draft} {definition inner : ClassDefinition}
    (member : inner ∈ (draft.pushNested definition).nested) :
    inner ∈ draft.nested ∨ inner = definition := by
  unfold pushNested at member
  split at member
  · exact .inl member
  · simpa using member

/-- What nesting in a draft comes to when a field is added. -/
theorem nested_of_addField {draft next : Draft} {name : String} {kind : FieldKind}
    (h : draft.addField name kind = .ok next) : next.nested = draft.nested := by
  obtain ⟨-, index, -, pushed⟩ := addField_ok h
  obtain ⟨-, rfl⟩ := pushField_ok pushed
  rfl

theorem mem_nested_of_addNested {draft next : Draft} {name : String} {kind : FieldKind}
    {definition inner : ClassDefinition} (h : draft.addNested name kind definition = .ok next)
    (member : inner ∈ next.nested) : inner ∈ draft.nested ∨ inner = definition := by
  obtain ⟨index, middle, -, pushed, rfl⟩ := addNested_ok h
  obtain ⟨-, rfl⟩ := pushField_ok pushed
  simpa using mem_pushNested_nested member

/-- What a draft keeps while fields are added whose definitions are well formed. -/
structure Sound (draft : Draft) : Prop where
  consistent : draft.Consistent
  nested : ∀ inner ∈ draft.nested, inner.WellFormed

variable {draft next : Draft} {name : String} {kind : FieldKind} {definition : ClassDefinition}

theorem sound_start (key : ClassKey) : (start key).Sound := ⟨consistent_start key, nofun⟩

theorem Sound.addField (sound : draft.Sound) (h : draft.addField name kind = .ok next) :
    next.Sound := by
  refine ⟨sound.consistent.addField h, ?_⟩
  rw [nested_of_addField h]
  exact sound.nested

theorem Sound.addNested (sound : draft.Sound) (wellFormed : definition.WellFormed)
    (holds : kind.isPortable = true) (h : draft.addNested name kind definition = .ok next) :
    next.Sound := by
  refine ⟨sound.consistent.addNested holds h, fun inner member => ?_⟩
  rcases mem_nested_of_addNested h member with old | rfl
  · exact sound.nested inner old
  · exact wellFormed

end Draft

namespace Input

/-- What a field that was read refers to. -/
theorem plain_of_field {input rest : Input} {f : Field} (h : field input = (.ok f, rest)) :
    f.kind.isPortable = false → f.nested = .none := by
  obtain ⟨index, _, -, h⟩ := Act.bind_ok h
  obtain ⟨name, _, -, h⟩ := Act.bind_ok h
  obtain ⟨number, _, -, h⟩ := Act.bind_ok h
  cases known : FieldKind.ofNumber? number.toInt with
  | none => simp only [known] at h; cases h
  | some kind =>
    simp only [known] at h
    obtain ⟨nested, _, -, h⟩ := Act.bind_ok h
    cases h
    intro plain
    exact if_neg (by simp [plain])

theorem fieldsInto_ok {count : Nat} {draft next : Draft} {input rest : Input}
    (h : fieldsInto count draft input = (.ok next, rest)) (consistent : draft.Consistent) :
    next.Consistent ∧ next.nested = draft.nested := by
  induction count generalizing draft input with
  | zero => cases h; exact ⟨consistent, rfl⟩
  | succ count ih =>
    obtain ⟨f, _, read, h⟩ := Act.bind_ok h
    obtain ⟨middle, _, pushed, h⟩ := Act.bind_ok h
    obtain ⟨pushed, -⟩ := Act.lift_ok pushed
    obtain ⟨result, nested⟩ := ih h (consistent.pushField (plain_of_field read) pushed)
    obtain ⟨-, rfl⟩ := Draft.pushField_ok pushed
    exact ⟨result, nested⟩

theorem nestedInto_ok {P : ClassDefinition → Prop} {step : Act Input ClassDefinition}
    (each : ∀ input rest definition, step input = (.ok definition, rest) → P definition)
    {count : Nat} {draft next : Draft} {input rest : Input}
    (h : nestedInto step count draft input = (.ok next, rest)) (consistent : draft.Consistent)
    (nested : ∀ inner ∈ draft.nested, P inner) :
    next.Consistent ∧ ∀ inner ∈ next.nested, P inner := by
  induction count generalizing draft input with
  | zero => cases h; exact ⟨consistent, nested⟩
  | succ count ih =>
    obtain ⟨definition, _, read, h⟩ := Act.bind_ok h
    apply ih h (consistent.pushNested definition)
    intro inner member
    rcases Draft.mem_pushNested_nested member with member | rfl
    · exact nested inner member
    · exact each _ _ _ read

variable {levels : Nat} {input rest : Input} {definition : ClassDefinition}

/-- A layout that was read is read part by part, each from where the one before it ends. -/
theorem layoutWithin_ok (h : layoutWithin (levels + 1) input = (.ok definition, rest)) :
    ∃ key afterKey fieldCount afterFieldCount withFields afterFields nestedCount afterNestedCount
        draft,
      classKey input = (.ok key, afterKey) ∧
      entries .negativeFieldCount afterKey = (.ok fieldCount, afterFieldCount) ∧
      fieldsInto fieldCount (.start key) afterFieldCount = (.ok withFields, afterFields) ∧
      entries .negativeNestedCount afterFields = (.ok nestedCount, afterNestedCount) ∧
      nestedInto (layoutWithin levels) nestedCount withFields afterNestedCount =
        (.ok draft, rest) ∧
      draft.build = .ok definition := by
  obtain ⟨key, afterKey, keyed, h⟩ := Act.bind_ok h
  obtain ⟨fieldCount, afterFieldCount, fieldsCounted, h⟩ := Act.bind_ok h
  obtain ⟨withFields, afterFields, fields, h⟩ := Act.bind_ok h
  obtain ⟨nestedCount, afterNestedCount, nestedCounted, h⟩ := Act.bind_ok h
  obtain ⟨draft, _, nested, h⟩ := Act.bind_ok h
  obtain ⟨built, rfl⟩ := Act.lift_ok h
  exact ⟨key, afterKey, fieldCount, afterFieldCount, withFields, afterFields, nestedCount,
    afterNestedCount, draft, keyed, fieldsCounted, fields, nestedCounted, nested, built⟩

/-- The draft that a layout is read into is consistent in the end, and what is nested in the
    definition is as everything is that is read one level below. -/
theorem draft_of_layoutWithin {P : ClassDefinition → Prop}
    (each : ∀ input rest inner, layoutWithin levels input = (.ok inner, rest) → P inner)
    (h : layoutWithin (levels + 1) input = (.ok definition, rest)) :
    ∃ draft : Draft, draft.Consistent ∧ draft.build = .ok definition ∧
      ∀ inner ∈ definition.nested, P inner := by
  obtain ⟨key, _, _, _, withFields, _, _, _, draft, -, -, fields, -, nested, built⟩ :=
    layoutWithin_ok h
  obtain ⟨consistent, none⟩ := fieldsInto_ok fields (Draft.consistent_start key)
  have start : ∀ inner ∈ withFields.nested, P inner := by
    rw [none]
    exact nofun
  obtain ⟨consistent, holds⟩ := nestedInto_ok each nested consistent start
  refine ⟨draft, consistent, built, ?_⟩
  obtain ⟨-, rfl⟩ := Draft.build_ok built
  exact holds

theorem wellFormed_of_layoutWithin (h : layoutWithin levels input = (.ok definition, rest)) :
    definition.WellFormed := by
  induction levels generalizing input rest definition with
  | zero => cases h
  | succ levels ih =>
    obtain ⟨draft, consistent, built, wellFormed⟩ :=
      draft_of_layoutWithin (fun _ _ _ read => ih read) h
    obtain ⟨-, rfl⟩ := Draft.build_ok built
    exact ClassDefinition.wellFormed_of_build consistent wellFormed built

end Input

/-- What a compressed layout stands for was read from its layout. -/
theorem ClassDefinition.exists_read {definition : ClassDefinition} {compressed : Bytes}
    (h : ofCompressed compressed = .ok definition) :
    ∃ input rest, Input.layout input = (.ok definition, rest) := by
  unfold ofCompressed at h
  split at h
  case h_1 => cases h
  case h_2 run _ =>
    rcases read : Input.layout.run (.ofBytes run) with ⟨outcome, rest⟩
    rw [read] at h
    cases h
    exact ⟨_, rest, read⟩

mutual

theorem Draft.Built.sound : {draft : Draft} → draft.Built → draft.Sound ∧ draft.Complete
  | _, .start key => ⟨Draft.sound_start key, Draft.complete_start key⟩
  | _, .addField before added =>
    have ⟨sound, complete⟩ := before.sound
    ⟨sound.addField added, complete.addField added⟩
  | _, .addPortable before inner added | _, .addPortableArray before inner added =>
    have ⟨sound, complete⟩ := before.sound
    ⟨sound.addNested inner.wellFormed rfl added, complete.addNested added⟩

/-- However a definition is come by, it is well formed. -/
theorem ClassDefinition.Built.wellFormed : {definition : ClassDefinition} → definition.Built →
    definition.WellFormed
  | _, .build before finished =>
    have ⟨sound, _⟩ := before.sound
    ClassDefinition.wellFormed_of_build sound.consistent sound.nested finished
  | _, .read h => Input.wellFormed_of_layoutWithin h
  | _, .relabelled before same => before.wellFormed.of_same same

end

namespace ClassDefinition

/-- A class without fields. -/
def fieldless (key : ClassKey) : ClassDefinition := ⟨key, [], [], none⟩

theorem wellFormed_fieldless (key : ClassKey) : (fieldless key).WellFormed :=
  Built.wellFormed (.build (.start key) rfl)

end ClassDefinition

end ObjectWire
