import ObjectWire.Proofs.Act
import ObjectWire.Proofs.ClassDefinition.Bare

/-!
# Well-formed definitions

At every level of a well-formed definition the fields have distinct names and stand at their
indices, fields that hold objects refer to a nested definition and all others to none, and no two
nested definitions are for the same class and version.  The first part of this file says which
step of a draft establishes which of these, the second puts the levels together.
-/

namespace ObjectWire

namespace Draft

/-- What holds of the fields and nested definitions of a draft, whatever order they came in. -/
structure Consistent (draft : Draft) : Prop where
  named : (draft.fields.map Field.name).Nodup
  plain : ∀ field ∈ draft.fields, field.kind.isPortable = false → field.nested = .none
  distinct : (draft.nested.map ClassDefinition.key).Nodup

/-- What a finished draft has besides: fields stand at their indices, and the classes that fields
    refer to are attached. -/
structure Complete (draft : Draft) : Prop where
  placed : ∀ (i : Nat) (field : Field), draft.fields[i]? = some field → field.index.toInt = i
  attached : ∀ field ∈ draft.fields, field.kind.isPortable = true →
    ∃ definition ∈ draft.nested, definition.key = field.nested

theorem consistent_start (key : ClassKey) : (start key).Consistent :=
  ⟨List.nodup_nil, by simp [start], List.nodup_nil⟩

theorem complete_start (key : ClassKey) : (start key).Complete :=
  ⟨by simp [start], by simp [start]⟩

theorem pushField_ok {draft next : Draft} {field : Field} (h : draft.pushField field = .ok next) :
    (∀ known ∈ draft.fields, known.name ≠ field.name) ∧
      next = { draft with fields := draft.fields ++ [field] } := by
  unfold pushField at h
  split at h
  case isTrue => cases h
  case isFalse fresh =>
    cases h
    simpa using fresh

theorem pushField_of_fresh {draft : Draft} {field : Field}
    (fresh : ∀ known ∈ draft.fields, known.name ≠ field.name) :
    draft.pushField field = .ok { draft with fields := draft.fields ++ [field] } := by
  unfold pushField
  rw [if_neg (by simpa using fresh)]

theorem Consistent.pushField {draft next : Draft} {field : Field} (consistent : draft.Consistent)
    (plain : field.kind.isPortable = false → field.nested = .none)
    (h : draft.pushField field = .ok next) : next.Consistent := by
  obtain ⟨fresh, rfl⟩ := pushField_ok h
  refine ⟨?_, ?_, consistent.distinct⟩
  · simp only [List.map_append, List.map_cons, List.map_nil]
    refine List.nodup_append.mpr ⟨consistent.named, by simp, ?_⟩
    rintro _ among _ last
    obtain ⟨field', member, rfl⟩ := List.mem_map.mp among
    rw [List.mem_singleton.mp last]
    exact fresh field' member
  · intro field' member
    rcases List.mem_append.mp member with member | member
    · exact consistent.plain field' member
    · rw [List.mem_singleton.mp member]
      exact plain

theorem pushNested_fields (definition : ClassDefinition) (draft : Draft) :
    (draft.pushNested definition).fields = draft.fields := by
  unfold pushNested; split <;> rfl

theorem pushNested_key (definition : ClassDefinition) (draft : Draft) :
    (draft.pushNested definition).key = draft.key := by
  unfold pushNested; split <;> rfl

/-- After attaching a definition there is one for its class and version, and all that were
    attached still are. -/
theorem mem_pushNested (definition : ClassDefinition) (draft : Draft) :
    (∃ known ∈ (draft.pushNested definition).nested, known.key = definition.key) ∧
      ∀ known ∈ draft.nested, known ∈ (draft.pushNested definition).nested := by
  unfold pushNested
  split
  case isTrue present => exact ⟨by simpa using present, fun _ member => member⟩
  case isFalse =>
    exact ⟨⟨definition, by simp, rfl⟩, fun _ member => List.mem_append_left _ member⟩

theorem Consistent.pushNested {draft : Draft} (definition : ClassDefinition)
    (consistent : draft.Consistent) : (draft.pushNested definition).Consistent := by
  unfold Draft.pushNested
  split
  case isTrue => exact consistent
  case isFalse new =>
    refine ⟨consistent.named, consistent.plain, ?_⟩
    simp only [List.map_append, List.map_cons, List.map_nil]
    refine List.nodup_append.mpr ⟨consistent.distinct, by simp, ?_⟩
    rintro _ among _ last
    obtain ⟨known, member, rfl⟩ := List.mem_map.mp among
    rw [List.mem_singleton.mp last]
    intro equal
    exact new (by simpa using ⟨known, member, equal⟩)

theorem nextIndex_of_lt {draft : Draft} (small : draft.fields.length < 0x80000000) :
    draft.nextIndex = .ok (Int32.ofNat draft.fields.length) :=
  if_pos small

theorem index_of_nextIndex {draft : Draft} {index : Int32} (h : draft.nextIndex = .ok index) :
    draft.fields.length < 0x80000000 ∧ index = Int32.ofNat draft.fields.length := by
  unfold nextIndex at h
  by_cases small : draft.fields.length < 0x80000000
  · rw [if_pos small] at h
    cases h
    exact ⟨small, rfl⟩
  · rw [if_neg small] at h
    cases h

theorem nextIndex_ok {draft : Draft} {index : Int32} (h : draft.nextIndex = .ok index) :
    index.toInt = draft.fields.length := by
  obtain ⟨small, rfl⟩ := index_of_nextIndex h
  exact Int32.toInt_ofNat_of_lt small

/-- What the fields have been checked for once they passed. -/
theorem checkFields_ok {draft : Draft} {position : Nat} {fields : List Field}
    (h : draft.checkFields position fields = .ok ()) :
    (∀ (i : Nat) (field : Field), fields[i]? = some field → field.index.toInt = position + i) ∧
      ∀ field ∈ fields, field.kind.isPortable = true →
        ∃ definition ∈ draft.nested, definition.key = field.nested := by
  induction fields generalizing position with
  | nil => simp
  | cons first fields ih =>
    rw [checkFields] at h
    split at h
    case isTrue => cases h
    case isFalse here =>
      split at h
      case isTrue => cases h
      case isFalse found =>
        obtain ⟨placed, attached⟩ := ih h
        refine ⟨?_, ?_⟩
        · intro i field at_i
          cases i with
          | zero => cases at_i; simpa using here
          | succ i =>
            have := placed i field at_i
            omega
        · intro field member holds
          rcases List.mem_cons.mp member with rfl | member
          · simpa [holds] using found
          · exact attached field member holds

theorem checkFields_of_complete {draft : Draft} {position : Nat} {fields : List Field}
    (placed : ∀ (i : Nat) (field : Field), fields[i]? = some field →
      field.index.toInt = position + i)
    (attached : ∀ field ∈ fields, field.kind.isPortable = true →
      ∃ definition ∈ draft.nested, definition.key = field.nested) :
    draft.checkFields position fields = .ok () := by
  induction fields generalizing position with
  | nil => rfl
  | cons first fields ih =>
    have here : first.index.toInt = position := by simpa using placed 0 first rfl
    have found : ¬ (first.kind.isPortable &&
        !draft.nested.any fun known => known.key = first.nested) = true := by
      intro missing
      obtain ⟨holds, none⟩ := Bool.and_eq_true_iff.mp missing
      obtain ⟨definition, member, equal⟩ := attached first (by simp) holds
      simp only [Bool.not_eq_true', List.any_eq_false, decide_eq_true_eq] at none
      exact none definition member equal
    rw [checkFields, if_neg (not_not_intro here), if_neg found]
    refine ih ?_ fun field member => attached field (List.mem_cons_of_mem _ member)
    intro i field at_i
    have := placed (i + 1) field at_i
    omega

theorem build_ok {draft : Draft} {definition : ClassDefinition}
    (h : draft.build = .ok definition) :
    draft.Complete ∧ definition = ⟨draft.key, draft.fields, draft.nested, none⟩ := by
  unfold build at h
  cases checked : draft.checkFields 0 draft.fields with
  | error failure => rw [checked] at h; cases h
  | ok _ =>
    rw [checked] at h
    cases h
    obtain ⟨placed, attached⟩ := checkFields_ok checked
    exact ⟨⟨by simpa using placed, attached⟩, rfl⟩

theorem build_of_complete {draft : Draft} (complete : draft.Complete) :
    draft.build = .ok ⟨draft.key, draft.fields, draft.nested, none⟩ := by
  have checked : draft.checkFields 0 draft.fields = .ok () :=
    checkFields_of_complete (by simpa using complete.placed) complete.attached
  unfold build
  rw [checked]
  rfl

end Draft

namespace ClassDefinition

/-- A level of a definition as the draft it would be built from. -/
def toDraft (definition : ClassDefinition) : Draft :=
  ⟨definition.key, definition.fields, definition.nested⟩

/-- A definition that is consistent and complete at every level. -/
inductive WellFormed : ClassDefinition → Prop
  | level {definition : ClassDefinition} (consistent : definition.toDraft.Consistent)
      (complete : definition.toDraft.Complete)
      (nested : ∀ inner ∈ definition.nested, inner.WellFormed) : WellFormed definition

namespace WellFormed

variable {definition : ClassDefinition}

theorem consistent (wellFormed : definition.WellFormed) : definition.toDraft.Consistent := by
  cases wellFormed; assumption

theorem complete (wellFormed : definition.WellFormed) : definition.toDraft.Complete := by
  cases wellFormed; assumption

theorem nested (wellFormed : definition.WellFormed) :
    ∀ inner ∈ definition.nested, inner.WellFormed := by
  cases wellFormed; assumption

end WellFormed

theorem mem_nested_of_map_bare_eq {items others : List ClassDefinition}
    (h : items.map bare = others.map bare) {item : ClassDefinition} (member : item ∈ items) :
    ∃ other ∈ others, other.bare = item.bare := by
  have : item.bare ∈ others.map bare := h ▸ List.mem_map_of_mem member
  simpa using this

/-- Well-formedness does not depend on labels. -/
theorem WellFormed.of_same {definition other : ClassDefinition} (wellFormed : definition.WellFormed)
    (h : definition.same other = true) : other.WellFormed := by
  induction wellFormed generalizing other with
  | @level definition consistent complete nested ih =>
    have fields : other.toDraft.fields = definition.toDraft.fields := (fields_eq_of_same h).symm
    have inner : definition.nested.map bare = other.nested.map bare := by
      rw [← bare_nested, same_iff.mp h, bare_nested]
    have keys : other.nested.map key = definition.nested.map key := by
      have := congrArg (List.map key) inner.symm
      simpa only [List.map_map, Function.comp_def, bare_key] using this
    refine .level ⟨?_, ?_, ?_⟩ ⟨?_, ?_⟩ ?_
    · rw [fields]; exact consistent.named
    · rw [fields]; exact consistent.plain
    · show (other.nested.map key).Nodup
      rw [keys]; exact consistent.distinct
    · rw [fields]; exact complete.placed
    · intro field member holds
      rw [fields] at member
      obtain ⟨known, among, equal⟩ := complete.attached field member holds
      obtain ⟨same, found, bare⟩ := mem_nested_of_map_bare_eq inner among
      refine ⟨same, found, ?_⟩
      rw [← bare_key, bare, bare_key, equal]
    · intro item member
      obtain ⟨known, found, bare⟩ := mem_nested_of_map_bare_eq inner.symm member
      exact ih known found (same_iff.mpr bare)

theorem wellFormed_of_build {draft : Draft} {definition : ClassDefinition}
    (consistent : draft.Consistent) (nested : ∀ inner ∈ draft.nested, inner.WellFormed)
    (h : draft.build = .ok definition) : definition.WellFormed := by
  obtain ⟨complete, rfl⟩ := Draft.build_ok h
  exact .level consistent complete nested

end ClassDefinition

end ObjectWire
