import ObjectWire.Proofs.Portable.Requests

/-!
# Failures that are no endless walks

Only registering can stand for a walk that never comes to an end.  Writing the layout of a
definition and reading one fail in other ways, if they fail: both follow the definition or the bytes
from front to back.
-/

namespace ObjectWire

/-- The outcome stands for a walk that never comes to an end. -/
def GoesOn {α : Type} (outcome : Except Failure α) : Prop :=
  ∃ failure, outcome = .error failure ∧ failure.Endless

variable {α β σ : Type}

theorem not_goesOn_ok (value : α) : ¬ GoesOn (.ok value) := by
  rintro ⟨failure, same, -⟩
  cases same

theorem goesOn_error_iff {failure : Failure} :
    GoesOn (.error failure : Except Failure α) ↔ failure.Endless := by
  constructor
  · rintro ⟨_, same, endless⟩
    cases same
    exact endless
  · exact fun endless => ⟨failure, rfl, endless⟩

/-- An outcome reached in two parts goes on only if one of them does. -/
theorem not_goesOn_bind {outcome : Except Failure α} {next : α → Except Failure β}
    (first : ¬ GoesOn outcome) (rest : ∀ value, ¬ GoesOn (next value)) :
    ¬ GoesOn (outcome >>= next) := by
  cases outcome with
  | ok value => exact rest value
  | error failure => exact fun goesOn => first (goesOn_error_iff.mpr (goesOn_error_iff.mp goesOn))

theorem not_goesOn_string (text : String) : ¬ GoesOn (Wire.string text) := by
  unfold Wire.string Wire.length
  by_cases small : Utf8.width text < Wire.lengthLimit
  · rw [if_pos small]
    exact not_goesOn_ok _
  · rw [if_neg small]
    exact fun goesOn => goesOn_error_iff.mp goesOn

theorem not_goesOn_entries (n : Nat) : ¬ GoesOn (Wire.entries n) := by
  unfold Wire.entries
  by_cases small : n < Wire.lengthLimit
  · rw [if_pos small]
    exact not_goesOn_ok _
  · rw [if_neg small]
    exact fun goesOn => goesOn_error_iff.mp goesOn

theorem not_goesOn_fields (fields : List Field) : ¬ GoesOn (Wire.fields fields) := by
  induction fields with
  | nil => exact not_goesOn_ok _
  | cons f others ih =>
    apply not_goesOn_bind
    · exact not_goesOn_bind (not_goesOn_string f.name) fun _ => not_goesOn_ok _
    · exact fun _ => not_goesOn_bind ih fun _ => not_goesOn_ok _

theorem ClassDefinition.not_goesOn_layout (definition : ClassDefinition) :
    ¬ GoesOn definition.layout := by
  induction definition using ClassDefinition.induction with
  | step definition ih =>
    have all : ∀ items : List ClassDefinition, (∀ item ∈ items, item ∈ definition.nested) →
        ¬ GoesOn (ClassDefinition.layoutOfAll items) := by
      intro items
      induction items with
      | nil => exact fun _ => not_goesOn_ok _
      | cons item items rest =>
        intro among
        have others := rest fun other member => among other (List.mem_cons_of_mem _ member)
        rw [ClassDefinition.layoutOfAll]
        exact not_goesOn_bind (ih item (among item (by simp))) fun _ =>
          not_goesOn_bind others fun _ => not_goesOn_ok _
    rw [ClassDefinition.layout_def]
    apply not_goesOn_bind (not_goesOn_entries _)
    intro _
    apply not_goesOn_bind (not_goesOn_fields _)
    intro _
    apply not_goesOn_bind (not_goesOn_entries _)
    intro _
    exact not_goesOn_bind (all _ fun _ member => member) fun _ => not_goesOn_ok _

namespace Act

/-- Whatever the state, the step comes back, be it with a failure. -/
def Returns (step : Act σ α) : Prop := ∀ state, ¬ GoesOn (step state).1

theorem returns_pure (value : α) : (pure value : Act σ α).Returns := fun _ => not_goesOn_ok value

theorem returns_fail {failure : Failure} (ended : ¬ failure.Endless) :
    (fail failure : Act σ α).Returns :=
  fun _ goesOn => ended (goesOn_error_iff.mp goesOn)

theorem returns_lift {outcome : Except Failure α} (ended : ¬ GoesOn outcome) :
    (lift outcome : Act σ α).Returns :=
  fun _ => ended

theorem Returns.bind {step : Act σ α} {next : α → Act σ β} (first : step.Returns)
    (rest : ∀ value, (next value).Returns) : (step >>= next).Returns := by
  intro state
  have ended := first state
  rcases ran : step state with ⟨failure | value, reached⟩
  · rw [ran] at ended
    rw [bind_of_error ran]
    exact fun goesOn => ended (goesOn_error_iff.mpr (goesOn_error_iff.mp goesOn))
  · rw [bind_of_ok ran]
    exact rest value reached

theorem Returns.map {step : Act σ α} (returns : step.Returns) (f : α → β) : (f <$> step).Returns :=
  returns.bind fun _ => returns_pure _

end Act

open Act (Returns returns_pure returns_fail returns_lift)

namespace Draft

variable {draft : Draft}

theorem not_goesOn_pushField (field : Field) : ¬ GoesOn (draft.pushField field) := by
  unfold pushField
  split
  · exact fun goesOn => goesOn_error_iff.mp goesOn
  · exact not_goesOn_ok _

theorem not_goesOn_checkFields (position : Nat) (fields : List Field) :
    ¬ GoesOn (draft.checkFields position fields) := by
  induction fields generalizing position with
  | nil => exact not_goesOn_ok _
  | cons field fields ih =>
    unfold checkFields
    split
    · exact fun goesOn => goesOn_error_iff.mp goesOn
    · split
      · exact fun goesOn => goesOn_error_iff.mp goesOn
      · exact ih _

theorem not_goesOn_build : ¬ GoesOn draft.build :=
  not_goesOn_bind (not_goesOn_checkFields _ _) fun _ => not_goesOn_ok _

end Draft

namespace Input

theorem returns_bytes (n : Nat) : (bytes n).Returns := by
  intro input
  unfold bytes
  split
  · exact not_goesOn_ok _
  · exact fun goesOn => goesOn_error_iff.mp goesOn

theorem returns_int : int.Returns := ((returns_bytes 4).map _).map _

theorem returns_length (of : Counted) : (length of).Returns := by
  apply returns_int.bind
  intro n
  split
  · exact returns_fail id
  · exact returns_pure _

theorem returns_string : string.Returns := by
  apply (returns_length .string).bind
  intro n
  apply (returns_bytes n).bind
  intro run
  split
  · exact returns_pure _
  · exact returns_fail id

theorem returns_classKey : classKey.Returns :=
  returns_int.bind fun _ => returns_int.bind fun _ => returns_pure _

theorem returns_entries {refusal : Int32 → Failure} (ended : ∀ n, ¬ (refusal n).Endless) :
    (entries refusal).Returns := by
  apply returns_int.bind
  intro n
  split
  · exact returns_fail (ended n)
  · exact returns_pure _

theorem returns_field : field.Returns := by
  apply returns_int.bind
  intro index
  apply returns_string.bind
  intro name
  apply (((returns_bytes 1).map _).map _).bind
  intro number
  split
  · exact returns_fail id
  · exact returns_classKey.bind fun _ => returns_pure _

theorem returns_fieldsInto (count : Nat) (draft : Draft) : (fieldsInto count draft).Returns := by
  induction count generalizing draft with
  | zero => exact returns_pure draft
  | succ count ih =>
    apply returns_field.bind
    intro field
    exact (returns_lift (Draft.not_goesOn_pushField field)).bind ih

theorem returns_nestedInto {nested : Act Input ClassDefinition} (returns : nested.Returns)
    (count : Nat) (draft : Draft) : (nestedInto nested count draft).Returns := by
  induction count generalizing draft with
  | zero => exact returns_pure draft
  | succ count ih => exact returns.bind fun _ => ih _

theorem returns_layoutWithin (levels : Nat) : (layoutWithin levels).Returns := by
  induction levels with
  | zero => exact returns_fail id
  | succ levels ih =>
    apply returns_classKey.bind
    intro key
    apply (returns_entries fun _ => id).bind
    intro fieldCount
    apply (returns_fieldsInto fieldCount _).bind
    intro draft
    apply (returns_entries fun _ => id).bind
    intro nestedCount
    apply (returns_nestedInto ih nestedCount draft).bind
    intro draft
    exact returns_lift Draft.not_goesOn_build

end Input

theorem ClassDefinition.not_goesOn_ofCompressed (compressed : Bytes) :
    ¬ GoesOn (ClassDefinition.ofCompressed compressed) := by
  unfold ClassDefinition.ofCompressed
  split
  · exact fun goesOn => goesOn_error_iff.mp goesOn
  · exact Input.returns_layoutWithin _ _

theorem PortableContext.Request.returns_iff {context : PortableContext} {request : Request} :
    request.Returns context ↔ ¬ GoesOn (request.step context).1 := by
  constructor
  · rintro returns ⟨failure, failed, endless⟩
    exact returns failure failed endless
  · exact fun ended failure failed endless => ended ⟨failure, failed, endless⟩

end ObjectWire
