import ObjectWire.ClassDefinition.Layout
import ObjectWire.Proofs.Act

/-!
# Reading goes forward

A step that reads takes bytes from the front of its input and leaves the rest as it is, whether it
fails or not.  `Input.Costs step n` says that the step has taken at least `n` bytes whenever it
answers.
-/

namespace ObjectWire

namespace Input

variable {α β : Type}

/-- The second input is what is left of the first one after a run of bytes was taken from it. -/
def Advances (before after : Input) : Prop :=
  ∃ run, before.rest = run ++ after.rest ∧ after.position = before.position + run.length

instance : Std.Refl Advances := ⟨fun _ => ⟨[], rfl, rfl⟩⟩

instance : Trans Advances Advances Advances where
  trans := by
    rintro before middle after ⟨first, split, moved⟩ ⟨second, further, again⟩
    refine ⟨first ++ second, ?_, ?_⟩
    · rw [split, further, List.append_assoc]
    · rw [again, moved, List.length_append, Nat.add_assoc]

theorem Advances.remaining_le {before after : Input} (h : Advances before after) :
    after.remaining ≤ before.remaining := by
  obtain ⟨run, split, -⟩ := h
  rw [remaining, remaining, split, List.length_append]
  exact Nat.le_add_left _ _

theorem bytes_ok {n : Nat} {input rest : Input} {run : Bytes}
    (h : bytes n input = (.ok run, rest)) :
    run.length = n ∧ input.rest = run ++ rest.rest ∧ rest.position = input.position + n := by
  unfold bytes at h
  by_cases enough : n ≤ input.remaining
  · rw [if_pos enough] at h
    cases h
    exact ⟨List.length_take_of_le enough, (List.take_append_drop n input.rest).symm, rfl⟩
  · rw [if_neg enough] at h
    cases h

theorem advances_bytes (n : Nat) : (bytes n).Within Advances := by
  intro input
  rcases ran : bytes n input with ⟨failure | run, rest⟩
  · unfold bytes at ran
    split at ran
    case isTrue => cases ran
    case isFalse =>
      cases ran
      exact Std.Refl.refl input
  · obtain ⟨length, split, moved⟩ := bytes_ok ran
    exact ⟨run, split, by rw [moved, length]⟩

theorem advances_word (w : Nat) : (word w).Within Advances := (advances_bytes w).map _

theorem advances_int : int.Within Advances := (advances_word 4).map _

theorem advances_byte : byte.Within Advances := (advances_word 1).map _

theorem advances_bool : bool.Within Advances := (advances_word 1).map _

theorem advances_length (of : Counted) : (length of).Within Advances := by
  refine advances_int.bind fun n => ?_
  split
  case isTrue => exact Act.within_fail _
  case isFalse => exact Act.within_pure _

theorem advances_string : string.Within Advances := by
  refine (advances_length .string).bind fun n => (advances_bytes n).bind fun run => ?_
  split
  case h_1 => exact Act.within_pure _
  case h_2 => exact Act.within_fail _

theorem advances_times {step : Act Input α} (each : step.Within Advances) (n : Nat) :
    (Act.times n step).Within Advances := by
  induction n with
  | zero => exact Act.within_pure []
  | succ n ih => exact each.bind fun _ => ih.bind fun _ => Act.within_pure _

theorem advances_classKey : classKey.Within Advances :=
  advances_int.bind fun _ => advances_int.bind fun _ => Act.within_pure _

theorem advances_entries (refusal : Int32 → Failure) : (entries refusal).Within Advances := by
  refine advances_int.bind fun n => ?_
  split
  case isTrue => exact Act.within_fail _
  case isFalse => exact Act.within_pure _

theorem advances_field : field.Within Advances := by
  refine advances_int.bind fun index => advances_string.bind fun name =>
    advances_byte.bind fun number => ?_
  split
  case h_1 => exact Act.within_fail _
  case h_2 => exact advances_classKey.bind fun _ => Act.within_pure _

theorem advances_fieldsInto (count : Nat) (draft : Draft) :
    (fieldsInto count draft).Within Advances := by
  induction count generalizing draft with
  | zero => exact Act.within_pure draft
  | succ count ih =>
    exact advances_field.bind fun f => (Act.within_lift _).bind fun next => ih next

theorem advances_nestedInto {nested : Act Input ClassDefinition} (each : nested.Within Advances)
    (count : Nat) (draft : Draft) : (nestedInto nested count draft).Within Advances := by
  induction count generalizing draft with
  | zero => exact Act.within_pure draft
  | succ count ih => exact each.bind fun definition => ih (draft.pushNested definition)

theorem advances_layoutWithin (levels : Nat) : (layoutWithin levels).Within Advances := by
  induction levels with
  | zero => exact Act.within_fail _
  | succ levels ih =>
    refine advances_classKey.bind fun key => (advances_entries _).bind fun fieldCount => ?_
    refine (advances_fieldsInto fieldCount _).bind fun draft => ?_
    refine (advances_entries _).bind fun nestedCount => ?_
    exact (advances_nestedInto ih nestedCount draft).bind fun _ => Act.within_lift _

/-- The step has taken at least `n` bytes whenever it answers. -/
def Costs (step : Act Input α) (n : Nat) : Prop :=
  ∀ input rest value, step input = (.ok value, rest) → rest.remaining + n ≤ input.remaining

theorem costs_bytes (n : Nat) : Costs (bytes n) n := by
  intro input rest run h
  obtain ⟨length, split, -⟩ := bytes_ok h
  have all : rest.remaining + n = input.remaining := by
    rw [remaining, remaining, split, List.length_append, length, Nat.add_comm]
  exact Nat.le_of_eq all

theorem Costs.map {step : Act Input α} {n : Nat} (costs : Costs step n) (f : α → β) :
    Costs (f <$> step) n := by
  intro input rest value h
  obtain ⟨inner, ran, -⟩ := Act.map_ok h
  exact costs input rest inner ran

theorem Costs.bind {step : Act Input α} {next : α → Act Input β} {m n : Nat}
    (first : Costs step m) (second : ∀ value, Costs (next value) n) :
    Costs (step >>= next) (m + n) := by
  intro input rest value h
  obtain ⟨middle, reached, ran, h⟩ := Act.bind_ok h
  have before := first input reached middle ran
  have after := second middle reached rest value h
  omega

theorem costs_word (w : Nat) : Costs (word w) w := (costs_bytes w).map _

theorem costs_int : Costs int 4 := (costs_word 4).map _

theorem costs_byte : Costs byte 1 := (costs_word 1).map _

theorem costs_pure (value : α) : Costs (pure value : Act Input α) 0 := by
  intro input rest answer h
  cases h
  exact Nat.le_refl _

theorem costs_fail (failure : Failure) (n : Nat) : Costs (Act.fail failure : Act Input α) n := nofun

theorem costs_classKey : Costs classKey 8 :=
  costs_int.bind fun _ => costs_int.bind fun _ => costs_pure _

theorem costs_entries (refusal : Int32 → Failure) : Costs (entries refusal) 4 := by
  refine costs_int.bind (n := 0) fun n => ?_
  split
  case isTrue => exact costs_fail _ 0
  case isFalse => exact costs_pure _

theorem costs_length (of : Counted) : Costs (length of) 4 :=
  costs_entries (.negativeLength of)

end Input

end ObjectWire
