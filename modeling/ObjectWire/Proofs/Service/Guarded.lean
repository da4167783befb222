import ObjectWire.Service
import ObjectWire.Proofs.Act

/-!
# Calls from outside

A call from outside is guarded: an answer passes as it is, and a failure is reported.  The handler
hears of it if memory ran out; the caller is given the failure as it is, except that one of input or
output counts as one of serialization.
-/

namespace ObjectWire

/-- What a failure comes out as: one of input or output counts as one of serialization, in the same
    words. -/
def Failure.outward (failure : Failure) : Failure :=
  match failure.kind with
  | .io => .reported .serialization failure.detail
  | _ => failure

namespace Failure

variable {failure : Failure}

theorem outward_of_io (io : failure.kind = .io) :
    failure.outward = .reported .serialization failure.detail := by
  rw [outward, io]

theorem outward_of_not_io (other : failure.kind ≠ .io) : failure.outward = failure := by
  unfold outward
  split
  case h_1 io => exact absurd io other
  case h_2 => rfl

theorem outward_kind_ne_io (failure : Failure) : failure.outward.kind ≠ .io := by
  by_cases io : failure.kind = .io
  · rw [outward_of_io io]
    exact nofun
  · rwa [outward_of_not_io io]

end Failure

namespace Service

/-- What the handler is to hear of an outcome. -/
def heardOf {α : Type} : Except Failure α → List Failure
  | .ok _ => []
  | .error failure => if failure.kind = .resourceExhausted then [failure] else []

/-! What is reported. -/

theorem report_failure (failure : Failure) (service : Service) :
    (report failure service).1 = failure.outward := by
  unfold report Failure.outward
  cases failure.kind <;> rfl

theorem report_heard {α : Type} (failure : Failure) (service : Service) :
    (report failure service).2.heard =
      service.heard ++ heardOf (Except.error failure.outward : Except Failure α) := by
  unfold report
  split
  case h_1 exhausted =>
    have inward : failure.kind ≠ .io := by
      rw [exhausted]
      exact nofun
    have same : failure.outward = failure := Failure.outward_of_not_io inward
    rw [same, heardOf, if_pos exhausted]
  case h_2 io =>
    rw [Failure.outward_of_io io]
    exact (List.append_nil _).symm
  case h_3 spared other =>
    rw [Failure.outward_of_not_io other, heardOf, if_neg spared, List.append_nil]

/-- The handler hears of a failure at most. -/
theorem report_service (failure : Failure) (service : Service) :
    ∃ heard, (report failure service).2 = { service with heard := heard } := by
  unfold report
  split
  case h_1 => exact ⟨_, rfl⟩
  case h_2 => exact ⟨service.heard, rfl⟩
  case h_3 => exact ⟨service.heard, rfl⟩

/-! What comes of a guarded step. -/

variable {σ α : Type} {part : σ → Service} {restore : Service → σ → σ} {step : Act σ α}
  {state final : σ}

theorem guarded_of_ok {answer : α} (h : step state = (.ok answer, final)) :
    guarded part restore step state = (.ok answer, final) := by
  rw [guarded, h]

theorem guarded_of_error {failure : Failure} (h : step state = (.error failure, final)) :
    guarded part restore step state =
      (.error (report failure (part final)).1, restore (report failure (part final)).2 final) := by
  rw [guarded, h]

theorem guarded_ok {answer : α} (h : guarded part restore step state = (.ok answer, final)) :
    step state = (.ok answer, final) := by
  unfold guarded at h
  split at h
  case h_1 => cases h
  case h_2 => exact h

/-- A call from outside stays within a relation if what it calls does: of a failure at most the
    handler hears. -/
theorem within_guarded {related : Service → Service → Prop} [Trans related related related]
    {around : σ → σ → Prop}
    (reported : ∀ failure state, related (part state) (report failure (part state)).2)
    (same : ∀ before after, around before after ↔ related (part before) (part after))
    (restored : ∀ heard state, part (restore heard state) = heard)
    (h : step.Within around) : (guarded part restore step).Within around := by
  intro state
  have reached := h state
  rcases ran : step state with ⟨failure | answer, final⟩
  · rw [ran, same] at reached
    rw [guarded_of_error ran, same, restored]
    exact Trans.trans reached (reported failure final)
  · rw [ran] at reached
    rw [guarded_of_ok ran]
    exact reached

end Service

end ObjectWire
