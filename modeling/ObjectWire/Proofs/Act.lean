import ObjectWire.Act

/-!
# Runs of steps

A step that answered went through all of its parts, and each of them answered.  The lemmas named
`..._ok` take such a run apart.  `Act.Within` is the other half: whatever the outcome of a step,
the state it leaves stands in a given relation to the state it found.  Relations that hold from a
state to itself and along two steps in a row carry over from the parts to the whole.
-/

namespace ObjectWire.Act

variable {σ τ α β : Type}

instance : LawfulMonad (Act σ) := by
  refine LawfulMonad.mk' (Act σ) ?_ ?_ ?_
  · intro α step
    funext state
    show (step >>= fun value => pure value) state = _
    rw [bind_apply]
    rcases step state with ⟨_ | _, _⟩ <;> rfl
  · intro α β value next
    rfl
  · intro α β γ step next last
    funext state
    rw [bind_apply, bind_apply, bind_apply]
    rcases step state with ⟨_ | _, _⟩ <;> rfl

theorem bind_of_ok {step : Act σ α} {next : α → Act σ β} {state reached : σ} {value : α}
    (h : step state = (.ok value, reached)) : (step >>= next) state = next value reached := by
  rw [bind_apply, h]

theorem bind_of_error {step : Act σ α} {next : α → Act σ β} {state reached : σ}
    {failure : Failure} (h : step state = (.error failure, reached)) :
    (step >>= next) state = (.error failure, reached) := by
  rw [bind_apply, h]

theorem bind_ok {step : Act σ α} {next : α → Act σ β} {state final : σ} {value : β}
    (h : (step >>= next) state = (.ok value, final)) :
    ∃ middle reached, step state = (.ok middle, reached) ∧
      next middle reached = (.ok value, final) := by
  rw [bind_apply] at h
  split at h
  · exact ⟨_, _, by assumption, h⟩
  · cases h

/-- A run that failed did so in its first part, or in what that part's answer chose. -/
theorem bind_error {step : Act σ α} {next : α → Act σ β} {state final : σ} {failure : Failure}
    (h : (step >>= next) state = (.error failure, final)) :
    step state = (.error failure, final) ∨
      ∃ middle reached, step state = (.ok middle, reached) ∧
        next middle reached = (.error failure, final) := by
  rw [bind_apply] at h
  rcases ran : step state with ⟨outcome, reached⟩
  rw [ran] at h
  cases outcome with
  | ok middle => exact .inr ⟨middle, reached, rfl, h⟩
  | error refused =>
    cases h
    exact .inl rfl

/-- Answering with something else leaves the same state. -/
theorem state_bind_pure (step : Act σ α) (value : β) (state : σ) :
    ((step >>= fun _ => pure value) state).2 = (step state).2 := by
  rw [bind_apply]
  rcases step state with ⟨_ | _, _⟩ <;> rfl

theorem map_apply (f : α → β) (step : Act σ α) (state : σ) :
    (f <$> step) state = ((step state).1.map f, (step state).2) := by
  show (step >>= fun value => pure (f value)) state = _
  rw [bind_apply]
  rcases step state with ⟨outcome, reached⟩
  cases outcome <;> rfl

theorem map_ok {f : α → β} {step : Act σ α} {state final : σ} {value : β}
    (h : (f <$> step) state = (.ok value, final)) :
    ∃ inner, step state = (.ok inner, final) ∧ f inner = value := by
  obtain ⟨inner, reached, ran, done⟩ := bind_ok h
  cases done
  exact ⟨inner, ran, rfl⟩

theorem lift_ok {outcome : Except Failure α} {state final : σ} {value : α}
    (h : lift outcome state = (.ok value, final)) : outcome = .ok value ∧ final = state := by
  cases h
  exact ⟨rfl, rfl⟩

theorem lift_error {outcome : Except Failure α} {state final : σ} {failure : Failure}
    (h : lift outcome state = (.error failure, final)) :
    outcome = .error failure ∧ final = state := by
  cases h
  exact ⟨rfl, rfl⟩

theorem undoing_ok {step : Act σ α} {undo : σ → σ} {state final : σ} {value : α}
    (h : step.undoing undo state = (.ok value, final)) : step state = (.ok value, final) := by
  unfold undoing at h
  split at h
  · cases h
  · exact h

theorem undoing_error {step : Act σ α} {undo : σ → σ} {state final : σ} {failure : Failure}
    (h : step.undoing undo state = (.error failure, final)) :
    ∃ reached, step state = (.error failure, reached) ∧ final = undo reached := by
  unfold undoing at h
  rcases ran : step state with ⟨outcome, reached⟩
  rw [ran] at h
  cases outcome with
  | ok value => cases h
  | error refused =>
    cases h
    exact ⟨reached, rfl, rfl⟩

@[simp] theorem lift_apply (outcome : Except Failure α) (state : σ) :
    lift outcome state = (outcome, state) := rfl

@[simp] theorem get_apply (state : σ) : (get : Act σ σ) state = (.ok state, state) := rfl

/-- An outcome that was reached in two parts, taken apart. -/
theorem settled_bind_ok {ε : Type} {outcome : Except ε α} {next : α → Except ε β} {value : β}
    (h : (outcome >>= next) = .ok value) :
    ∃ middle, outcome = .ok middle ∧ next middle = .ok value := by
  cases outcome with
  | error failure => cases h
  | ok middle => exact ⟨middle, rfl, h⟩

theorem settled_bind_of_ok (value : α) (next : α → Except Failure β) :
    (Except.ok value >>= next) = next value := rfl

theorem settled_map_ok {ε : Type} {outcome : Except ε α} {f : α → β} {value : β}
    (h : (f <$> outcome) = .ok value) : ∃ inner, outcome = .ok inner ∧ f inner = value := by
  cases outcome with
  | error failure => cases h
  | ok inner => cases h; exact ⟨inner, rfl, rfl⟩

theorem settled_of_toOption {outcome : Except Failure α} {value : α}
    (h : outcome.toOption = some value) : outcome = .ok value := by
  cases outcome with
  | error failure => cases h
  | ok inner => cases h; rfl

theorem exists_ok_of_isSome {outcome : Except Failure α} (h : outcome.toOption.isSome = true) :
    ∃ value, outcome = .ok value := by
  obtain ⟨value, answered⟩ := Option.isSome_iff_exists.mp h
  exact ⟨value, settled_of_toOption answered⟩

/-- The failure that an outcome is. -/
def failure? : Except Failure α → Option Failure
  | .error failure => some failure
  | .ok _ => none

theorem failed_of_failure? {outcome : Except Failure α} {failure : Failure}
    (h : failure? outcome = some failure) : outcome = .error failure := by
  cases outcome with
  | error inner => cases h; rfl
  | ok value => cases h

theorem settled_mapM {f : α → Except Failure β} {g : α → β} {items : List α}
    (each : ∀ item ∈ items, f item = .ok (g item)) : items.mapM f = .ok (items.map g) := by
  induction items with
  | nil => rfl
  | cons item items ih =>
    rw [List.mapM_cons, each item (by simp),
      ih fun other member => each other (List.mem_cons_of_mem _ member)]
    rfl

theorem on_ok {part : σ → τ} {restore : τ → σ → σ} {step : Act τ α} {state final : σ} {value : α}
    (h : on part restore step state = (.ok value, final)) :
    ∃ reached, step (part state) = (.ok value, reached) ∧ final = restore reached state := by
  unfold on at h
  rcases ran : step (part state) with ⟨outcome, reached⟩
  rw [ran] at h
  cases h
  exact ⟨reached, rfl, rfl⟩

theorem on_apply (part : σ → τ) (restore : τ → σ → σ) (step : Act τ α) (state : σ) :
    on part restore step state = ((step (part state)).1, restore (step (part state)).2 state) := rfl

/-- Two steps over a part, one after the other, are one step over the part. -/
theorem on_bind {part : σ → τ} {restore : τ → σ → σ} {step : Act τ α} {next : α → Act τ β}
    (part_restore : ∀ reached state, part (restore reached state) = reached)
    (restore_restore : ∀ reached before state,
      restore reached (restore before state) = restore reached state) :
    on part restore (step >>= next) =
      on part restore step >>= fun value => on part restore (next value) := by
  funext state
  rw [bind_apply, on_apply, on_apply, bind_apply]
  rcases step (part state) with ⟨outcome, reached⟩
  cases outcome with
  | ok value => simp only [on_apply, part_restore, restore_restore]
  | error failure => rfl

/-- A property of steps that holds of steps without effect and of every step made of steps that it
    holds of. -/
structure Composes (holds : {α : Type} → Act σ α → Prop) : Prop where
  pure : ∀ {α : Type} (value : α), holds (Pure.pure value : Act σ α)
  fail : ∀ {α : Type} (failure : Failure), holds (Act.fail failure : Act σ α)
  bind : ∀ {α β : Type} {step : Act σ α} {next : α → Act σ β}, holds step →
    (∀ value, holds (next value)) → holds (step >>= next)

namespace Composes

variable {holds : {α : Type} → Act σ α → Prop} (composes : Composes holds)
include composes

theorem map {step : Act σ α} (h : holds step) (f : α → β) : holds (f <$> step) :=
  composes.bind h fun value => composes.pure (f value)

theorem forEach {step : β → Act σ Unit} {items : List β} (each : ∀ item ∈ items, holds (step item)) :
    holds (Act.forEach step items) := by
  induction items with
  | nil => exact composes.pure ()
  | cons item items ih =>
    apply composes.bind (each item (by simp))
    intro _
    exact ih fun other member => each other (List.mem_cons_of_mem _ member)

theorem collect {step : β → Act σ α} {items : List β} (each : ∀ item ∈ items, holds (step item)) :
    holds (Act.collect step items) := by
  induction items with
  | nil => exact composes.pure _
  | cons item items ih =>
    apply composes.bind (each item (by simp))
    intro first
    have others := ih fun other member => each other (List.mem_cons_of_mem _ member)
    exact composes.bind others fun _ => composes.pure _

end Composes

/-- The state that a step leaves is related to the one it found, whatever the outcome. -/
def Within (related : σ → σ → Prop) (step : Act σ α) : Prop :=
  ∀ state, related state (step state).2

variable {related : σ → σ → Prop}

theorem within_of_ok {step : Act σ α} (within : step.Within related) {state final : σ} {value : α}
    (h : step state = (.ok value, final)) : related state final := by
  have := within state
  rwa [h] at this

section Refl

variable [Std.Refl related]

theorem within_pure (value : α) : (pure value : Act σ α).Within related :=
  fun state => Std.Refl.refl state

theorem within_fail (failure : Failure) : (fail failure : Act σ α).Within related :=
  fun state => Std.Refl.refl state

theorem within_lift (outcome : Except Failure α) : (lift outcome : Act σ α).Within related :=
  fun state => Std.Refl.refl state

theorem within_get : (get : Act σ σ).Within related :=
  fun state => Std.Refl.refl state

end Refl

section Trans

variable [Trans related related related]

theorem Within.bind {step : Act σ α} {next : α → Act σ β} (first : step.Within related)
    (rest : ∀ value, (next value).Within related) : (step >>= next).Within related := by
  intro state
  rw [bind_apply]
  have reached := first state
  rcases ran : step state with ⟨outcome, middle⟩
  rw [ran] at reached
  cases outcome with
  | ok value => exact Trans.trans reached (rest value middle)
  | error failure => exact reached

theorem composes_within [Std.Refl related] : Composes (σ := σ) fun step => step.Within related :=
  ⟨within_pure, within_fail, Within.bind⟩

theorem within_forEach [Std.Refl related] {step : β → Act σ Unit} {items : List β}
    (each : ∀ item ∈ items, (step item).Within related) : (forEach step items).Within related :=
  composes_within.forEach each

end Trans

theorem Within.attempt {step : Act σ α} (within : step.Within related) :
    step.attempt.Within related :=
  within

theorem Within.map {step : Act σ α} (within : step.Within related) (f : α → β) :
    (f <$> step).Within related := by
  intro state
  rw [map_apply]
  exact within state

/-- The state that a step leaves is related to the one it found, unless the step failed in a way
    that is excused. -/
def WithinUnless (excused : Failure → Prop) (related : σ → σ → Prop) (step : Act σ α) : Prop :=
  ∀ state, (∃ failure, excused failure ∧ (step state).1 = .error failure) ∨
    related state (step state).2

theorem withinUnless_iff {step : Act σ α} :
    step.WithinUnless (fun _ => False) related ↔ step.Within related := by
  constructor
  · intro within state
    rcases within state with ⟨failure, excused, -⟩ | reached
    · exact excused.elim
    · exact reached
  · intro within state
    exact .inr (within state)

theorem Within.unless {excused : Failure → Prop} {step : Act σ α} (within : step.Within related) :
    step.WithinUnless excused related :=
  fun state => .inr (within state)

theorem WithinUnless.bind [Trans related related related] {excused : Failure → Prop}
    {step : Act σ α} {next : α → Act σ β} (first : step.WithinUnless excused related)
    (rest : ∀ value, (next value).WithinUnless excused related) :
    (step >>= next).WithinUnless excused related := by
  intro state
  have reached := first state
  rcases ran : step state with ⟨failure | value, middle⟩
  · rw [bind_of_error ran]
    rw [ran] at reached
    rcases reached with ⟨refused, excused, same⟩ | held
    · cases same
      exact .inl ⟨failure, excused, rfl⟩
    · exact .inr held
  · rw [bind_of_ok ran]
    rw [ran] at reached
    rcases reached with ⟨refused, -, none⟩ | held
    · cases none
    · rcases rest value middle with failed | further
      · exact .inl failed
      · exact .inr (Trans.trans held further)

theorem WithinUnless.of_ok {excused : Failure → Prop} {step : Act σ α}
    (within : step.WithinUnless excused related) {state final : σ} {value : α}
    (ran : step state = (.ok value, final)) : related state final := by
  rcases within state with ⟨failure, -, failed⟩ | reached
  · rw [ran] at failed
    cases failed
  · rwa [ran] at reached

theorem composes_withinUnless [Std.Refl related] [Trans related related related]
    {excused : Failure → Prop} :
    Composes (σ := σ) fun step => step.WithinUnless excused related :=
  ⟨fun value => (within_pure value).unless, fun failure => (within_fail failure).unless,
    WithinUnless.bind⟩

theorem withinUnless_forEach [Std.Refl related] [Trans related related related]
    {excused : Failure → Prop} {step : β → Act σ Unit} {items : List β}
    (each : ∀ item ∈ items, (step item).WithinUnless excused related) :
    (forEach step items).WithinUnless excused related :=
  composes_withinUnless.forEach each

/-- The step fails in certain ways only. -/
def FailsOnly (allowed : Failure → Prop) (step : Act σ α) : Prop :=
  ∀ state failure final, step state = (.error failure, final) → allowed failure

section FailsOnly

variable {allowed : Failure → Prop}

theorem failsOnly_pure (value : α) : (pure value : Act σ α).FailsOnly allowed := by
  intro state failure final ran
  cases ran

theorem failsOnly_lift {outcome : Except Failure α}
    (h : ∀ failure, outcome = .error failure → allowed failure) :
    (lift outcome : Act σ α).FailsOnly allowed :=
  fun _ failure _ ran => h failure (lift_error ran).1

theorem FailsOnly.bind {step : Act σ α} {next : α → Act σ β} (first : step.FailsOnly allowed)
    (rest : ∀ value, (next value).FailsOnly allowed) : (step >>= next).FailsOnly allowed := by
  intro state failure final ran
  rcases bind_error ran with failed | ⟨value, reached, -, failed⟩
  · exact first _ _ _ failed
  · exact rest value _ _ _ failed

theorem failsOnly_forEach {step : β → Act σ Unit} {items : List β}
    (each : ∀ item ∈ items, (step item).FailsOnly allowed) :
    (forEach step items).FailsOnly allowed := by
  induction items with
  | nil => exact failsOnly_pure ()
  | cons item items ih =>
    apply (each item (by simp)).bind
    intro _
    exact ih fun other member => each other (List.mem_cons_of_mem _ member)

theorem FailsOnly.on {part : σ → τ} {restore : τ → σ → σ} {step : Act τ α}
    (h : step.FailsOnly allowed) : (Act.on part restore step).FailsOnly allowed := by
  intro state failure final ran
  rw [on_apply] at ran
  exact h (part state) failure _ (Prod.ext (Prod.mk.inj ran).1 rfl)

end FailsOnly

/-- What holds of the first state holds of the second. -/
def Preserves (holds : σ → Prop) (before after : σ) : Prop := holds before → holds after

instance (holds : σ → Prop) : Std.Refl (Preserves holds) := ⟨fun _ => id⟩

instance (holds : σ → Prop) : Trans (Preserves holds) (Preserves holds) (Preserves holds) :=
  ⟨fun first second => second ∘ first⟩

/-- The state that a step leaves is related to the one it found, and if the step answers, the
    answer and the state it leaves are as wanted. -/
def Meets (related : σ → σ → Prop) (step : Act σ α) (state : σ) (wanted : α → σ → Prop) : Prop :=
  related state (step state).2 ∧
    ∀ value final, step state = (.ok value, final) → wanted value final

theorem meets_of_ok {step : Act σ α} {state final : σ} {value : α} {wanted : α → σ → Prop}
    (ran : step state = (.ok value, final)) (reached : related state final)
    (h : wanted value final) : Meets related step state wanted := by
  unfold Meets
  rw [ran]
  refine ⟨reached, fun _ _ same => ?_⟩
  cases same
  exact h

theorem Meets.mono {step : Act σ α} {state : σ} {wanted weaker : α → σ → Prop}
    (h : Meets related step state wanted)
    (implies : ∀ value final, related state final → wanted value final → weaker value final) :
    Meets related step state weaker := by
  refine ⟨h.1, fun value final ran => ?_⟩
  have reached := h.1
  rw [ran] at reached
  exact implies value final reached (h.2 value final ran)

theorem Meets.weaken {weaker : σ → σ → Prop} {step : Act σ α} {state : σ} {wanted : α → σ → Prop}
    (h : Meets related step state wanted) (implies : ∀ before after, related before after →
      weaker before after) : Meets weaker step state wanted :=
  ⟨implies _ _ h.1, h.2⟩

theorem Meets.bind [Trans related related related] {step : Act σ α} {next : α → Act σ β}
    {state : σ} {wanted : α → σ → Prop} {final : β → σ → Prop}
    (first : Meets related step state wanted)
    (rest : ∀ value reached, related state reached → wanted value reached →
      Meets related (next value) reached final) : Meets related (step >>= next) state final := by
  obtain ⟨reached, answered⟩ := first
  unfold Meets
  rw [bind_apply]
  rcases ran : step state with ⟨outcome, middle⟩
  rw [ran] at reached
  cases outcome with
  | ok value =>
    obtain ⟨further, answers⟩ := rest value middle reached (answered value middle ran)
    exact ⟨Trans.trans reached further, answers⟩
  | error failure => exact ⟨reached, nofun⟩

section Refl

variable [Std.Refl related]

theorem meets_pure {value : α} {state : σ} {wanted : α → σ → Prop} (h : wanted value state) :
    Meets related (pure value) state wanted := by
  refine ⟨Std.Refl.refl state, fun _ _ ran => ?_⟩
  cases ran
  exact h

theorem meets_fail {failure : Failure} {state : σ} {wanted : α → σ → Prop} :
    Meets related (fail failure) state wanted :=
  ⟨Std.Refl.refl state, nofun⟩

theorem meets_lift {outcome : Except Failure α} {state : σ} {wanted : α → σ → Prop}
    (h : ∀ value, outcome = .ok value → wanted value state) :
    Meets related (lift outcome) state wanted := by
  refine ⟨Std.Refl.refl state, fun value final ran => ?_⟩
  obtain ⟨answered, rfl⟩ := lift_ok ran
  exact h value answered

theorem meets_get {state : σ} :
    Meets related get state fun value now => state = value ∧ state = now := by
  refine ⟨Std.Refl.refl state, fun value final ran => ?_⟩
  cases ran
  exact ⟨rfl, rfl⟩

/-- What every step keeps holds after all of them. -/
theorem meets_forEach [Trans related related related] {step : β → Act σ Unit} {items : List β}
    {kept : σ → Prop} {state : σ} (start : kept state)
    (each : ∀ item ∈ items, ∀ now, kept now → Meets related (step item) now fun _ => kept) :
    Meets related (forEach step items) state fun _ => kept := by
  induction items generalizing state with
  | nil => exact meets_pure start
  | cons item items ih =>
    apply (each item (by simp) state start).bind
    intro _ now _ still
    exact ih still fun other member => each other (List.mem_cons_of_mem _ member)

end Refl

/-- The step answers, and the answer and the state it leaves are as wanted. -/
def Gives (step : Act σ α) (state : σ) (wanted : α → σ → Prop) : Prop :=
  ∃ value final, step state = (.ok value, final) ∧ wanted value final

theorem Gives.bind {step : Act σ α} {next : α → Act σ β} {state : σ} {wanted : α → σ → Prop}
    {final : β → σ → Prop} (first : Gives step state wanted)
    (rest : ∀ value reached, wanted value reached → Gives (next value) reached final) :
    Gives (step >>= next) state final := by
  obtain ⟨value, reached, ran, holds⟩ := first
  obtain ⟨answer, last, done, reaches⟩ := rest value reached holds
  exact ⟨answer, last, (bind_of_ok ran).trans done, reaches⟩

theorem Gives.mono {step : Act σ α} {state : σ} {wanted weaker : α → σ → Prop}
    (h : Gives step state wanted)
    (implies : ∀ value final, wanted value final → weaker value final) :
    Gives step state weaker := by
  obtain ⟨value, final, ran, holds⟩ := h
  exact ⟨value, final, ran, implies value final holds⟩

theorem Gives.meets {step : Act σ α} {state : σ} {wanted other : α → σ → Prop}
    (given : Gives step state wanted) (met : Meets related step state other) :
    Gives step state fun value final => wanted value final ∧ related state final := by
  obtain ⟨value, final, ran, holds⟩ := given
  have reached := met.1
  rw [ran] at reached
  exact ⟨value, final, ran, holds, reached⟩

theorem Gives.within {step : Act σ α} {state : σ} {wanted : α → σ → Prop}
    (given : Gives step state wanted) (within : step.Within related) :
    Gives step state fun value final => wanted value final ∧ related state final := by
  obtain ⟨value, final, ran, holds⟩ := given
  exact ⟨value, final, ran, holds, within_of_ok within ran⟩

theorem gives_pure {value : α} {state : σ} {wanted : α → σ → Prop} (h : wanted value state) :
    Gives (pure value) state wanted :=
  ⟨value, state, rfl, h⟩

/-- What each step takes on from the items that are left, the last one leaves for none. -/
theorem gives_forEach {step : β → Act σ Unit} {items : List β} {state : σ}
    (kept : List β → σ → Prop) (start : kept items state)
    (each : ∀ item ∈ items, ∀ rest now, kept (item :: rest) now →
      Gives (step item) now fun _ next => kept rest next) :
    Gives (forEach step items) state fun _ => kept [] := by
  induction items generalizing state with
  | nil => exact gives_pure start
  | cons item items ih =>
    apply (each item (by simp) items state start).bind
    intro _ next held
    exact ih held fun other member => each other (List.mem_cons_of_mem _ member)

/-- Whichever way the step ends, the state it leaves is as wanted, and so is the answer or the
    failure. -/
def Ends (step : Act σ α) (state : σ) (done : α → σ → Prop) (failed : Failure → σ → Prop) : Prop :=
  match step state with
  | (.ok value, final) => done value final
  | (.error failure, final) => failed failure final

section Ends

variable {state : σ} {failed : Failure → σ → Prop}

theorem ends_of_ok {step : Act σ α} {done : α → σ → Prop} {value : α} {final : σ}
    (ran : step state = (.ok value, final)) (h : done value final) :
    Ends step state done failed := by
  unfold Ends
  rwa [ran]

theorem ends_of_error {step : Act σ α} {done : α → σ → Prop} {failure : Failure} {final : σ}
    (ran : step state = (.error failure, final)) (h : failed failure final) :
    Ends step state done failed := by
  unfold Ends
  rwa [ran]

theorem Ends.of_ok {step : Act σ α} {done : α → σ → Prop} (ends : Ends step state done failed)
    {value : α} {final : σ} (ran : step state = (.ok value, final)) : done value final := by
  unfold Ends at ends
  rwa [ran] at ends

theorem Ends.of_error {step : Act σ α} {done : α → σ → Prop} (ends : Ends step state done failed)
    {failure : Failure} {final : σ} (ran : step state = (.error failure, final)) :
    failed failure final := by
  unfold Ends at ends
  rwa [ran] at ends

theorem Ends.bind {step : Act σ α} {next : α → Act σ β} {middle : α → σ → Prop}
    {done : β → σ → Prop} (first : Ends step state middle failed)
    (rest : ∀ value reached, middle value reached → Ends (next value) reached done failed) :
    Ends (step >>= next) state done failed := by
  rcases ran : step state with ⟨failure | value, reached⟩
  · exact ends_of_error (bind_of_error ran) (first.of_error ran)
  · have continued := rest value reached (first.of_ok ran)
    unfold Ends
    rwa [bind_of_ok ran]

theorem Ends.mono {step : Act σ α} {done further : α → σ → Prop} {refused : Failure → σ → Prop}
    (ends : Ends step state done failed)
    (answered : ∀ value final, done value final → further value final)
    (broken : ∀ failure final, failed failure final → refused failure final) :
    Ends step state further refused := by
  rcases ran : step state with ⟨failure | value, final⟩
  · exact ends_of_error ran (broken failure final (ends.of_error ran))
  · exact ends_of_ok ran (answered value final (ends.of_ok ran))

/-- What a step leaves whichever way it ends, it leaves. -/
theorem Ends.leaves {step : Act σ α} {kept : σ → Prop}
    (ends : Ends step state (fun _ => kept) fun _ => kept) : kept (step state).2 := by
  rcases ran : step state with ⟨failure | value, final⟩
  · exact ends.of_error ran
  · exact ends.of_ok ran

theorem Gives.ends {step : Act σ α} {wanted : α → σ → Prop} (given : Gives step state wanted) :
    Ends step state wanted failed := by
  obtain ⟨value, final, ran, holds⟩ := given
  exact ends_of_ok ran holds

/-- A step that cannot fail gives an answer. -/
theorem Ends.gives {step : Act σ α} {wanted : α → σ → Prop}
    (ends : Ends step state wanted fun _ _ => False) : Gives step state wanted := by
  rcases ran : step state with ⟨failure | value, final⟩
  · exact (ends.of_error ran).elim
  · exact ⟨value, final, ran, ends.of_ok ran⟩

/-- What each step makes of its own item is there after all of them, if the steps do not undo
    it. -/
theorem ends_forEach [Std.Refl related] [Trans related related related] {step : β → Act σ Unit}
    {items : List β} {made : β → σ → Prop}
    (stays : ∀ item before after, made item before → related before after → made item after)
    (each : ∀ item ∈ items, ∀ now, related state now →
      Ends (step item) now (fun _ next => related now next ∧ made item next) failed) :
    Ends (forEach step items) state
      (fun _ final => related state final ∧ ∀ item ∈ items, made item final) failed := by
  suffices from_here : ∀ now, related state now → Ends (forEach step items) now
      (fun _ final => related now final ∧ ∀ item ∈ items, made item final) failed from
    from_here state (Std.Refl.refl state)
  induction items with
  | nil => exact fun now _ => ends_of_ok rfl ⟨Std.Refl.refl now, nofun⟩
  | cons item items ih =>
    intro now reached
    apply (each item (by simp) now reached).bind
    rintro - next ⟨further, own⟩
    have others := ih (fun other member => each other (List.mem_cons_of_mem _ member)) next
      (Trans.trans reached further)
    refine others.mono ?_ fun _ _ => id
    rintro - final ⟨last, all⟩
    refine ⟨Trans.trans further last, List.forall_mem_cons.mpr ⟨?_, all⟩⟩
    exact stays item next final own last

end Ends

section ForEach

variable {σ β : Type} {step : β → Act σ Unit} {items front : List β} {item : β}
  {state middle final : σ} {failure : Failure}

theorem forEach_append (step : β → Act σ Unit) (front back : List β) :
    forEach step (front ++ back) = (do forEach step front; forEach step back) := by
  induction front with
  | nil => rfl
  | cons item front ih => rw [List.cons_append, forEach, forEach, ih, bind_assoc]

theorem collect_append {α : Type} (step : β → Act σ α) (front back : List β) :
    collect step (front ++ back) = (do
      let first ← collect step front
      let others ← collect step back
      pure (first ++ others)) := by
  induction front with
  | nil => simp [collect]
  | cons item front ih => simp [collect, ih]

/-- The steps for a list fail where the step for an item fails after those in front of it. -/
theorem forEach_of_error (first : forEach step front state = (.ok (), middle))
    (failed : step item middle = (.error failure, final)) (back : List β) :
    forEach step (front ++ item :: back) state = (.error failure, final) := by
  rw [forEach_append, bind_of_ok first]
  exact bind_of_error failed

/-- The steps for a list that failed did so at one item, after those in front of it. -/
theorem forEach_error (ran : forEach step items state = (.error failure, final)) :
    ∃ front item back middle, items = front ++ item :: back ∧
      forEach step front state = (.ok (), middle) ∧
      step item middle = (.error failure, final) := by
  induction items generalizing state with
  | nil => cases ran
  | cons first items ih =>
    rcases bind_error ran with failed | ⟨_, reached, stepped, ran⟩
    · exact ⟨[], first, items, state, rfl, rfl, failed⟩
    · obtain ⟨front, item, back, middle, rfl, passed, failed⟩ := ih ran
      exact ⟨first :: front, item, back, middle, rfl, (bind_of_ok stepped).trans passed, failed⟩

/-- Whatever answers the same way for every item does so for the list. -/
theorem forEach_of_ok {other : β → Act σ Unit} (ran : forEach step items state = (.ok (), final))
    (each : ∀ item ∈ items, ∀ before after, step item before = (.ok (), after) →
      other item before = (.ok (), after)) : forEach other items state = (.ok (), final) := by
  induction items generalizing state with
  | nil => exact ran
  | cons item items ih =>
    obtain ⟨_, reached, stepped, rest⟩ := bind_ok ran
    exact (bind_of_ok (each item (by simp) state reached stepped)).trans
      (ih rest fun other member => each other (List.mem_cons_of_mem _ member))

/-- What holds of the items that are done holds of all of them in the end. -/
theorem forEach_ok {kept : List β → σ → Prop} (start : kept [] state)
    (each : ∀ done item rest before after, items = done ++ item :: rest → kept done before →
      step item before = (.ok (), after) → kept (done ++ [item]) after)
    (ran : forEach step items state = (.ok (), final)) : kept items final := by
  suffices from_here : ∀ rest done state, items = done ++ rest → kept done state →
      forEach step rest state = (.ok (), final) → kept items final from
    from_here items [] state rfl start ran
  intro rest
  induction rest with
  | nil =>
    intro done state parts held ran
    cases ran
    rwa [parts, List.append_nil]
  | cons item rest ih =>
    intro done state parts held ran
    obtain ⟨_, reached, stepped, others⟩ := bind_ok ran
    have next := each done item rest state reached parts held stepped
    exact ih (done ++ [item]) reached (by rw [parts, List.append_assoc]; rfl) next others

/-- What every step keeps, unless it fails in a certain way, holds after all of them. -/
theorem ends_forEach_kept {kept : σ → Prop} {failed : Failure → σ → Prop} (start : kept state)
    (each : ∀ item ∈ items, ∀ now, kept now → Ends (step item) now (fun _ => kept) failed) :
    Ends (forEach step items) state (fun _ => kept) failed := by
  induction items generalizing state with
  | nil => exact ends_of_ok rfl start
  | cons item items ih =>
    apply (each item (by simp) state start).bind
    intro _ now still
    exact ih still fun other member => each other (List.mem_cons_of_mem _ member)

end ForEach

end ObjectWire.Act
