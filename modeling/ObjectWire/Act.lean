import ObjectWire.Failure

/-!
# Steps that may fail

An `Act` runs over a state and either answers or fails.  Unlike a plain `Except`, a failing step
still hands on the state it reached: what was read stays read, what was written stays written,
and what was registered stays registered.
-/

namespace ObjectWire

/-- A step over a state that may fail; the state it leaves counts in both cases. -/
def Act (σ α : Type) : Type := σ → Except Failure α × σ

namespace Act

variable {σ τ α β : Type}

/-- Runs a step. -/
def run (step : Act σ α) (state : σ) : Except Failure α × σ := step state

/-- The step that answers without touching the state. -/
def answer (value : α) : Act σ α := fun state => (.ok value, state)

/-- Runs a step, then, if it answered, the step chosen by the answer. -/
def andThen (step : Act σ α) (next : α → Act σ β) : Act σ β := fun state =>
  match step state with
  | (.ok value, reached) => next value reached
  | (.error failure, reached) => (.error failure, reached)

/-- The step that fails without touching the state. -/
def fail (failure : Failure) : Act σ α := fun state => (.error failure, state)

instance : Monad (Act σ) where
  pure := answer
  bind := andThen

instance : MonadExcept Failure (Act σ) where
  throw := fail
  tryCatch step handler := fun state =>
    match step state with
    | (.error failure, reached) => handler failure reached
    | outcome => outcome

instance : MonadStateOf σ (Act σ) where
  get := fun state => (.ok state, state)
  set next := fun _ => (.ok (), next)
  modifyGet change := fun state => (.ok (change state).1, (change state).2)

@[simp] theorem pure_apply (value : α) (state : σ) :
    (pure value : Act σ α) state = (.ok value, state) := rfl

@[simp] theorem fail_apply (failure : Failure) (state : σ) :
    (fail failure : Act σ α) state = (.error failure, state) := rfl

@[simp] theorem throw_apply (failure : Failure) (state : σ) :
    (throw failure : Act σ α) state = (.error failure, state) := rfl

theorem bind_apply (step : Act σ α) (next : α → Act σ β) (state : σ) :
    (step >>= next) state =
      match step state with
      | (.ok value, reached) => next value reached
      | (.error failure, reached) => (.error failure, reached) := rfl

/-- The step with a settled outcome. -/
def lift (outcome : Except Failure α) : Act σ α := fun state => (outcome, state)

/-- A question to the state. -/
def ask (question : σ → α) : Act σ α := fun state => (.ok (question state), state)

/-- A change of the state. -/
def change (f : σ → σ) : Act σ Unit := fun state => (.ok (), f state)

/-- Runs a step over a part of the state. -/
def on (part : σ → τ) (restore : τ → σ → σ) (step : Act τ α) : Act σ α := fun state =>
  match step (part state) with
  | (outcome, reached) => (outcome, restore reached state)

/-- Runs a step and answers with its outcome, failure included. -/
def attempt (step : Act σ α) : Act σ (Except Failure α) := fun state =>
  match step state with
  | (outcome, reached) => (.ok outcome, reached)

/-- Runs a step, then a change of the state, whether the step failed or not. -/
def afterwards (step : Act σ α) (after : σ → σ) : Act σ α := fun state =>
  match step state with
  | (outcome, reached) => (outcome, after reached)

/-- Runs a step and, if it fails, a change of the state that takes back what was done. -/
def undoing (step : Act σ α) (undo : σ → σ) : Act σ α := fun state =>
  match step state with
  | (.error failure, reached) => (.error failure, undo reached)
  | outcome => outcome

/-- Runs a step `n` times and collects the answers; the first failure ends it. -/
def times : (n : Nat) → Act σ α → Act σ (List α)
  | 0, _ => pure []
  | n + 1, step => do
    let first ← step
    let others ← times n step
    pure (first :: others)

/-- Runs a step for every item, in order; the first failure ends it. -/
def forEach (step : β → Act σ Unit) : List β → Act σ Unit
  | [] => pure ()
  | item :: items => do
    step item
    forEach step items

/-- Runs a step for every item and collects the answers; the first failure ends it. -/
def collect (step : β → Act σ α) : List β → Act σ (List α)
  | [] => pure []
  | item :: items => do
    let first ← step item
    let others ← collect step items
    pure (first :: others)

end Act

end ObjectWire
