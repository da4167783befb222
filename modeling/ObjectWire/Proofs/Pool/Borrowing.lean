import ObjectWire.Proofs.Act
import ObjectWire.Proofs.Pool.Loans

/-!
# Steps that borrow buffers

A step borrows if its use of the pool can be told apart from everything else it does: from whatever
pool it takes its buffers, and whatever room the buffer has that it writes to, it does the same,
answers or fails with the same, and leaves the pool as the same moves leave it.  The moves leave out
what was out, whether the step answers or fails.  Steps made of steps that borrow borrow themselves,
each part after the moves of the one before.
-/

namespace ObjectWire

/-- States with a pool to take buffers from, with a buffer to write to, or with both. -/
class Equipped (σ : Type) where
  /-- The state with another pool, and with other room in its buffer. -/
  equip : Pool → Room → σ → σ

open Equipped (equip)

namespace Act

variable {σ τ α β : Type} [Equipped σ] [Equipped τ] {levels : Nat}

/-- The step does the same whatever the pool and the room in the buffer, and leaves them as they
    are. -/
def Blind (step : Act σ α) : Prop :=
  ∀ pool room state,
    step (equip pool room state) = ((step state).1, equip pool room (step state).2)

theorem blind_lift (outcome : Except Failure α) : (lift outcome : Act σ α).Blind :=
  fun _ _ _ => rfl

theorem Blind.bind {step : Act σ α} {next : α → Act σ β} (first : step.Blind)
    (rest : ∀ value, (next value).Blind) : (step >>= next).Blind := by
  intro pool room state
  rw [bind_apply, bind_apply, first]
  rcases step state with ⟨_ | value, reached⟩
  · rfl
  · exact rest value pool room reached

theorem Blind.on {part : σ → τ} {restore : τ → σ → σ} {step : Act τ α} (blind : step.Blind)
    (parts : ∀ pool room state, part (equip pool room state) = equip pool room (part state))
    (restores : ∀ pool room reached state,
      restore (equip pool room reached) (equip pool room state) =
        equip pool room (restore reached state)) :
    (on part restore step).Blind := by
  intro pool room state
  rw [on_apply, on_apply, parts, blind, restores]

/-- The step uses the pool by moves that do not depend on the pool and have at most `levels` buffers
    out at the same time, and what else it does depends neither on the pool nor on the room in its
    buffer. -/
def Borrows (levels : Nat) (step : Act σ α) : Prop :=
  ∀ state, ∃ moves, Pool.Balanced levels moves ∧ ∃ needs outcome reached,
    ∀ (loans : Pool.Loans) (room : Room), loans.pool.Clean →
      step (equip loans.pool room state) =
        (outcome, equip (loans.run moves).pool (room.after needs) reached)

/-- A step that leaves the pool alone borrows nothing. -/
theorem borrows_nothing {step : Act σ α}
    (alone : ∀ state, ∃ needs outcome reached, ∀ pool room,
      step (equip pool room state) = (outcome, equip pool (room.after needs) reached)) :
    step.Borrows levels := by
  intro state
  obtain ⟨needs, outcome, reached, same⟩ := alone state
  exact ⟨[], .nil, needs, outcome, reached, fun loans room _ => same loans.pool room⟩

theorem borrows_of_blind {step : Act σ α} (blind : step.Blind) : step.Borrows levels := by
  exact borrows_nothing fun state => ⟨[], (step state).1, (step state).2, fun pool room =>
    blind pool room state⟩

theorem borrows_lift (outcome : Except Failure α) : (lift outcome : Act σ α).Borrows levels :=
  borrows_of_blind (blind_lift outcome)

theorem borrows_pure (value : α) : (pure value : Act σ α).Borrows levels :=
  borrows_lift (.ok value)

theorem borrows_fail (failure : Failure) : (fail failure : Act σ α).Borrows levels :=
  borrows_lift (.error failure)

theorem Borrows.mono {more : Nat} {step : Act σ α} (borrows : step.Borrows levels)
    (le : levels ≤ more) : step.Borrows more := by
  intro state
  obtain ⟨moves, balanced, rest⟩ := borrows state
  exact ⟨moves, balanced.mono le, rest⟩

theorem Borrows.bind {step : Act σ α} {next : α → Act σ β} (first : step.Borrows levels)
    (rest : ∀ value, (next value).Borrows levels) : (step >>= next).Borrows levels := by
  intro state
  obtain ⟨moves, balanced, needs, outcome, reached, ran⟩ := first state
  cases outcome with
  | error failure =>
    exact ⟨moves, balanced, needs, .error failure, reached, fun loans room clean =>
      bind_of_error (ran loans room clean)⟩
  | ok value =>
    obtain ⟨others, balances, further, outcome, final, continued⟩ := rest value reached
    refine ⟨moves ++ others, balanced.append balances, needs ++ further, outcome, final,
      fun loans room clean => ?_⟩
    rw [bind_of_ok (ran loans room clean), Pool.Loans.run_append, Room.after_append]
    exact continued (loans.run moves) _ (Pool.Loans.clean_run clean moves)

theorem Borrows.map {step : Act σ α} (borrows : step.Borrows levels) (f : α → β) :
    (f <$> step).Borrows levels := by
  intro state
  obtain ⟨moves, balanced, needs, outcome, reached, ran⟩ := borrows state
  refine ⟨moves, balanced, needs, outcome.map f, reached, fun loans room clean => ?_⟩
  rw [map_apply, ran loans room clean]

theorem composes_borrows : Composes (σ := σ) fun step => step.Borrows levels :=
  ⟨borrows_pure, borrows_fail, Borrows.bind⟩

/-- What a step does after a look at the state may depend on anything but the pool and the room. -/
theorem borrows_get {next : σ → Act σ β}
    (blind : ∀ pool room state, next (equip pool room state) = next state)
    (borrows : ∀ state, (next state).Borrows levels) :
    ((get : Act σ σ) >>= next).Borrows levels := by
  intro state
  obtain ⟨moves, balanced, needs, outcome, reached, ran⟩ := borrows state state
  refine ⟨moves, balanced, needs, outcome, reached, fun loans room clean => ?_⟩
  rw [bind_of_ok (get_apply _), blind]
  exact ran loans room clean

section Parts

variable {part : σ → τ} {restore : τ → σ → σ} {step : Act τ α}

/-- A step over the part of a state that has the pool. -/
theorem Borrows.on_pool (borrows : step.Borrows levels)
    (parts : ∀ pool room state, part (equip pool room state) = equip pool room (part state))
    (restores : ∀ pool before room other reached state,
      restore (equip pool other reached) (equip before room state) =
        equip pool room (restore reached state)) :
    (on part restore step).Borrows levels := by
  intro state
  obtain ⟨moves, balanced, needs, outcome, reached, ran⟩ := borrows (part state)
  refine ⟨moves, balanced, [], outcome, restore reached state, fun loans room clean => ?_⟩
  rw [on_apply, parts, ran loans room clean]
  exact congrArg (Prod.mk outcome) (restores ..)

/-- A step over the part of a state that has the buffer; it has no pool to borrow from. -/
theorem Borrows.on_buffer (borrows : step.Borrows 0)
    (parts : ∀ pool room state, part (equip pool room state) = equip pool room (part state))
    (restores : ∀ pool before room other reached state,
      restore (equip pool room reached) (equip before other state) =
        equip before room (restore reached state)) :
    (on part restore step).Borrows levels := by
  intro state
  obtain ⟨moves, -, needs, outcome, reached, ran⟩ := borrows (part state)
  refine ⟨[], .nil, needs, outcome, restore reached state, fun loans room clean => ?_⟩
  rw [on_apply, parts, ran loans room clean]
  exact congrArg (Prod.mk outcome) (restores ..)

end Parts

/-- A step that takes a buffer, runs another step with it, and gives it back whatever comes of
    that has one buffer more out than the other step. -/
theorem Borrows.lend {inner : Act τ α} {outer : Act σ β} (borrows : inner.Borrows levels)
    (enter : σ → τ) (needs : σ → List Nat) (answer : Except Failure α → τ → Except Failure β)
    (leave : τ → σ)
    (runs : ∀ (pool : Pool) (room : Room) state, pool.Clean → outer (equip pool room state) =
      let ran := inner
        (equip pool.acquire.2 (pool.acquire.1.room.after (needs state)) (enter state))
      (answer ran.1 ran.2, leave ran.2))
    (answers : ∀ pool room outcome reached,
      answer outcome (equip pool room reached) = answer outcome reached)
    (leaves : ∀ pool room other reached,
      leave (equip pool room reached) = equip (pool.release ⟨[], room⟩) other (leave reached)) :
    outer.Borrows (levels + 1) := by
  intro state
  obtain ⟨moves, balanced, further, outcome, reached, ran⟩ := borrows (enter state)
  let all := needs state ++ further
  refine ⟨_, balanced.lend all, [], answer outcome reached, leave reached,
    fun loans other clean => ?_⟩
  let buffer := loans.pool.acquire.1
  have inside := ran loans.take (buffer.room.after (needs state)) clean.acquire
  have moved : loans.run (.take :: moves ++ [.giveBack all]) =
      (loans.take.run moves).giveBack all := Pool.Loans.run_append ..
  have returned : (loans.take.run moves).pool.release ⟨[], buffer.room.after all⟩ =
      (loans.take.run moves).pool.release (buffer.grown all) := Pool.release_congr rfl
  rw [runs loans.pool other state clean]
  dsimp only
  rw [show loans.pool.acquire.2 = loans.take.pool from rfl, inside, moved,
    Pool.Loans.giveBack_of_out (balanced loans.take).1, answers, leaves _ _ other,
    ← Room.after_append, returned]
  rfl

end Act

/-! Buffers, and what is written to them. -/

instance : Equipped Output := ⟨fun _ room output => { output with room := room }⟩

namespace Output

variable {levels : Nat}

theorem borrows_write (run : Bytes) : (write run).Borrows levels :=
  Act.borrows_nothing fun output =>
    ⟨[output.size + run.length], .ok (), output.append run, fun _ _ => rfl⟩

theorem borrows_writeItem (item : Except Failure Bytes) : (writeItem item).Borrows levels :=
  (Act.borrows_lift item).bind borrows_write

theorem blind_patchInt (position : Nat) (n : Int32) : (patchInt position n).Blind := by
  intro pool room output
  unfold patchInt
  show (if position + 4 ≤ output.size then _ else _) = _
  by_cases inside : position + 4 ≤ output.size
  · rw [if_pos inside, if_pos inside]
    rfl
  · rw [if_neg inside, if_neg inside]
    rfl

end Output

end ObjectWire
