import ObjectWire.Proofs.Pool.Borrowing

/-!
# Steps that are run again

A step that answered leaves things behind, and the next run may go another way because of them: what
was looked up is adopted by then, what was described is registered.  A step repeats if it comes to
the same nevertheless.  Run again at any later time, on states that still know what was known after
the first run, it gives the same answer and leaves what it works on looking the same.  Steps made of
steps that repeat repeat themselves.
-/

namespace ObjectWire

/-- What running a step again goes by. -/
structure Memory (σ : Type) where
  /-- The states that steps are run on. -/
  holds : σ → Prop
  /-- The second state knows all that the first one does. -/
  keeps : σ → σ → Prop
  View : Type
  /-- What a step works on; it has to look the same when the step is run again. -/
  view : σ → View
  refl : ∀ state, keeps state state
  trans : ∀ {first second third}, keeps first second → keeps second third → keeps first third

/-- The memory of a state that is looked at as a whole and need not know anything. -/
@[reducible] def Memory.ofView {σ ω : Type} (view : σ → ω) : Memory σ where
  holds _ := True
  keeps _ _ := True
  View := ω
  view := view
  refl _ := trivial
  trans _ _ := trivial

/-- How a step over one kind of state is run in a step over another: what of the outer state it is
    run on, and what becomes of the outer state. -/
structure Memory.Enters {σ τ : Type} (outer : Memory σ) (inner : Memory τ) (enter : σ → τ)
    (leave : σ → τ → σ) : Prop where
  holds : ∀ {state}, outer.holds state → inner.holds (enter state)
  looks : ∀ {state again}, outer.holds state → outer.holds again →
    outer.view again = outer.view state → inner.view (enter again) = inner.view (enter state)
  back : ∀ {state reached}, outer.holds state → inner.holds reached →
    inner.keeps (enter state) reached →
    outer.holds (leave state reached) ∧ outer.keeps state (leave state reached)
  ahead : ∀ {state reached again}, outer.keeps (leave state reached) again →
    inner.keeps reached (enter again)
  shows : ∀ {state again reached last}, outer.view again = outer.view state →
    inner.view last = inner.view reached →
    outer.view (leave again last) = outer.view (leave state reached)

namespace Act

open Equipped (equip)

variable {σ τ α β : Type} {memory : Memory σ}

/-- Run again where all that it left is known and what it works on looks the same, the step gives the
    same answer and leaves what it works on looking the same. -/
def Repeats (memory : Memory σ) (step : Act σ α) : Prop :=
  ∀ ⦃state value final⦄, memory.holds state → step state = (.ok value, final) →
    memory.holds final ∧ memory.keeps state final ∧
      ∀ ⦃again⦄, memory.holds again → memory.keeps final again →
        memory.view again = memory.view state →
        ∃ last, step again = (.ok value, last) ∧ memory.view last = memory.view final

theorem repeats_pure (value : α) : (pure value : Act σ α).Repeats memory := by
  intro state answer final holds ran
  cases ran
  exact ⟨holds, memory.refl state, fun again _ _ same => ⟨again, rfl, same⟩⟩

theorem repeats_fail (failure : Failure) : (fail failure : Act σ α).Repeats memory := by
  intro state answer final holds ran
  cases ran

theorem Repeats.bind {step : Act σ α} {next : α → Act σ β} (first : step.Repeats memory)
    (rest : ∀ value, (next value).Repeats memory) : (step >>= next).Repeats memory := by
  intro state value final holds ran
  obtain ⟨middle, reached, stepped, ran⟩ := bind_ok ran
  obtain ⟨reachedHolds, kept, repeated⟩ := first holds stepped
  obtain ⟨finalHolds, further, continued⟩ := rest middle reachedHolds ran
  refine ⟨finalHolds, memory.trans kept further, fun again ready knows same => ?_⟩
  obtain ⟨between, stepsAgain, looks⟩ := repeated ready (memory.trans further knows) same
  obtain ⟨betweenHolds, onwards, -⟩ := first ready stepsAgain
  obtain ⟨last, ends, shown⟩ := continued betweenHolds (memory.trans knows onwards) looks
  exact ⟨last, (bind_of_ok stepsAgain).trans ends, shown⟩

theorem composes_repeats : Composes (σ := σ) fun step => step.Repeats memory :=
  ⟨repeats_pure, repeats_fail, Repeats.bind⟩

/-- What a step does after a look at the state may depend on what is known and on what it works
    on. -/
theorem repeats_get {next : σ → Act σ β}
    (same : ∀ {state again}, memory.holds state → memory.keeps state again →
      memory.view again = memory.view state → next again = next state)
    (each : ∀ state, (next state).Repeats memory) :
    ((get : Act σ σ) >>= next).Repeats memory := by
  intro state value final holds ran
  obtain ⟨finalHolds, kept, repeated⟩ := each state holds ran
  refine ⟨finalHolds, kept, fun again ready knows looks => ?_⟩
  have chosen := same holds (memory.trans kept knows) looks
  obtain ⟨last, ends, shown⟩ := repeated ready knows looks
  refine ⟨last, ?_, shown⟩
  rw [bind_of_ok (get_apply again), chosen]
  exact ends

/-- On the states in question the step may be taken for another one. -/
theorem Repeats.congr {step other : Act σ α} (repeats : other.Repeats memory)
    (same : ∀ {state}, memory.holds state → step state = other state) : step.Repeats memory := by
  intro state value final holds ran
  rw [same holds] at ran
  obtain ⟨finalHolds, kept, repeated⟩ := repeats holds ran
  refine ⟨finalHolds, kept, fun again ready knows looks => ?_⟩
  rw [same ready]
  exact repeated ready knows looks

/-- A step that runs another one on what it makes of its state repeats with it. -/
theorem Repeats.enter {within : Memory τ} {inner : Act τ α} {outer : Act σ β}
    (repeats : inner.Repeats within) {enter : σ → τ} {leave : σ → τ → σ}
    (enters : memory.Enters within enter leave) (answer : α → τ → β)
    (runs : ∀ state, outer state =
      ((fun value => answer value (inner (enter state)).2) <$> (inner (enter state)).1,
        leave state (inner (enter state)).2))
    (answers : ∀ {value reached last}, within.view last = within.view reached →
      answer value last = answer value reached) : outer.Repeats memory := by
  intro state value final holds ran
  rw [runs] at ran
  rcases inside : inner (enter state) with ⟨outcome, reached⟩
  rw [inside] at ran
  obtain ⟨answered, rfl⟩ := Prod.mk.inj ran
  obtain ⟨own, rfl, rfl⟩ := settled_map_ok answered
  obtain ⟨reachedHolds, kept, repeated⟩ := repeats (enters.holds holds) inside
  obtain ⟨finalHolds, further⟩ := enters.back holds reachedHolds kept
  refine ⟨finalHolds, further, fun again ready knows same => ?_⟩
  obtain ⟨last, ends, shown⟩ :=
    repeated (enters.holds ready) (enters.ahead knows) (enters.looks holds ready same)
  refine ⟨leave again last, ?_, enters.shows same shown⟩
  rw [runs, ends, ← answers shown]
  rfl

/-- A step over a part of the state. -/
theorem Repeats.on {within : Memory τ} {step : Act τ α} (repeats : step.Repeats within)
    {part : σ → τ} {restore : τ → σ → σ}
    (enters : memory.Enters within part fun state reached => restore reached state) :
    (on part restore step).Repeats memory := by
  refine repeats.enter enters (fun value _ => value) (fun state => ?_) fun _ => rfl
  rw [on_apply]
  cases (step (part state)).1 <;> rfl

section Borrows

variable [Equipped σ] {levels : Nat} {step : Act σ α}

/-- A step that borrows answers with the same whatever the pool and the room in its buffer, and
    leaves the same but for them. -/
theorem Borrows.elsewhere (borrows : step.Borrows levels) {pool other : Pool} {room : Room}
    {state final : σ} {value : α} (clean : pool.Clean) (alsoClean : other.Clean) (space : Room)
    (ran : step (equip pool room state) = (.ok value, final)) :
    ∃ reached now grown later wide, final = equip now grown reached ∧
      step (equip other space state) = (.ok value, equip later wide reached) := by
  obtain ⟨moves, -, needs, outcome, reached, runs⟩ := borrows state
  have first := runs (.start pool) room clean
  rw [show (Pool.Loans.start pool).pool = pool from rfl, ran] at first
  obtain ⟨rfl, rfl⟩ := Prod.mk.inj first
  exact ⟨reached, _, _, _, _, rfl, runs (.start other) space alsoClean⟩

/-- So it repeats if nothing counts but what the pool and the room do not matter for. -/
theorem Borrows.repeats {ω : Type} {view : σ → ω} (borrows : step.Borrows levels)
    (unseen : ∀ pool room state, view (equip pool room state) = view state)
    (alike : ∀ {state again}, view again = view state →
      ∃ base room space, ∀ pool, state = equip pool room base ∧ again = equip pool space base) :
    step.Repeats (.ofView view) := by
  intro state value final _ ran
  refine ⟨trivial, trivial, fun again _ _ same => ?_⟩
  obtain ⟨base, room, space, parts⟩ := alike same
  have clean : (Pool.ofSettings 0 0 0).Clean := Pool.clean_ofSettings 0 0 0
  obtain ⟨rfl, rfl⟩ := parts (.ofSettings 0 0 0)
  obtain ⟨reached, now, _, later, _, rfl, ends⟩ := borrows.elsewhere clean clean space ran
  refine ⟨_, ends, ?_⟩
  show view _ = view _
  rw [unseen, unseen]

end Borrows

end Act

/-- A buffer is known by its content. -/
@[reducible] def Output.memory : Memory Output := .ofView Output.content

theorem Output.repeats_of_borrows {α : Type} {levels : Nat} {step : Act Output α}
    (borrows : step.Borrows levels) : step.Repeats Output.memory := by
  refine borrows.repeats (fun _ _ _ => rfl) fun {state again} same => ?_
  refine ⟨state, state.room, again.room, fun _ => ⟨rfl, ?_⟩⟩
  show again = ⟨state.content, again.room⟩
  rw [← same]

end ObjectWire
