import ObjectWire.Proofs.Service.Borrowing
import ObjectWire.Proofs.Service.Teardown

/-!
# Encoding gives its buffers back

All that encoding does with the pool is a list of moves, the same ones whatever the pool; the moves
leave nothing out, whether the value is encoded or refused.  So, unless a buffer outgrew the limit,
the size of the pool comes to the maximum of what it was and of the most buffers that were out at
the same time.  The latter is bounded by how deep the value nests, so encoding again and again does
not make the pool grow without bound.
-/

namespace ObjectWire

namespace Service

variable {service : Service} {value : Value}

/-- Encoding a value uses the pool of the service by certain moves: whatever clean pool the service
    has, encoding leaves the pool as the moves leave it, and else does the same. -/
def EncodesBy (service : Service) (value : Value) (moves : List Pool.Move) : Prop :=
  ∀ pool : Pool, pool.Clean →
    toData value (service.withPool pool) =
      ((toData value service).1,
        (toData value service).2.withPool ((Pool.Loans.start pool).run moves).pool)

/-- The pool of a service in the course of certain moves. -/
def lending (service : Service) (moves : List Pool.Move) : Pool.Loans :=
  (Pool.Loans.start service.context.pool).run moves

/-- Where the pool is clean, encoding goes by moves that leave nothing out and have as many buffers
    out at the same time as the value has levels, at most. -/
theorem exists_encodesBy (clean : service.context.pool.Clean) (value : Value) :
    ∃ moves, service.EncodesBy value moves ∧ (service.lending moves).out = [] ∧
      (service.lending moves).most ≤ value.levels + 1 := by
  obtain ⟨moves, balanced, needs, outcome, reached, ran⟩ := borrows_toData value service
  have own : toData value service = (outcome, reached.withPool (service.lending moves).pool) :=
    ran (Pool.Loans.start service.context.pool) ⟨0, .exact⟩ clean
  obtain ⟨out, most⟩ := balanced (Pool.Loans.start service.context.pool)
  -- nothing was out at the start
  have levels : (service.lending moves).most ≤ max 0 (0 + (value.levels + 1)) := most
  refine ⟨moves, fun pool clean_pool => ?_, out, by omega⟩
  rw [own]
  exact ran (Pool.Loans.start pool) ⟨0, .exact⟩ clean_pool

theorem EncodesBy.pool {moves : List Pool.Move} (goes : service.EncodesBy value moves)
    (clean : service.context.pool.Clean) :
    (toData value service).2.context.pool = (service.lending moves).pool :=
  congrArg (fun ran => ran.2.context.pool) (goes service.context.pool clean)

/-- How many buffers are out at the same time does not depend on how the moves are told. -/
theorem EncodesBy.most_unique {moves others : List Pool.Move}
    (goes : service.EncodesBy value moves) (also : service.EncodesBy value others)
    (out : (service.lending moves).out = []) (back : (service.lending others).out = []) :
    (service.lending others).most = (service.lending moves).most := by
  refine Pool.Loans.most_unique (fun pool clean => ?_) back out
  exact congrArg (fun ran => ran.2.context.pool) ((also pool clean).symm.trans (goes pool clean))

theorem reckoned_lending (counted : service.context.pool.Counted) (moves : List Pool.Move) :
    (service.lending moves).Reckoned service.context.pool.size :=
  (Pool.Loans.reckoned_start counted).run moves

/-- Encoding a value makes the pool at most as large as the value has levels. -/
theorem size_toData (clean : service.context.pool.Clean) (counted : service.context.pool.Counted)
    (value : Value) : (toData value service).2.context.pool.size ≤
      max service.context.pool.size (value.levels + 1) := by
  obtain ⟨moves, goes, out, most⟩ := exists_encodesBy clean value
  have bounded := (reckoned_lending counted moves).bounded
  rw [out, List.length_nil] at bounded
  rw [goes.pool clean]
  omega

/-- Encoding values, however often and whether they are refused or not, makes the pool at most as
    large as one of them has levels. -/
theorem size_encodings (reachable : Reachable (fun _ => True) (fun _ => True) service)
    {values : List Value} {most : Nat} (shallow : ∀ value ∈ values, value.levels < most) :
    ((values.map Use.encode).foldl Use.perform service).context.pool.size ≤
      max service.context.pool.size most := by
  induction values generalizing service with
  | nil => exact Nat.le_max_left ..
  | cons value values ih =>
    obtain ⟨first, others⟩ := List.forall_mem_cons.mp shallow
    have once := size_toData reachable.tidy.clean reachable.counted value
    have later := ih (reachable.use (.encode value) trivial) others
    have after : (Use.perform service (.encode value)).context.pool.size ≤
        max service.context.pool.size (value.levels + 1) := once
    exact Nat.le_trans later (Nat.max_le.mpr ⟨by omega, Nat.le_max_right ..⟩)

/-- Encoding a value on any service goes by moves that leave nothing out, whether it succeeds or
    fails; and unless a buffer outgrew the limit, the size of the pool comes to the maximum of its
    size before and of the most buffers that were out at the same time.  That number is the same
    however the moves are told, and is bounded by the levels of the value.  So encoding values of
    bounded levels as often as one likes keeps the pool within a bound. -/
theorem encoding_gives_buffers_back (reachable : Reachable (fun _ => True) (fun _ => True) service)
    (value : Value) :
    (∃ moves, service.EncodesBy value moves ∧
      let after := service.lending moves
      (toData value service).2.context.pool = after.pool ∧
      after.out = [] ∧
      (after.dropped = 0 → after.pool.size = max service.context.pool.size after.most) ∧
      after.pool.size ≤ max service.context.pool.size after.most ∧
      after.most ≤ value.levels + 1 ∧
      ∀ others, service.EncodesBy value others → (service.lending others).out = [] →
        (service.lending others).most = after.most) ∧
    ∀ (values : List Value) most, (∀ value ∈ values, value.levels < most) →
      ((values.map Use.encode).foldl Use.perform service).context.pool.size ≤
        max service.context.pool.size most := by
  refine ⟨?_, fun values most shallow => size_encodings reachable shallow⟩
  have clean := reachable.tidy.clean
  obtain ⟨moves, goes, out, most⟩ := exists_encodesBy clean value
  obtain ⟨-, bounded, exactly⟩ := reckoned_lending reachable.counted moves
  rw [out] at bounded exactly
  exact ⟨moves, goes, goes.pool clean, out, exactly, bounded, most, fun others also back =>
    goes.most_unique also out back⟩

/-- An object with two objects of a class inside, of which the second one does not fit the
    definition that the first one brings about, is refused while three buffers are out; all three
    come back, and the pool does not grow any further. -/
theorem encoding_gives_buffers_back_of_refused :
    let item (name : String) : Portable :=
      .scripted 2 none [.data name (.scalar .int (1 : Int32))] none []
    let value : Value := .portable
      (.scripted 1 none [.portableArray "items" 2 (some [item "a", item "b"])] none [])
    let service := ofSettings .default
    (toData value service).1.toOption = none ∧ service.context.pool.size = 0 ∧
      (∃ moves, service.EncodesBy value moves ∧
        (service.lending moves).out = [] ∧ (service.lending moves).most = 3 ∧
        (toData value service).2.context.pool.size = 3) ∧
      ∀ times, (((List.replicate times value).map Use.encode).foldl
        Use.perform service).context.pool.size ≤ 3 := by
  intro item value service
  have reachable : Reachable (fun _ => True) (fun _ => True) service := .start trivial
  have size : (toData value service).2.context.pool.size = 3 := by decide +kernel
  obtain ⟨⟨moves, goes, pool, out, -, bounded, most, -⟩, again⟩ :=
    encoding_gives_buffers_back reachable value
  refine ⟨by decide +kernel, by decide, ⟨moves, goes, out, ?_, size⟩, fun times => ?_⟩
  · rw [← pool, size] at bounded
    have levels : value.levels = 2 := by decide
    have empty : service.context.pool.size = 0 := by decide
    omega
  · have levels : ∀ other ∈ List.replicate times value, other.levels < 3 := by
      intro other member
      rw [List.eq_of_mem_replicate member]
      decide
    exact again _ 3 levels

end Service

end ObjectWire
