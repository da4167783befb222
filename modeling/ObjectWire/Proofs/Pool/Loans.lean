import Mathlib.Algebra.Order.BigOperators.Group.List
import Mathlib.Algebra.Order.Group.Nat
import ObjectWire.Proofs.Pool

/-!
# Buffers that are out

Whoever uses a pool takes buffers and gives them back, the one taken last first.  Kept together with
the buffers that are out, a pool can be followed through such moves: the idle buffers and those that
are out are never more than there were, or than were out at the same time, and if no buffer was
dropped, they are exactly as many.  So once everything is back, the size of the pool is the maximum
of its size before and of the most buffers that were out.
-/

namespace ObjectWire

/-- The room once numbers of bytes were needed, one after the other. -/
def Room.after (needs : List Nat) (room : Room) : Room :=
  needs.foldl (fun room needed => room.holding needed) room

theorem Room.after_append (needs more : List Nat) (room : Room) :
    room.after (needs ++ more) = (room.after needs).after more :=
  List.foldl_append ..

theorem Room.le_holding (needed : Nat) (room : Room) :
    room.capacity ≤ (room.holding needed).capacity ∧ needed ≤ (room.holding needed).capacity := by
  unfold Room.holding
  split
  case isTrue fits => exact ⟨Nat.le_refl _, fits⟩
  case isFalse large =>
    have enough := room.growth.enough room.capacity needed
    exact ⟨Nat.le_trans (Nat.le_of_not_le large) enough, enough⟩

theorem Room.capacity_le_after (needs : List Nat) (room : Room) :
    room.capacity ≤ (room.after needs).capacity := by
  induction needs generalizing room with
  | nil => exact Nat.le_refl _
  | cons needed needs ih => exact Nat.le_trans (room.le_holding needed).1 (ih _)

/-- There is room for whatever was needed. -/
theorem Room.le_after {needs : List Nat} {needed : Nat} (member : needed ∈ needs) (room : Room) :
    needed ≤ (room.after needs).capacity := by
  induction needs generalizing room with
  | nil => cases member
  | cons first needs ih =>
    rcases List.mem_cons.mp member with rfl | later
    · exact Nat.le_trans (room.le_holding needed).2 (Room.capacity_le_after needs _)
    · exact ih later _

/-- A buffer that had to have room for numbers of bytes. -/
def Output.grown (needs : List Nat) (buffer : Output) : Output :=
  { buffer with room := buffer.room.after needs }

/-- Growth to what is needed and no further. -/
def Growth.exact : Growth where
  grow _ needed := needed
  enough _ _ := Nat.le_refl _

/-- The room is within a limit, and stays so while no more than that is needed. -/
structure Room.Tight (limit : Nat) (room : Room) : Prop where
  small : room.capacity ≤ limit
  exact : room.growth = .exact

theorem Room.Tight.after {limit : Nat} {room : Room} {needs : List Nat} (tight : room.Tight limit)
    (le : ∀ needed ∈ needs, needed ≤ limit) : (room.after needs).Tight limit := by
  induction needs generalizing room with
  | nil => exact tight
  | cons needed needs ih =>
    obtain ⟨first, others⟩ := List.forall_mem_cons.mp le
    have once : (room.holding needed).Tight limit := by
      unfold Room.holding
      split
      case isTrue => exact tight
      case isFalse =>
        refine ⟨?_, tight.exact⟩
        rw [tight.exact]
        exact first
    exact ih once others

namespace Pool

section Sizes

variable {pool : Pool}

theorem mem_visitOrder {i : Nat} (inside : i < pool.shards.length) : i ∈ pool.visitOrder := by
  have sharded : 0 < pool.shards.length := by omega
  have first := Nat.mod_lt pool.visits sharded
  -- the way from the shard that comes first to this one, once around if it lies before
  refine List.mem_map.mpr ⟨(i + (pool.shards.length - pool.visits % pool.shards.length)) %
    pool.shards.length, List.mem_range.mpr (Nat.mod_lt _ sharded), ?_⟩
  rw [Nat.add_mod_mod, ← Nat.mod_add_mod]
  have around : pool.visits % pool.shards.length +
      (i + (pool.shards.length - pool.visits % pool.shards.length)) = i + pool.shards.length := by
    omega
  rw [around, Nat.add_mod_right, Nat.mod_eq_of_lt inside]

theorem firstIdle_ne_none {shards : List (List Output)} {order : List Nat} {i : Nat}
    {buffer : Output} {below : List Output} (visited : i ∈ order)
    (holds : shards[i]? = some (buffer :: below)) : firstIdle shards order ≠ none := by
  induction order with
  | nil => cases visited
  | cons first others ih =>
    unfold firstIdle
    split
    case h_1 => exact nofun
    case h_2 missed =>
      rcases List.mem_cons.mp visited with rfl | later
      · exact absurd holds (missed buffer below)
      · exact ih later

theorem exists_waiting {shards : List (List Output)} (some_wait : 0 < waiting shards) :
    ∃ i : Nat, ∃ buffer below, shards[i]? = some (buffer :: below) := by
  induction shards with
  | nil => cases some_wait
  | cons shard shards ih =>
    cases shard with
    | nil =>
      obtain ⟨i, buffer, below, holds⟩ := ih (by simpa [waiting_cons] using some_wait)
      exact ⟨i + 1, buffer, below, holds⟩
    | cons buffer below => exact ⟨0, buffer, below, rfl⟩

/-- Taking a buffer off a pool that has idle ones leaves one less. -/
theorem Counted.acquire_size (counted : pool.Counted) : pool.acquire.2.size = pool.size - 1 := by
  unfold Pool.acquire
  split
  case h_1 => rfl
  case h_2 missed =>
    rcases Nat.eq_zero_or_pos pool.idle with none | some_idle
    · show pool.idle = pool.idle - 1
      omega
    · obtain ⟨i, buffer, below, holds⟩ := exists_waiting (counted.idle ▸ some_idle)
      have inside := (List.getElem?_eq_some_iff.mp holds).choose
      exact absurd missed (firstIdle_ne_none (mem_visitOrder inside) holds)

theorem release_size (pool : Pool) (buffer : Output) :
    (pool.release buffer).size =
      if pool.maxRetained < buffer.capacity then pool.size else pool.size + 1 := by
  unfold Pool.release
  split <;> rfl

/-- What a buffer holds does not matter when it is given back. -/
theorem release_congr {buffer other : Output} (same : buffer.room = other.room) :
    pool.release buffer = pool.release other := by
  unfold Pool.release Output.clear Output.capacity
  rw [same]

end Sizes

/-- What is done to a pool. -/
inductive Move
  | take
  /-- Gives the buffer back that was taken last; it had to have room for numbers of bytes, one after
      the other. -/
  | giveBack (needs : List Nat)

/-- The numbers of bytes that a buffer had to have room for. -/
def Move.needs : Move → List Nat
  | .take => []
  | .giveBack needs => needs

/-- A pool in use. -/
structure Loans where
  pool : Pool
  /-- The buffers that are out, the one taken last first. -/
  out : List Output
  /-- The most buffers that were out at the same time. -/
  most : Nat
  /-- The number of buffers that had outgrown the limit when they came back. -/
  dropped : Nat

namespace Loans

/-- A pool of which nothing was taken yet. -/
def start (pool : Pool) : Loans := ⟨pool, [], 0, 0⟩

/-- Takes a buffer. -/
def take (loans : Loans) : Loans where
  pool := loans.pool.acquire.2
  out := loans.pool.acquire.1 :: loans.out
  most := max loans.most (loans.out.length + 1)
  dropped := loans.dropped

/-- Gives the buffer back that was taken last, if there is one. -/
def giveBack (needs : List Nat) (loans : Loans) : Loans :=
  match loans.out with
  | [] => loans
  | buffer :: others =>
    { loans with
      pool := loans.pool.release (buffer.grown needs)
      out := others
      dropped :=
        if loans.pool.maxRetained < (buffer.grown needs).capacity then loans.dropped + 1
        else loans.dropped }

/-- Makes a move. -/
def step (loans : Loans) : Move → Loans
  | .take => loans.take
  | .giveBack needs => loans.giveBack needs

/-- Makes moves, one after the other. -/
def run (moves : List Move) (loans : Loans) : Loans := moves.foldl step loans

variable {loans : Loans}

theorem giveBack_of_out {buffer : Output} {others : List Output}
    (held : loans.out = buffer :: others) (needs : List Nat) :
    loans.giveBack needs = ⟨loans.pool.release (buffer.grown needs), others, loans.most,
      if loans.pool.maxRetained < (buffer.grown needs).capacity then loans.dropped + 1
      else loans.dropped⟩ := by
  unfold giveBack
  rw [held]

/-- A buffer that had to have room for more than the limit is dropped, however it grew. -/
theorem giveBack_of_outgrown {buffer : Output} {others : List Output} {needs : List Nat}
    {needed : Nat} (held : loans.out = buffer :: others) (member : needed ∈ needs)
    (large : loans.pool.maxRetained < needed) :
    loans.giveBack needs = ⟨loans.pool, others, loans.most, loans.dropped + 1⟩ := by
  have outgrown : loans.pool.maxRetained < (buffer.grown needs).capacity :=
    Nat.lt_of_lt_of_le large (Room.le_after member buffer.room)
  have lost : loans.pool.release (buffer.grown needs) = loans.pool := if_pos outgrown
  rw [giveBack_of_out held, if_pos outgrown, lost]

theorem out_giveBack (loans : Loans) (needs : List Nat) :
    (loans.giveBack needs).out = loans.out.tail := by
  unfold giveBack
  split
  case h_1 none => rw [none, List.tail_nil]
  case h_2 held => rw [held, List.tail_cons]

theorem most_giveBack (loans : Loans) (needs : List Nat) :
    (loans.giveBack needs).most = loans.most := by
  unfold giveBack
  split <;> rfl

theorem run_append (moves more : List Move) (loans : Loans) :
    loans.run (moves ++ more) = (loans.run moves).run more :=
  List.foldl_append ..

theorem clean_step (clean : loans.pool.Clean) (move : Move) : (loans.step move).pool.Clean := by
  cases move with
  | take => exact clean.acquire
  | giveBack needs =>
    show (loans.giveBack needs).pool.Clean
    unfold giveBack
    split
    case h_1 => exact clean
    case h_2 => exact clean.release _

theorem clean_run (clean : loans.pool.Clean) (moves : List Move) :
    (loans.run moves).pool.Clean := by
  induction moves generalizing loans with
  | nil => exact clean
  | cons move moves ih => exact ih (clean_step clean move)

/-- The idle buffers and those that are out are at most as many as there were before, or as were out
    at the same time; if none was dropped, they are exactly as many. -/
structure Reckoned (before : Nat) (loans : Loans) : Prop where
  counted : loans.pool.Counted
  bounded : loans.pool.size + loans.out.length ≤ max before loans.most
  exactly : loans.dropped = 0 → loans.pool.size + loans.out.length = max before loans.most

theorem reckoned_start {pool : Pool} (counted : pool.Counted) :
    (start pool).Reckoned pool.size :=
  ⟨counted, Nat.le_max_left .., fun _ => (Nat.max_zero _).symm⟩

theorem Reckoned.take {before : Nat} (reckoned : loans.Reckoned before) :
    loans.take.Reckoned before := by
  obtain ⟨counted, bounded, exactly⟩ := reckoned
  have size := counted.acquire_size
  refine ⟨counted.acquire, ?_, fun none => ?_⟩
  · show loans.pool.acquire.2.size + (loans.out.length + 1) ≤
      max before (max loans.most (loans.out.length + 1))
    omega
  · have before_taking := exactly none
    show loans.pool.acquire.2.size + (loans.out.length + 1) =
      max before (max loans.most (loans.out.length + 1))
    omega

theorem Reckoned.giveBack {before : Nat} (reckoned : loans.Reckoned before) (needs : List Nat) :
    (loans.giveBack needs).Reckoned before := by
  unfold Loans.giveBack
  split
  case h_1 => exact reckoned
  case h_2 buffer others held =>
    obtain ⟨counted, bounded, exactly⟩ := reckoned
    rw [held, List.length_cons] at bounded exactly
    have size := loans.pool.release_size (buffer.grown needs)
    by_cases large : loans.pool.maxRetained < (buffer.grown needs).capacity
    · rw [if_pos large] at size ⊢
      refine ⟨counted.release _, ?_, nofun⟩
      show (loans.pool.release _).size + others.length ≤ max before loans.most
      omega
    · rw [if_neg large] at size ⊢
      refine ⟨counted.release _, ?_, fun none => ?_⟩
      · show (loans.pool.release _).size + others.length ≤ max before loans.most
        omega
      · have before_giving := exactly none
        show (loans.pool.release _).size + others.length = max before loans.most
        omega

theorem Reckoned.step {before : Nat} (reckoned : loans.Reckoned before) (move : Move) :
    (loans.step move).Reckoned before := by
  cases move with
  | take => exact reckoned.take
  | giveBack needs => exact reckoned.giveBack needs

theorem Reckoned.run {before : Nat} (reckoned : loans.Reckoned before) (moves : List Move) :
    (loans.run moves).Reckoned before := by
  induction moves generalizing loans with
  | nil => exact reckoned
  | cons move moves ih => exact ih (reckoned.step move)

/-- How many buffers are out, and were at the same time, is up to the moves. -/
theorem run_congr (moves : List Move) (loans other : Loans)
    (out : loans.out.length = other.out.length) (most : loans.most = other.most) :
    (loans.run moves).out.length = (other.run moves).out.length ∧
      (loans.run moves).most = (other.run moves).most := by
  induction moves generalizing loans other with
  | nil => exact ⟨out, most⟩
  | cons move moves ih =>
    cases move with
    | take =>
      refine ih loans.take other.take (congrArg (· + 1) out) ?_
      show max loans.most (loans.out.length + 1) = max other.most (other.out.length + 1)
      rw [out, most]
    | giveBack needs =>
      refine ih (loans.giveBack needs) (other.giveBack needs) ?_ ?_
      · show (loans.giveBack needs).out.length = (other.giveBack needs).out.length
        rw [out_giveBack, out_giveBack, List.length_tail, List.length_tail, out]
      · show (loans.giveBack needs).most = (other.giveBack needs).most
        rw [most_giveBack, most_giveBack, most]

/-- No buffer has outgrown a limit up to which the pool keeps them, and none does while no more than
    that is needed. -/
structure Small (limit : Nat) (loans : Loans) : Prop where
  fresh : Room.Tight limit ⟨loans.pool.initialCapacity, loans.pool.growth⟩
  retained : limit ≤ loans.pool.maxRetained
  idle : loans.pool.Every fun buffer => buffer.room.Tight limit
  out : ∀ buffer ∈ loans.out, buffer.room.Tight limit
  kept : loans.dropped = 0

theorem Small.take {limit : Nat} (small : loans.Small limit) : loans.take.Small limit := by
  obtain ⟨fresh, retained, idle, out, kept⟩ := small
  obtain ⟨same_fresh, same_growth, same_retained⟩ :
      loans.pool.acquire.2.initialCapacity = loans.pool.initialCapacity ∧
        loans.pool.acquire.2.growth = loans.pool.growth ∧
        loans.pool.acquire.2.maxRetained = loans.pool.maxRetained := by
    unfold acquire
    split <;> exact ⟨rfl, rfl, rfl⟩
  refine ⟨by rw [← same_fresh, ← same_growth] at fresh; exact fresh,
    by rw [← same_retained] at retained; exact retained, idle.acquire, ?_, kept⟩
  intro buffer member
  rcases List.mem_cons.mp member with rfl | before
  · exact idle.acquired fresh
  · exact out buffer before

theorem Small.giveBack {limit : Nat} {needs : List Nat} (small : loans.Small limit)
    (le : ∀ needed ∈ needs, needed ≤ limit) : (loans.giveBack needs).Small limit := by
  obtain ⟨fresh, retained, idle, out, kept⟩ := small
  unfold Loans.giveBack
  split
  case h_1 => exact ⟨fresh, retained, idle, out, kept⟩
  case h_2 buffer others held =>
    rw [held] at out
    have tight : (buffer.grown needs).room.Tight limit :=
      (out buffer (List.mem_cons_self ..)).after le
    have fits : ¬ loans.pool.maxRetained < (buffer.grown needs).capacity :=
      Nat.not_lt.mpr (Nat.le_trans tight.small retained)
    have returned : loans.pool.release (buffer.grown needs) = _ := if_neg fits
    have released : (loans.pool.release (buffer.grown needs)).Every fun buffer =>
      buffer.room.Tight limit := idle.release tight
    rw [if_neg fits]
    exact ⟨by rw [returned]; exact fresh, by rw [returned]; exact retained, released,
      fun other member => out other (List.mem_cons_of_mem _ member), kept⟩

theorem Small.run {limit : Nat} {moves : List Move} (small : loans.Small limit)
    (le : ∀ move ∈ moves, ∀ needed ∈ move.needs, needed ≤ limit) :
    (loans.run moves).Small limit := by
  induction moves generalizing loans with
  | nil => exact small
  | cons move moves ih =>
    obtain ⟨first, others⟩ := List.forall_mem_cons.mp le
    cases move with
    | take => exact ih small.take others
    | giveBack needs => exact ih (small.giveBack first) others

theorem exists_limit (moves : List Move) :
    ∃ limit, ∀ move ∈ moves, ∀ needed ∈ move.needs, needed ≤ limit := by
  refine ⟨(moves.flatMap Move.needs).sum, fun move member needed among => ?_⟩
  exact List.le_sum_of_mem (List.mem_flatMap.mpr ⟨move, member, among⟩)

/-- On a pool that starts empty, keeps everything and grows its buffers no further than it must, the
    size comes to the most buffers that were out at the same time. -/
theorem size_run_of_empty {moves : List Move} {limit : Nat}
    (le : ∀ move ∈ moves, ∀ needed ∈ move.needs, needed ≤ limit)
    (out : ((start (ofSettings 0 limit 1 .exact)).run moves).out = []) :
    ((start (ofSettings 0 limit 1 .exact)).run moves).pool.size =
      ((start (ofSettings 0 limit 1 .exact)).run moves).most := by
  have idle : (ofSettings 0 limit 1 .exact).Every fun buffer => buffer.room.Tight limit := by
    intro shard member buffer among
    rw [List.eq_of_mem_replicate member] at among
    cases among
  have small := (Small.run ⟨⟨Nat.zero_le _, rfl⟩, Nat.le_refl _, idle, nofun, rfl⟩ le :
    ((start (ofSettings 0 limit 1 .exact)).run moves).Small limit)
  have size := ((reckoned_start (counted_ofSettings 0 limit 1)).run moves).exactly small.kept
  rw [out] at size
  exact size.trans (Nat.zero_max _)

/-- Moves that leave nothing out and do the same to every clean pool have the same number of buffers
    out at the same time. -/
theorem most_unique {moves others : List Move} {pool : Pool}
    (same : ∀ pool : Pool, pool.Clean →
      ((start pool).run moves).pool = ((start pool).run others).pool)
    (out : ((start pool).run moves).out = []) (back : ((start pool).run others).out = []) :
    ((start pool).run moves).most = ((start pool).run others).most := by
  obtain ⟨limit, le⟩ := exists_limit (moves ++ others)
  let empty := ofSettings 0 limit 1 .exact
  obtain ⟨first, second⟩ := List.forall_mem_append.mp le
  obtain ⟨length, most⟩ := run_congr moves (start pool) (start empty) rfl rfl
  obtain ⟨other_length, other_most⟩ := run_congr others (start pool) (start empty) rfl rfl
  rw [out, List.length_nil, eq_comm, List.length_eq_zero_iff] at length
  rw [back, List.length_nil, eq_comm, List.length_eq_zero_iff] at other_length
  rw [most, other_most, ← size_run_of_empty first length, ← size_run_of_empty second other_length,
    same empty (clean_ofSettings 0 limit 1)]

end Loans

/-- Moves that leave out what was out, and have at most `levels` buffers more out at the same
    time. -/
def Balanced (levels : Nat) (moves : List Move) : Prop :=
  ∀ loans : Loans, (loans.run moves).out = loans.out ∧
    (loans.run moves).most ≤ max loans.most (loans.out.length + levels)

namespace Balanced

variable {levels more : Nat} {moves others : List Move}

theorem nil : Balanced levels [] := fun _ => ⟨rfl, Nat.le_max_left ..⟩

theorem mono (balanced : Balanced levels moves) (le : levels ≤ more) : Balanced more moves := by
  intro loans
  obtain ⟨out, most⟩ := balanced loans
  exact ⟨out, by omega⟩

theorem append (balanced : Balanced levels moves) (next : Balanced levels others) :
    Balanced levels (moves ++ others) := by
  intro loans
  obtain ⟨out, most⟩ := balanced loans
  obtain ⟨finally_out, finally_most⟩ := next (loans.run moves)
  rw [Loans.run_append]
  refine ⟨finally_out.trans out, ?_⟩
  rw [out] at finally_most
  omega

/-- A buffer is taken, moves are made, and the buffer is given back. -/
theorem lend (balanced : Balanced levels moves) (needs : List Nat) :
    Balanced (levels + 1) (.take :: moves ++ [.giveBack needs]) := by
  intro loans
  obtain ⟨out, most⟩ := balanced loans.take
  have back : loans.run (.take :: moves ++ [.giveBack needs]) =
      (loans.take.run moves).giveBack needs := Loans.run_append ..
  have held : (loans.take.run moves).out = loans.pool.acquire.1 :: loans.out := out
  have most_before : (loans.take.run moves).most ≤
      max (max loans.most (loans.out.length + 1)) (loans.out.length + 1 + levels) := most
  rw [back, Loans.giveBack_of_out held needs]
  exact ⟨rfl, by dsimp only; omega⟩

end Balanced

end Pool

end ObjectWire
