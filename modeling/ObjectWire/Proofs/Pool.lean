import ObjectWire.Pool

/-!
# Buffers in the pool are empty and counted

What waits in a pool is empty, because buffers are emptied as they come back.  A borrowed buffer is
therefore empty, whatever it was used for before.  The running count of idle buffers is the number
of buffers that wait in the shards, so a pool that was cleared has none.
-/

namespace ObjectWire.Pool

/-- Every idle buffer is empty. -/
def Clean (pool : Pool) : Prop :=
  ∀ shard ∈ pool.shards, ∀ buffer ∈ shard, buffer.content = []

theorem clean_ofSettings {growth : Growth} (initialCapacity maxRetained shards : Nat) :
    (ofSettings initialCapacity maxRetained shards growth).Clean := by
  intro shard member buffer among
  rw [List.eq_of_mem_replicate member] at among
  cases among

section Shards

variable {shards : List (List Output)} {order : List Nat} {i : Nat} {buffer : Output}
  {below : List Output}

theorem getElem?_of_firstIdle (h : firstIdle shards order = some (i, buffer, below)) :
    shards[i]? = some (buffer :: below) := by
  induction order with
  | nil => cases h
  | cons first others ih =>
    unfold firstIdle at h
    split at h
    case h_1 found =>
      cases h
      exact found
    case h_2 => exact ih h

theorem mem_of_firstIdle (h : firstIdle shards order = some (i, buffer, below)) :
    buffer :: below ∈ shards :=
  List.mem_of_getElem? (getElem?_of_firstIdle h)

/-- Taking a buffer off a shard takes it from among all that wait. -/
theorem flatten_set (h : shards[i]? = some (buffer :: below)) :
    shards.flatten.Perm (buffer :: (shards.set i below).flatten) := by
  induction shards generalizing i with
  | nil => cases h
  | cons shard shards ih =>
    cases i with
    | zero =>
      obtain rfl : shard = buffer :: below := by simpa using h
      exact List.Perm.refl _
    | succ i =>
      have rest := ih (by simpa using h)
      exact (rest.append_left shard).trans List.perm_middle

/-- Putting a buffer on a shard puts it among all that wait. -/
theorem flatten_modify (buffer : Output) (h : i < shards.length) :
    (shards.modify i (buffer :: ·)).flatten.Perm (buffer :: shards.flatten) := by
  induction shards generalizing i with
  | nil => cases h
  | cons shard shards ih =>
    cases i with
    | zero => exact List.Perm.refl _
    | succ i =>
      have rest := ih (Nat.lt_of_succ_lt_succ h)
      exact (rest.append_left shard).trans List.perm_middle

/-- How many buffers wait in shards. -/
def waiting (shards : List (List Output)) : Nat := (shards.map List.length).foldr (· + ·) 0

theorem waiting_cons (shard : List Output) (shards : List (List Output)) :
    waiting (shard :: shards) = shard.length + waiting shards := rfl

theorem length_flatten (shards : List (List Output)) :
    shards.flatten.length = waiting shards := by
  rw [List.length_flatten]
  rfl

theorem waiting_of_empty (empty : ∀ shard ∈ shards, shard = []) : waiting shards = 0 := by
  rw [← length_flatten, List.flatten_eq_nil_iff.mpr empty]
  rfl

/-- Taking a buffer off a shard leaves one buffer less. -/
theorem waiting_set (h : shards[i]? = some (buffer :: below)) :
    waiting (shards.set i below) + 1 = waiting shards := by
  rw [← length_flatten, ← length_flatten, (flatten_set h).length_eq, List.length_cons]

/-- Putting a buffer on a shard makes one buffer more. -/
theorem waiting_modify (buffer : Output) (h : i < shards.length) :
    waiting (shards.modify i (buffer :: ·)) = waiting shards + 1 := by
  rw [← length_flatten, ← length_flatten, (flatten_modify buffer h).length_eq, List.length_cons]

end Shards

variable {pool : Pool}

/-- Every idle buffer has a property. -/
def Every (holds : Output → Prop) (pool : Pool) : Prop :=
  ∀ shard ∈ pool.shards, ∀ buffer ∈ shard, holds buffer

section Every

variable {holds : Output → Prop} (each : pool.Every holds)
include each

/-- What holds of every idle buffer and of a new one holds of a borrowed one. -/
theorem Every.acquired (fresh : holds (.empty pool.initialCapacity pool.growth)) :
    holds pool.acquire.1 := by
  unfold Pool.acquire
  split
  case h_1 i buffer below found =>
    exact each _ (mem_of_firstIdle found) buffer (List.mem_cons_self ..)
  case h_2 => exact fresh

theorem Every.acquire : pool.acquire.2.Every holds := by
  unfold Pool.acquire
  split
  case h_1 i buffer below found =>
    intro shard member other among
    rcases List.mem_or_eq_of_mem_set member with old | rfl
    · exact each shard old other among
    · exact each _ (mem_of_firstIdle found) other (List.mem_cons_of_mem _ among)
  case h_2 => exact each

theorem Every.release {buffer : Output} (back : holds buffer.clear) :
    (pool.release buffer).Every holds := by
  unfold Pool.release
  by_cases large : pool.maxRetained < buffer.capacity
  · rw [if_pos large]
    exact each
  · rw [if_neg large]
    intro shard member other among
    obtain ⟨i, inside, rfl⟩ := List.mem_iff_getElem.mp member
    rw [List.getElem_modify] at among
    have within : i < pool.shards.length := by simpa using inside
    have old : pool.shards[i] ∈ pool.shards := List.getElem_mem within
    split at among
    case isTrue =>
      rcases List.mem_cons.mp among with rfl | kept
      · exact back
      · exact each _ old other kept
    case isFalse => exact each _ old other among

end Every

theorem Clean.every (clean : pool.Clean) : pool.Every fun buffer => buffer.content = [] := clean

theorem Clean.acquire_content (clean : pool.Clean) : pool.acquire.1.content = [] :=
  clean.every.acquired rfl

theorem Clean.acquire (clean : pool.Clean) : pool.acquire.2.Clean := clean.every.acquire

theorem Clean.release (clean : pool.Clean) (buffer : Output) : (pool.release buffer).Clean :=
  clean.every.release rfl

theorem clean_clear (pool : Pool) : pool.clear.Clean := by
  intro shard member buffer among
  obtain ⟨_, -, rfl⟩ := List.mem_map.mp member
  cases among

/-- There is a shard, and the running count is the number of buffers that wait in the shards. -/
structure Counted (pool : Pool) : Prop where
  sharded : 0 < pool.shards.length
  idle : pool.idle = waiting pool.shards

theorem counted_ofSettings {growth : Growth} (initialCapacity maxRetained shards : Nat) :
    (ofSettings initialCapacity maxRetained shards growth).Counted := by
  refine ⟨?_, (waiting_of_empty fun shard member => List.eq_of_mem_replicate member).symm⟩
  rw [ofSettings, List.length_replicate]
  omega

theorem Counted.acquire (counted : pool.Counted) : pool.acquire.2.Counted := by
  unfold Pool.acquire
  split
  case h_1 i buffer below found =>
    have fewer := waiting_set (getElem?_of_firstIdle found)
    refine ⟨by simpa using counted.sharded, ?_⟩
    show pool.idle - 1 = waiting (pool.shards.set i below)
    rw [counted.idle, ← fewer, Nat.add_sub_cancel]
  case h_2 => exact ⟨counted.sharded, counted.idle⟩

theorem Counted.release (counted : pool.Counted) (buffer : Output) :
    (pool.release buffer).Counted := by
  unfold Pool.release
  by_cases large : pool.maxRetained < buffer.capacity
  · rw [if_pos large]
    exact counted
  · rw [if_neg large]
    have inside := Nat.mod_lt pool.visits counted.sharded
    refine ⟨by simpa using counted.sharded, ?_⟩
    show pool.idle + 1 = waiting (pool.shards.modify _ (buffer.clear :: ·))
    rw [waiting_modify buffer.clear inside, counted.idle]

/-- Clearing a pool whose count is right leaves nothing, in the shards and in the count. -/
theorem Counted.clear (counted : pool.Counted) : pool.clear.Counted ∧ pool.clear.size = 0 := by
  have none : pool.clear.size = 0 := Nat.sub_eq_zero_of_le (Nat.le_of_eq counted.idle)
  have empty : waiting pool.clear.shards = 0 := by
    apply waiting_of_empty
    intro shard member
    obtain ⟨_, -, rfl⟩ := List.mem_map.mp member
    rfl
  exact ⟨⟨by simpa [Pool.clear] using counted.sharded, none.trans empty.symm⟩, none⟩

end ObjectWire.Pool
