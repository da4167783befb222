import ObjectWire.Wire.Output

/-!
# The buffer pool

Buffers that are not in use wait in shards, which are visited in turn.  A borrowed buffer comes
back empty, unless it has outgrown the limit: then it is dropped.  The pool keeps count of the
idle buffers as they come and go.
-/

namespace ObjectWire

/-- Idle buffers in shards, most recently returned first. -/
structure Pool where
  shards : List (List Output)
  /-- The number of visits so far; it chooses the shard to begin with. -/
  visits : Nat
  /-- The running count of idle buffers. -/
  idle : Nat
  initialCapacity : Nat
  maxRetained : Nat
  /-- How new buffers grow. -/
  growth : Growth

/-- A borrowed buffer, and whether it goes back to the pool. -/
structure Borrowed where
  buffer : Output
  pooled : Bool

namespace Pool

/-- The capacity of a new buffer if nothing else is asked for. -/
def defaultInitialCapacity : Nat := 100 * 1024

/-- The capacity beyond which buffers are dropped if nothing else is asked for. -/
def defaultMaxRetained : Nat := 16 * 1024 * 1024

/-- The number of shards if nothing else is asked for. -/
def defaultShards : Nat := 8

/-- An empty pool; there is always one shard at least. -/
def ofSettings (initialCapacity maxRetained shards : Nat) (growth : Growth := .amortised) : Pool :=
  ⟨List.replicate (max shards 1) [], 0, 0, initialCapacity, maxRetained, growth⟩

/-- The number of idle buffers. -/
def size (pool : Pool) : Nat := pool.idle

/-- The shards in the order of the next visit. -/
def visitOrder (pool : Pool) : List Nat :=
  (List.range pool.shards.length).map fun offset => (pool.visits + offset) % pool.shards.length

/-- The first shard in a list of shards that holds a buffer: its number, the buffer that came back
    last, and the others. -/
def firstIdle (shards : List (List Output)) : List Nat → Option (Nat × Output × List Output)
  | [] => none
  | i :: others =>
    match shards[i]? with
    | some (buffer :: below) => some (i, buffer, below)
    | _ => firstIdle shards others

/-- Takes an idle buffer, or a new one if there is none. -/
def acquire (pool : Pool) : Output × Pool :=
  match firstIdle pool.shards pool.visitOrder with
  | some (i, buffer, below) =>
    (buffer, { pool with
      shards := pool.shards.set i below
      visits := pool.visits + 1
      idle := pool.idle - 1 })
  | none => (.empty pool.initialCapacity pool.growth, { pool with visits := pool.visits + 1 })

/-- Takes a buffer back. -/
def release (buffer : Output) (pool : Pool) : Pool :=
  if pool.maxRetained < buffer.capacity then pool
  else
    let i := pool.visits % pool.shards.length
    { pool with
      shards := pool.shards.modify i (buffer.clear :: ·)
      visits := pool.visits + 1
      idle := pool.idle + 1 }

/-- Drops every idle buffer. -/
def clear (pool : Pool) : Pool :=
  { pool with
    shards := pool.shards.map fun _ => []
    idle := pool.idle - (pool.shards.map List.length).foldr (· + ·) 0 }

/-- Borrows a buffer. -/
def borrow (pool : Pool) : Borrowed × Pool :=
  let (buffer, pool) := pool.acquire
  (⟨buffer, true⟩, pool)

/-- Gives a borrowed buffer up; one that belongs to no pool is dropped. -/
def giveBack (borrowed : Borrowed) (pool : Pool) : Pool :=
  if borrowed.pooled then pool.release borrowed.buffer else pool

end Pool

namespace Borrowed

/-- A buffer that belongs to no pool. -/
def detached (capacity : Nat) (growth : Growth) : Borrowed := ⟨.empty capacity growth, false⟩

/-- Appends bytes to a borrowed buffer. -/
def append (run : Bytes) (borrowed : Borrowed) : Borrowed :=
  { borrowed with buffer := borrowed.buffer.append run }

end Borrowed

end ObjectWire
