import ObjectWire.Keyed
import ObjectWire.Pool

/-!
# Buffers on loan

A pool together with the buffers that are out, under the names of their holders.  A holder has one
buffer at a time: taking another one gives the one before back.
-/

namespace ObjectWire

/-- A pool, and the buffers that are out. -/
structure Lending where
  pool : Pool
  held : List (String × Borrowed)

namespace Lending

/-- A pool of which nothing is out. -/
def start (pool : Pool) : Lending := ⟨pool, []⟩

/-- What a holder has. -/
def heldBy (lending : Lending) (holder : String) : Option Borrowed := lending.held.lookup holder

/-- Ends a loan, if there is one. -/
def release (holder : String) (lending : Lending) : Lending :=
  match lending.heldBy holder with
  | none => lending
  | some borrowed =>
    ⟨lending.pool.giveBack borrowed, Keyed.erase holder lending.held⟩

/-- Hands a buffer out. -/
def handTo (holder : String) (borrowed : Borrowed) (lending : Lending) : Lending :=
  let before := lending.release holder
  { before with held := Keyed.put holder borrowed before.held }

/-- Borrows a buffer of the pool. -/
def acquire (holder : String) (lending : Lending) : Lending :=
  let (borrowed, pool) := lending.pool.borrow
  { lending with pool := pool }.handTo holder borrowed

/-- Hands out a buffer that belongs to no pool. -/
def detach (holder : String) (capacity : Nat) (lending : Lending) : Lending :=
  lending.handTo holder (.detached capacity lending.pool.growth)

/-- Appends bytes to what a holder has. -/
def append (holder : String) (run : Bytes) (lending : Lending) : Lending :=
  match lending.heldBy holder with
  | none => lending
  | some borrowed =>
    { lending with held := Keyed.put holder (borrowed.append run) lending.held }

/-- Drops every idle buffer of the pool. -/
def clear (lending : Lending) : Lending := { lending with pool := lending.pool.clear }

end Lending

end ObjectWire
