import Mathlib.Data.Multiset.AddSub
import ObjectWire.Pool.Lending
import ObjectWire.Proofs.Keyed
import ObjectWire.Proofs.Pool.Loans

/-!
# The accounts of a pool

In which shard a buffer waits, and which shard is visited next, makes no difference to those who
use a pool.  What counts is the stock, all buffers that wait, wherever they do.  A buffer is
borrowed out of the stock, and made only if the stock is empty; a buffer that comes back is one more
in stock, unless it has outgrown the limit; clearing leaves no stock.  After whatever was done, by
whomever and in whatever order, the running count of the pool is the size of the stock.
-/

namespace ObjectWire

namespace Pool

/-- The buffers that wait, in whatever shards. -/
def stock (pool : Pool) : Multiset Output := pool.shards.flatten

variable {pool : Pool}

theorem card_stock (pool : Pool) : Multiset.card pool.stock = waiting pool.shards := by
  rw [stock, Multiset.coe_card, length_flatten]

theorem Counted.size_eq (counted : pool.Counted) : pool.size = Multiset.card pool.stock :=
  counted.idle.trans (card_stock pool).symm

theorem stock_of_waiting (none : waiting pool.shards = 0) : pool.stock = 0 :=
  Multiset.card_eq_zero.mp ((card_stock pool).trans none)

/-- A borrowed buffer is taken out of the stock, or made if there is no stock. -/
theorem stock_acquire (pool : Pool) :
    pool.stock = 0 ∧ pool.acquire.2.stock = 0 ∧
        pool.acquire.1 = .empty pool.initialCapacity pool.growth ∨
      pool.stock = pool.acquire.1 ::ₘ pool.acquire.2.stock := by
  unfold acquire
  split
  case h_1 i buffer below found =>
    exact .inr (Multiset.coe_eq_coe.mpr (flatten_set (getElem?_of_firstIdle found)))
  case h_2 missed =>
    have none : waiting pool.shards = 0 := by
      rcases Nat.eq_zero_or_pos (waiting pool.shards) with none | some_wait
      · exact none
      · obtain ⟨i, buffer, below, holds⟩ := exists_waiting some_wait
        have inside := (List.getElem?_eq_some_iff.mp holds).choose
        exact absurd missed (firstIdle_ne_none (mem_visitOrder inside) holds)
    exact .inl ⟨stock_of_waiting none, stock_of_waiting none, rfl⟩

theorem stock_release (sharded : 0 < pool.shards.length) (buffer : Output) :
    (pool.release buffer).stock =
      if pool.maxRetained < buffer.capacity then pool.stock else buffer.clear ::ₘ pool.stock := by
  unfold release
  split
  case isTrue => rfl
  case isFalse =>
    exact Multiset.coe_eq_coe.mpr (flatten_modify buffer.clear (Nat.mod_lt pool.visits sharded))

theorem stock_clear (pool : Pool) : pool.clear.stock = 0 := by
  apply stock_of_waiting
  apply waiting_of_empty
  intro shard member
  obtain ⟨_, -, rfl⟩ := List.mem_map.mp member
  rfl

/-- Shard by shard, no more buffers are counted off than the whole pool has. -/
theorem Counted.front_le (counted : pool.Counted) (n : Nat) :
    waiting (pool.shards.take n) ≤ pool.size := by
  have all := congrArg List.length (congrArg List.flatten (List.take_append_drop n pool.shards))
  rw [List.flatten_append, List.length_append] at all
  simp only [length_flatten] at all
  rw [size, counted.idle]
  omega

/-- The pool has its settings, its buffers are empty, and its count is right. -/
structure InOrder (fresh limit : Nat) (growth : Growth) (pool : Pool) : Prop where
  counted : pool.Counted
  clean : pool.Clean
  fresh : pool.initialCapacity = fresh
  limit : pool.maxRetained = limit
  growth : pool.growth = growth

section InOrder

variable {fresh limit : Nat} {growth : Growth}

theorem inOrder_ofSettings (fresh limit shards : Nat) (growth : Growth) :
    (ofSettings fresh limit shards growth).InOrder fresh limit growth :=
  ⟨counted_ofSettings .., clean_ofSettings _ _ _, rfl, rfl, rfl⟩

theorem InOrder.acquire (inOrder : pool.InOrder fresh limit growth) :
    pool.acquire.2.InOrder fresh limit growth := by
  obtain ⟨counted, clean, rfl, rfl, rfl⟩ := inOrder
  refine ⟨counted.acquire, clean.acquire, ?_, ?_, ?_⟩
  all_goals
    unfold Pool.acquire
    split <;> rfl

theorem InOrder.release (inOrder : pool.InOrder fresh limit growth) (buffer : Output) :
    (pool.release buffer).InOrder fresh limit growth := by
  obtain ⟨counted, clean, rfl, rfl, rfl⟩ := inOrder
  refine ⟨counted.release buffer, clean.release buffer, ?_, ?_, ?_⟩
  all_goals
    unfold Pool.release
    split <;> rfl

theorem InOrder.giveBack (inOrder : pool.InOrder fresh limit growth) (borrowed : Borrowed) :
    (pool.giveBack borrowed).InOrder fresh limit growth := by
  unfold Pool.giveBack
  split
  case isTrue => exact inOrder.release borrowed.buffer
  case isFalse => exact inOrder

theorem InOrder.clear (inOrder : pool.InOrder fresh limit growth) :
    pool.clear.InOrder fresh limit growth :=
  ⟨inOrder.counted.clear.1, clean_clear pool, inOrder.fresh, inOrder.limit, inOrder.growth⟩

end InOrder

end Pool

/-- What a pool keeps of a buffer that is given up: nothing if the buffer is not the pool's or has
    outgrown the limit, and otherwise the emptied buffer. -/
def Borrowed.kept (limit : Nat) (borrowed : Borrowed) : Multiset Output :=
  if borrowed.pooled ∧ borrowed.buffer.capacity ≤ limit then {borrowed.buffer.clear} else 0

theorem Pool.InOrder.stock_giveBack {pool : Pool} {fresh limit : Nat} {growth : Growth}
    (inOrder : pool.InOrder fresh limit growth) (borrowed : Borrowed) :
    (pool.giveBack borrowed).stock = pool.stock + borrowed.kept limit := by
  obtain ⟨counted, -, -, rfl, -⟩ := inOrder
  unfold Pool.giveBack Borrowed.kept
  by_cases pooled : borrowed.pooled = true
  · rw [if_pos pooled, Pool.stock_release counted.sharded]
    by_cases large : pool.maxRetained < borrowed.buffer.capacity
    · rw [if_pos large, if_neg fun small => Nat.not_le.mpr large small.2, Multiset.add_zero]
    · rw [if_neg large, if_pos ⟨pooled, Nat.not_lt.mp large⟩, Multiset.add_comm,
        Multiset.singleton_add]
  · rw [if_neg pooled, if_neg fun both => pooled both.1, Multiset.add_zero]

namespace Lending

/-- Has a holder do something to what it has, which may come out with any content and any room. -/
def write (holder : String) (change : Output → Output) (lending : Lending) : Lending :=
  match lending.heldBy holder with
  | none => lending
  | some borrowed =>
    { lending with
      held := Keyed.put holder { borrowed with buffer := change borrowed.buffer } lending.held }

/-- Appending bytes is one such thing. -/
theorem append_eq_write (holder : String) (run : Bytes) (lending : Lending) :
    lending.append holder run = lending.write holder (Output.append run) := rfl

/-- What is done with a pool and its buffers. -/
inductive Deed
  | acquire (holder : String)
  | detach (holder : String) (capacity : Nat)
  | write (holder : String) (change : Output → Output)
  | release (holder : String)
  | clear

/-- Does it. -/
def Deed.perform : Deed → Lending → Lending
  | acquire holder => Lending.acquire holder
  | detach holder capacity => Lending.detach holder capacity
  | write holder change => Lending.write holder change
  | release holder => Lending.release holder
  | clear => Lending.clear

/-- The holder that it is done by. -/
def Deed.holder? : Deed → Option String
  | acquire holder | detach holder _ | write holder _ | release holder => some holder
  | clear => none

/-- A buffer is handed to the holder. -/
def Deed.HandsTo (holder : String) : Deed → Prop
  | acquire other | detach other _ => other = holder
  | write .. | release _ | clear => False

/-- Does one thing after the other. -/
def run (deeds : List Deed) (lending : Lending) : Lending :=
  deeds.foldl (fun lending deed => deed.perform lending) lending

/-- What the pool would keep of what a holder has. -/
def kept (limit : Nat) (holder : String) (lending : Lending) : Multiset Output :=
  match lending.heldBy holder with
  | none => 0
  | some borrowed => borrowed.kept limit

/-- How the stock, and what the holder has, change by a deed.  A holder that is handed another
    buffer gives up what it had. -/
def Deed.Accounts (fresh limit : Nat) (growth : Growth) (before after : Lending) : Deed → Prop
  | acquire holder => ∃ buffer stock, buffer.content = [] ∧
      (before.pool.stock = 0 ∧ stock = 0 ∧ buffer = .empty fresh growth ∨
        before.pool.stock = buffer ::ₘ stock) ∧
      after.pool.stock = stock + before.kept limit holder ∧
      after.heldBy holder = some ⟨buffer, true⟩
  | detach holder capacity =>
      after.pool.stock = before.pool.stock + before.kept limit holder ∧
      after.heldBy holder = some ⟨.empty capacity growth, false⟩
  | write holder change =>
      after.pool = before.pool ∧
      after.heldBy holder = (before.heldBy holder).map fun borrowed =>
        { borrowed with buffer := change borrowed.buffer }
  | release holder =>
      after.pool.stock = before.pool.stock + before.kept limit holder ∧
      after.heldBy holder = none
  | clear => after.pool.stock = 0 ∧ after.held = before.held

variable {fresh limit : Nat} {growth : Growth} {lending : Lending} {holder other : String}

/-! What becomes of the holders. -/

theorem heldBy_release_self (holder : String) (lending : Lending) :
    (lending.release holder).heldBy holder = none := by
  unfold release
  split
  case h_1 absent => exact absent
  case h_2 => exact Keyed.lookup_erase_self ..

theorem heldBy_release_of_ne (apart : other ≠ holder) (lending : Lending) :
    (lending.release holder).heldBy other = lending.heldBy other := by
  unfold release
  split
  case h_1 => rfl
  case h_2 => exact Keyed.lookup_erase_of_ne apart _

theorem heldBy_handTo_self (holder : String) (borrowed : Borrowed) (lending : Lending) :
    (lending.handTo holder borrowed).heldBy holder = some borrowed :=
  Keyed.lookup_put_self ..

theorem heldBy_handTo_of_ne (apart : other ≠ holder) (borrowed : Borrowed) (lending : Lending) :
    (lending.handTo holder borrowed).heldBy other = lending.heldBy other :=
  (Keyed.lookup_put_of_ne apart ..).trans (heldBy_release_of_ne apart lending)

theorem heldBy_write_self (holder : String) (change : Output → Output) (lending : Lending) :
    (lending.write holder change).heldBy holder = (lending.heldBy holder).map fun borrowed =>
      { borrowed with buffer := change borrowed.buffer } := by
  unfold write
  split
  case h_1 absent => rw [absent, Option.map_none]
  case h_2 held =>
    rw [held]
    exact Keyed.lookup_put_self ..

theorem heldBy_write_of_ne (apart : other ≠ holder) (change : Output → Output)
    (lending : Lending) : (lending.write holder change).heldBy other = lending.heldBy other := by
  unfold write
  split
  case h_1 => rfl
  case h_2 => exact Keyed.lookup_put_of_ne apart ..

/-- A deed is the business of one holder at most. -/
theorem heldBy_perform_of_ne (deed : Deed) (apart : deed.holder? ≠ some other)
    (lending : Lending) : (deed.perform lending).heldBy other = lending.heldBy other := by
  cases deed with
  | acquire holder => exact heldBy_handTo_of_ne (fun same => apart (congrArg some same.symm)) ..
  | detach holder capacity =>
    exact heldBy_handTo_of_ne (fun same => apart (congrArg some same.symm)) ..
  | write holder change =>
    exact heldBy_write_of_ne (fun same => apart (congrArg some same.symm)) ..
  | release holder => exact heldBy_release_of_ne (fun same => apart (congrArg some same.symm)) _
  | clear => rfl

/-! What becomes of the pool. -/

theorem stock_release (inOrder : lending.pool.InOrder fresh limit growth) (holder : String) :
    (lending.release holder).pool.stock = lending.pool.stock + lending.kept limit holder := by
  unfold release kept
  cases held : lending.heldBy holder with
  | none => exact (Multiset.add_zero _).symm
  | some borrowed => exact inOrder.stock_giveBack borrowed

theorem inOrder_release (inOrder : lending.pool.InOrder fresh limit growth) (holder : String) :
    (lending.release holder).pool.InOrder fresh limit growth := by
  unfold release
  split
  case h_1 => exact inOrder
  case h_2 borrowed _ => exact inOrder.giveBack borrowed

theorem pool_write (holder : String) (change : Output → Output) (lending : Lending) :
    (lending.write holder change).pool = lending.pool := by
  unfold write
  split <;> rfl

theorem inOrder_perform (inOrder : lending.pool.InOrder fresh limit growth) (deed : Deed) :
    (deed.perform lending).pool.InOrder fresh limit growth := by
  cases deed with
  | acquire holder =>
    let drawn : Lending := { lending with pool := lending.pool.acquire.2 }
    have ready : drawn.pool.InOrder fresh limit growth := inOrder.acquire
    exact inOrder_release ready holder
  | detach holder capacity => exact inOrder_release inOrder holder
  | write holder change =>
    show (lending.write holder change).pool.InOrder fresh limit growth
    rw [pool_write]
    exact inOrder
  | release holder => exact inOrder_release inOrder holder
  | clear => exact inOrder.clear

theorem inOrder_run (inOrder : lending.pool.InOrder fresh limit growth) (deeds : List Deed) :
    (lending.run deeds).pool.InOrder fresh limit growth := by
  induction deeds generalizing lending with
  | nil => exact inOrder
  | cons deed deeds ih => exact ih (inOrder_perform inOrder deed)

theorem accounts_perform (inOrder : lending.pool.InOrder fresh limit growth) (deed : Deed) :
    deed.Accounts fresh limit growth lending (deed.perform lending) := by
  cases deed with
  | acquire holder =>
    let drawn : Lending := { lending with pool := lending.pool.acquire.2 }
    have ready : drawn.pool.InOrder fresh limit growth := inOrder.acquire
    refine ⟨lending.pool.acquire.1, lending.pool.acquire.2.stock, inOrder.clean.acquire_content,
      ?_, ?_, heldBy_handTo_self ..⟩
    · rcases lending.pool.stock_acquire with ⟨none, still, made⟩ | taken
      · exact .inl ⟨none, still, by rw [made, inOrder.fresh, inOrder.growth]⟩
      · exact .inr taken
    · exact stock_release ready holder
  | detach holder capacity =>
    refine ⟨stock_release inOrder holder, ?_⟩
    rw [← inOrder.growth]
    exact heldBy_handTo_self ..
  | write holder change => exact ⟨pool_write .., heldBy_write_self ..⟩
  | release holder => exact ⟨stock_release inOrder holder, heldBy_release_self ..⟩
  | clear => exact ⟨lending.pool.stock_clear, rfl⟩

/-! What was given back is gone. -/

/-- A holder that is handed nothing gets nothing. -/
theorem heldBy_run_of_none (absent : lending.heldBy holder = none) {deeds : List Deed}
    (nothing : ∀ deed ∈ deeds, ¬ deed.HandsTo holder) :
    (lending.run deeds).heldBy holder = none := by
  induction deeds generalizing lending with
  | nil => exact absent
  | cons deed deeds ih =>
    obtain ⟨first, others⟩ := List.forall_mem_cons.mp nothing
    refine ih ?_ others
    by_cases apart : deed.holder? ≠ some holder
    · rw [heldBy_perform_of_ne deed apart, absent]
    · -- only a write or a return is left, of a holder that has nothing
      have own : deed.holder? = some holder := Classical.not_not.mp apart
      cases deed with
      | acquire known => exact absurd (Option.some.inj own) first
      | detach known capacity => exact absurd (Option.some.inj own) first
      | write known change =>
        cases own
        exact (heldBy_write_self holder change lending).trans (by rw [absent, Option.map_none])
      | release known =>
        cases own
        exact heldBy_release_self holder lending
      | clear => cases own

theorem release_of_none (absent : lending.heldBy holder = none) :
    lending.release holder = lending := by
  unfold release
  rw [absent]

/-- Whatever was done with a pool of whatever settings, however buffers grow: its size is the
    number of buffers in stock, and counting off the shards one by one never takes it below zero;
    whatever is done next changes the stock and the holder's buffer as it should, and nobody else's
    buffer; and a buffer that was given back is not given back again. -/
theorem accounts_exact (fresh limit shards : Nat) (growth : Growth) (deeds : List Deed) :
    let lending := (start (.ofSettings fresh limit shards growth)).run deeds
    lending.pool.size = Multiset.card lending.pool.stock ∧
      (∀ n, Pool.waiting (lending.pool.shards.take n) ≤ lending.pool.size) ∧
      (∀ deed : Deed, deed.Accounts fresh limit growth lending (deed.perform lending) ∧
        ∀ other, deed.holder? ≠ some other →
          (deed.perform lending).heldBy other = lending.heldBy other) ∧
      ∀ (holder : String) (later : List Deed), (∀ deed ∈ later, ¬ deed.HandsTo holder) →
        ((lending.release holder).run later).release holder =
          (lending.release holder).run later := by
  intro lending
  have inOrder : lending.pool.InOrder fresh limit growth :=
    inOrder_run (Pool.inOrder_ofSettings fresh limit shards growth) deeds
  refine ⟨inOrder.counted.size_eq, inOrder.counted.front_le, fun deed => ⟨?_, ?_⟩, ?_⟩
  · exact accounts_perform inOrder deed
  · exact fun other apart => heldBy_perform_of_ne deed apart lending
  · intro holder later nothing
    exact release_of_none (heldBy_run_of_none (heldBy_release_self holder lending) nothing)

end Lending

end ObjectWire
