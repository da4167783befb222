import Mathlib.Algebra.Ring.Nat
import ObjectWire.Zlib.Bits
import ObjectWire.Zlib.BitSource

/-!
# Bits that are written are read

The unread bits of a source make up a list.  `Takes step bits value` says that the step takes the bits
from the front of every such list and answers with the value.  Bits that are put into bytes are the
first ones of the list, and after them come less than eight more.
-/

namespace ObjectWire.Zlib

namespace Bits

theorem length_lowestFirst (count n : Nat) : (lowestFirst count n).length = count := by
  induction count generalizing n with
  | zero => rfl
  | succ count ih => rw [lowestFirst, List.length_cons, ih]

theorem length_highestFirst (count n : Nat) : (highestFirst count n).length = count := by
  rw [highestFirst, List.length_reverse, length_lowestFirst]

theorem drop_lowestFirst (skipped count n : Nat) :
    (lowestFirst (skipped + count) n).drop skipped = lowestFirst count (n / 2 ^ skipped) := by
  induction skipped generalizing n with
  | zero => rw [Nat.zero_add, Nat.pow_zero, Nat.div_one, List.drop_zero]
  | succ skipped ih =>
    rw [Nat.succ_add, lowestFirst, List.drop_succ_cons, ih, Nat.div_div_eq_div_mul,
      Nat.pow_succ, Nat.mul_comm]

theorem lowestFirst_succ_last (count n : Nat) :
    lowestFirst (count + 1) n = lowestFirst count n ++ [decide (n / 2 ^ count % 2 = 1)] := by
  induction count generalizing n with
  | zero => rw [lowestFirst, lowestFirst, Nat.pow_zero, Nat.div_one]; rfl
  | succ count ih =>
    rw [lowestFirst, ih, lowestFirst, Nat.div_div_eq_div_mul, Nat.pow_succ, Nat.mul_comm 2]
    rfl

theorem highestFirst_succ (count n : Nat) :
    highestFirst (count + 1) n = decide (n / 2 ^ count % 2 = 1) :: highestFirst count n := by
  rw [highestFirst, lowestFirst_succ_last, List.reverse_append]
  rfl

theorem toNat_decide_odd (n : Nat) : (decide (n % 2 = 1)).toNat = n % 2 := by
  rcases Nat.mod_two_eq_zero_or_one n with even | odd
  · rw [even]; rfl
  · rw [odd]; rfl

theorem number_lowestFirst {count n : Nat} (h : n < 2 ^ count) :
    number (lowestFirst count n) = n := by
  induction count generalizing n with
  | zero => rw [Nat.lt_one_iff.mp h]; rfl
  | succ count ih =>
    rw [Nat.pow_succ] at h
    rw [lowestFirst, number, toNat_decide_odd, ih (by omega)]
    omega

theorem number_lt (bits : List Bool) : number bits < 2 ^ bits.length := by
  induction bits with
  | nil => exact Nat.one_pos
  | cons bit bits ih =>
    have one := Bool.toNat_le bit
    rw [number, List.length_cons, Nat.pow_succ]
    omega

theorem lowestFirst_zero (count : Nat) : lowestFirst count 0 = List.replicate count false := by
  induction count with
  | zero => rfl
  | succ count ih =>
    rw [lowestFirst, ih]
    rfl

/-- The bits of a number that was made of bits, and zeros. -/
theorem lowestFirst_number (bits : List Bool) (more : Nat) :
    lowestFirst (bits.length + more) (number bits) = bits ++ List.replicate more false := by
  induction bits with
  | nil => rw [List.length_nil, Nat.zero_add, number, lowestFirst_zero, List.nil_append]
  | cons bit bits ih =>
    have low : (bit.toNat + 2 * number bits) % 2 = bit.toNat := by
      have one := Bool.toNat_le bit
      omega
    have high : (bit.toNat + 2 * number bits) / 2 = number bits := by
      have one := Bool.toNat_le bit
      omega
    rw [List.length_cons, Nat.succ_add, lowestFirst, number, low, high, ih]
    cases bit <;> rfl

/-- The bits in a run of bytes. -/
def ofBytes (run : Bytes) : List Bool := run.flatMap fun b => lowestFirst 8 b.toNat

theorem ofBytes_cons (b : UInt8) (run : Bytes) :
    ofBytes (b :: run) = lowestFirst 8 b.toNat ++ ofBytes run := List.flatMap_cons

theorem ofBytes_append (front back : Bytes) :
    ofBytes (front ++ back) = ofBytes front ++ ofBytes back := List.flatMap_append

theorem length_ofBytes (run : Bytes) : (ofBytes run).length = 8 * run.length := by
  induction run with
  | nil => rfl
  | cons b run ih =>
    rw [ofBytes_cons, List.length_append, length_lowestFirst, ih, List.length_cons]
    omega

theorem ofBytes_injective {run other : Bytes} (h : ofBytes run = ofBytes other) : run = other := by
  have length := congrArg List.length h
  rw [length_ofBytes, length_ofBytes] at length
  induction run generalizing other with
  | nil => exact (List.length_eq_zero_iff.mp (by rw [List.length_nil] at length; omega)).symm
  | cons b run ih =>
    cases other with
    | nil => cases length
    | cons c other =>
      rw [ofBytes_cons, ofBytes_cons] at h
      have widths : (lowestFirst 8 b.toNat).length = (lowestFirst 8 c.toNat).length := by
        rw [length_lowestFirst, length_lowestFirst]
      obtain ⟨first, others⟩ := List.append_inj h widths
      have same : b.toNat = c.toNat := by
        rw [← number_lowestFirst (b.toNat_lt : _ < 2 ^ 8), first, number_lowestFirst c.toNat_lt]
      rw [UInt8.toNat_inj.mp same, ih others (by simp only [List.length_cons] at length; omega)]

/-- The bits in the bytes that bits were put into are these bits and less than eight more. -/
theorem ofBytes_toBytes (bits : List Bool) :
    ∃ filler : List Bool, filler.length < 8 ∧ ofBytes (toBytes bits) = bits ++ filler := by
  induction bits using toBytes.induct with
  | case1 => exact ⟨[], by decide, by rw [toBytes]; rfl⟩
  | case2 bit bits ih =>
    obtain ⟨filler, few, rest⟩ := ih
    have width : (bit :: bits.take 7).length ≤ 8 := by
      rw [List.length_cons, List.length_take]
      omega
    have small : number (bit :: bits.take 7) < 2 ^ 8 :=
      Nat.lt_of_lt_of_le (number_lt _) (Nat.pow_le_pow_right (by decide) width)
    have whole : (UInt8.ofNat (number (bit :: bits.take 7))).toNat =
        number (bit :: bits.take 7) := by
      rw [UInt8.toNat_ofNat']
      exact Nat.mod_eq_of_lt small
    obtain ⟨more, eight⟩ : ∃ more, 8 = (bit :: bits.take 7).length + more :=
      ⟨_, (Nat.add_sub_cancel' width).symm⟩
    have here : lowestFirst 8 (number (bit :: bits.take 7)) =
        bit :: bits.take 7 ++ List.replicate more false := by
      rw [eight]
      exact lowestFirst_number _ more
    rw [toBytes, ofBytes_cons, whole, here, rest]
    by_cases full : more = 0
    · refine ⟨filler, few, ?_⟩
      rw [full, List.replicate_zero, List.append_nil, List.cons_append, ← List.append_assoc,
        List.take_append_drop, List.cons_append]
    · -- the byte is not full, so it is the last one
      have short : bits.length < 7 := by
        rw [List.length_cons, List.length_take] at eight
        omega
      have nothing : bits.drop 7 = [] := List.drop_eq_nil_of_le (by omega)
      have all : bits.take 7 = bits := List.take_of_length_le (by omega)
      rw [nothing, toBytes] at rest
      obtain ⟨-, rfl⟩ := List.append_eq_nil_iff.mp rest.symm
      refine ⟨List.replicate more false, ?_, ?_⟩
      · rw [List.length_cons] at eight
        rw [List.length_replicate]
        omega
      · rw [nothing, all, List.nil_append, List.append_nil]

end Bits

namespace BitSource

/-- The bits that are unread. -/
def ahead (source : BitSource) : List Bool := (Bits.ofBytes source.bytes).drop source.used.val

theorem ahead_ofBytes (run : Bytes) : (ofBytes run).ahead = Bits.ofBytes run := rfl

theorem ahead_cons (b : UInt8) (run : Bytes) (used : Fin 8) :
    ahead ⟨b :: run, used⟩ =
      Bits.lowestFirst (8 - used.val) (b.toNat / 2 ^ used.val) ++ Bits.ofBytes run := by
  have split : used.val + (8 - used.val) = 8 := by omega
  have short : used.val ≤ (Bits.lowestFirst 8 b.toNat).length := by
    rw [Bits.length_lowestFirst]
    omega
  have bits := Bits.drop_lowestFirst used.val (8 - used.val) b.toNat
  rw [split] at bits
  rw [ahead, Bits.ofBytes_cons, List.drop_append_of_le_length short, bits]

theorem bit?_of_ahead {source : BitSource} {bit : Bool} {rest : List Bool}
    (h : source.ahead = bit :: rest) :
    ∃ next, source.bit? = some (bit.toNat, next) ∧ next.ahead = rest := by
  obtain ⟨bytes, used⟩ := source
  cases bytes with
  | nil =>
    rw [ahead, show Bits.ofBytes [] = [] from rfl, List.drop_nil] at h
    cases h
  | cons b run =>
    obtain ⟨left, unused⟩ : ∃ left, 8 - used.val = left + 1 := ⟨7 - used.val, by omega⟩
    rw [ahead_cons, unused, Bits.lowestFirst, List.cons_append] at h
    obtain ⟨rfl, rfl⟩ := List.cons.inj h
    have value : (decide (b.toNat / 2 ^ used.val % 2 = 1)).toNat =
        (b.toNat >>> used.val) % 2 := by
      rw [Bits.toNat_decide_odd, Nat.shiftRight_eq_div_pow]
    by_cases full : used = 7
    · subst full
      obtain rfl : left = 0 := by
        have seven : (7 : Fin 8).val = 7 := rfl
        omega
      refine ⟨⟨run, 0⟩, ?_, rfl⟩
      rw [value]
      rfl
    · have below : used.val < 7 := by omega
      have later : (used + 1).val = used.val + 1 := by
        rw [Fin.val_add, Nat.mod_eq_of_lt (by omega)]
        rfl
      refine ⟨⟨b :: run, used + 1⟩, ?_, ?_⟩
      · rw [value]
        exact if_neg full
      · have rest : 8 - (used.val + 1) = left := by omega
        rw [ahead_cons, later, rest, Nat.div_div_eq_div_mul, Nat.pow_succ]

theorem length_ahead_le (source : BitSource) : source.ahead.length ≤ source.size := by
  rw [ahead, List.length_drop, Bits.length_ofBytes, size]
  exact Nat.sub_le _ _

/-- A source of which less than a byte is left in front of a run of bytes is at the run, once the
    begun byte is dropped. -/
theorem align_of_ahead {source : BitSource} {filler : List Bool} {run : Bytes}
    (few : filler.length < 8) (h : source.ahead = filler ++ Bits.ofBytes run) :
    source.align = .ofBytes run := by
  obtain ⟨bytes, used⟩ := source
  have length : 8 * bytes.length - used.val = filler.length + 8 * run.length := by
    have same := congrArg List.length h
    rwa [ahead, List.length_drop, Bits.length_ofBytes, List.length_append,
      Bits.length_ofBytes] at same
  by_cases fresh : used = 0
  · subst fresh
    have none : filler = [] := List.length_eq_zero_iff.mp (by
      have zero : (0 : Fin 8).val = 0 := rfl
      omega)
    rw [none, List.nil_append] at h
    have same : bytes = run := Bits.ofBytes_injective h
    rw [same]
    rfl
  · have aligned : align ⟨bytes, used⟩ = ⟨bytes.drop 1, 0⟩ := if_neg fresh
    rw [aligned]
    have begun : 0 < used.val := Nat.pos_of_ne_zero fun zero => fresh (Fin.ext zero)
    cases bytes with
    | nil =>
      have none : run = [] := List.length_eq_zero_iff.mp (by
        simp only [List.length_nil] at length
        omega)
      rw [none]
      rfl
    | cons b bytes =>
      rw [ahead_cons] at h
      have widths : (Bits.lowestFirst (8 - used.val) (b.toNat / 2 ^ used.val)).length =
          filler.length := by
        rw [Bits.length_lowestFirst]
        simp only [List.length_cons] at length
        omega
      rw [Bits.ofBytes_injective (List.append_inj h widths).2.symm]
      rfl

variable {α : Type}

/-- The step takes the bits from the front of every source that begins with them, and answers with
    the value. -/
def Takes (step : BitSource → Option (α × BitSource)) (bits : List Bool) (value : α) : Prop :=
  ∀ source rest, source.ahead = bits ++ rest →
    ∃ next, step source = some (value, next) ∧ next.ahead = rest

theorem takes_bits? (bits : List Bool) : Takes (bits? bits.length) bits (Bits.number bits) := by
  induction bits with
  | nil => exact fun source rest h => ⟨source, rfl, h⟩
  | cons bit bits ih =>
    intro source rest h
    obtain ⟨middle, first, h⟩ := bit?_of_ahead h
    obtain ⟨next, others, h⟩ := ih middle rest h
    refine ⟨next, ?_, h⟩
    rw [List.length_cons, BitSource.bits?, first]
    simp only [Option.bind_eq_bind, Option.bind_some, others]
    rfl

/-- A number in so many bits that it fits is read as it was written. -/
theorem takes_lowestFirst {count n : Nat} (fits : n < 2 ^ count) :
    Takes (bits? count) (Bits.lowestFirst count n) n := by
  have takes := takes_bits? (Bits.lowestFirst count n)
  rwa [Bits.length_lowestFirst, Bits.number_lowestFirst fits] at takes

end BitSource

end ObjectWire.Zlib
