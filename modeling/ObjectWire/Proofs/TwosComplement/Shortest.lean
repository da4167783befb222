import Mathlib.Data.List.Induction
import Mathlib.Tactic.Linarith
import ObjectWire.Proofs.Wire.Items

/-!
# The shortest bytes of an integer

A run of bytes stands for the integer that leaves the same residue and lies in the half-open range
around zero that the words of its length cover; `Represents` says so without looking at any byte.
An integer has one such run of every length from some length on.  These runs differ only in how
often the sign is repeated in front, and the one that is written is the shortest of them.
-/

namespace ObjectWire

namespace BigEndian

theorem decode_lt (bytes : Bytes) : decode bytes < words bytes.length := by
  induction bytes using List.reverseRecOn with
  | nil => exact words_pos 0
  | append_singleton bytes b ih =>
    have byte := b.toNat_lt
    rw [decode_append_singleton, List.length_append, List.length_singleton, words_succ]
    omega

theorem decode_cons (b : UInt8) (bytes : Bytes) :
    decode (b :: bytes) = b.toNat * words bytes.length + decode bytes := by
  induction bytes using List.reverseRecOn with
  | nil => simp [decode, words]
  | append_singleton bytes last ih =>
    rw [← List.cons_append, decode_append_singleton, decode_append_singleton, ih,
      List.length_append, List.length_singleton, words_succ, Nat.add_mul, Nat.mul_assoc,
      Nat.add_assoc]

/-- A run of bytes is what its number is written as. -/
theorem encode_decode (bytes : Bytes) : encode bytes.length (decode bytes) = bytes := by
  induction bytes using List.reverseRecOn with
  | nil => rfl
  | append_singleton bytes b ih =>
    have byte := b.toNat_lt
    have front : (decode bytes * 256 + b.toNat) / 256 = decode bytes := by omega
    have last : UInt8.ofNat (decode bytes * 256 + b.toNat) = b := by
      rw [← UInt8.toNat_inj, UInt8.toNat_ofNat']
      omega
    rw [decode_append_singleton, List.length_append, List.length_singleton, encode, front, ih, last]

end BigEndian

namespace TwosComplement

open BigEndian (words)

/-- The run of bytes is a two's complement of the integer. -/
structure Represents (bytes : Bytes) (n : Int) : Prop where
  nonempty : bytes ≠ []
  residue : n % words bytes.length = BigEndian.decode bytes
  low : -(words bytes.length : Int) ≤ 2 * n
  high : 2 * n < words bytes.length

/-- The sign of an integer, as a byte. -/
def signByte (n : Int) : UInt8 := if n < 0 then 0xFF else 0x00

variable {bytes other : Bytes} {n : Int}

/-- The leading byte says in which half of the words a run lies. -/
theorem lead_lt_iff (first : UInt8) (bytes : Bytes) :
    first < 0x80 ↔ 2 * BigEndian.decode (first :: bytes) < words (first :: bytes).length := by
  have rest := BigEndian.decode_lt bytes
  have step : words (first :: bytes).length = words bytes.length * 256 := BigEndian.words_succ _
  rw [BigEndian.decode_cons, step, UInt8.lt_iff_toNat_lt]
  show first.toNat < 128 ↔ _
  constructor
  · intro small
    nlinarith
  · intro low
    by_contra large
    nlinarith

/-- Runs of bytes stand for what reading them yields, and for nothing else. -/
theorem represents_iff : Represents bytes n ↔ bytes ≠ [] ∧ decode bytes = n := by
  cases bytes with
  | nil => exact ⟨fun h => absurd rfl h.nonempty, fun h => absurd rfl h.1⟩
  | cons first bytes =>
    have below := BigEndian.decode_lt (first :: bytes)
    have half := lead_lt_iff first bytes
    unfold decode
    dsimp only
    constructor
    · rintro ⟨nonempty, residue, low, high⟩
      refine ⟨nonempty, ?_⟩
      by_cases negative : n < 0
      · rw [← Int.add_emod_right, Int.emod_eq_of_lt (by omega) (by omega)] at residue
        rw [if_neg (by rw [half]; omega)]
        omega
      · rw [Int.emod_eq_of_lt (by omega) (by omega)] at residue
        rw [if_pos (by rw [half]; omega)]
        omega
    · rintro ⟨nonempty, rfl⟩
      by_cases small : first < 0x80
      · rw [if_pos small]
        rw [half] at small
        exact ⟨nonempty, Int.emod_eq_of_lt (by omega) (by omega), by omega, by omega⟩
      · rw [if_neg small]
        rw [half] at small
        refine ⟨nonempty, ?_, by omega, by omega⟩
        rw [← Int.add_emod_right, Int.sub_add_cancel, Int.emod_eq_of_lt (by omega) (by omega)]

theorem represents_encode (n : Int) : Represents (encode n) n :=
  represents_iff.mpr ⟨encode_ne_nil n, decode_encode n⟩

theorem Represents.unique {m : Int} (h : Represents bytes n) (also : Represents bytes m) :
    m = n := by
  rw [← (represents_iff.mp h).2, (represents_iff.mp also).2]

/-- An integer has one run of each length at most. -/
theorem Represents.eq_of_length (h : Represents bytes n) (also : Represents other n)
    (length : bytes.length = other.length) : bytes = other := by
  have same : BigEndian.decode bytes = BigEndian.decode other := by
    have number := h.residue
    rw [length, also.residue] at number
    exact_mod_cast number.symm
  rw [← BigEndian.encode_decode bytes, ← BigEndian.encode_decode other, length, same]

/-- What matters of an integer beside its sign takes a bit less than its bytes have. -/
theorem Represents.digits_lt (h : Represents bytes n) :
    digits (magnitude n) < 8 * bytes.length := by
  have length : 0 < bytes.length := List.length_pos_iff.mpr h.nonempty
  have powers : words bytes.length = 2 * 2 ^ (8 * bytes.length - 1) := by
    rw [← Nat.pow_succ', show (8 * bytes.length - 1).succ = 8 * bytes.length by omega, Nat.pow_mul]
    rfl
  have small : magnitude n < 2 ^ (8 * bytes.length - 1) := by
    have low := h.low
    have high := h.high
    rw [powers] at low high
    cases n with
    | ofNat k =>
      rw [Int.ofNat_eq_natCast] at high
      rw [magnitude]
      omega
    | negSucc k =>
      rw [magnitude]
      omega
  unfold digits
  split
  · omega
  case isFalse nonzero =>
    have := (Nat.log2_lt nonzero).mpr small
    omega

/-- No run for an integer is shorter than the one it is written as. -/
theorem Represents.length_encode_le (h : Represents bytes n) :
    (encode n).length ≤ bytes.length := by
  have bits := h.digits_lt
  rw [length_encode, width]
  omega

/-- Repeating the sign in front changes nothing. -/
theorem Represents.extend (h : Represents bytes n) : Represents (signByte n :: bytes) n := by
  obtain ⟨nonempty, residue, low, high⟩ := h
  have step : words (signByte n :: bytes).length = words bytes.length * 256 :=
    BigEndian.words_succ _
  refine ⟨by simp, ?_, by omega, by omega⟩
  rw [BigEndian.decode_cons, step, Int.natCast_add, ← residue, signByte]
  by_cases negative : n < 0
  · have wide : n % (words bytes.length * 256 : Nat) = n + (words bytes.length * 256 : Nat) := by
      rw [← Int.add_emod_right, Int.emod_eq_of_lt (by omega) (by omega)]
    have narrow : n % words bytes.length = n + words bytes.length := by
      rw [← Int.add_emod_right, Int.emod_eq_of_lt (by omega) (by omega)]
    have sign : (0xFF : UInt8).toNat = 255 := rfl
    rw [if_pos negative, wide, narrow, sign]
    omega
  · have sign : (0x00 : UInt8).toNat = 0 := rfl
    rw [if_neg negative, Int.emod_eq_of_lt (by omega) (by omega),
      Int.emod_eq_of_lt (by omega) (by omega), sign]
    omega

theorem represents_extended (n : Int) (k : Nat) :
    Represents (List.replicate k (signByte n) ++ encode n) n := by
  induction k with
  | zero => exact represents_encode n
  | succ k ih => exact ih.extend

/-- The runs that stand for an integer are the one it is written as with the sign in front of it, any
    number of times. -/
theorem represents_iff_extended :
    Represents bytes n ↔ ∃ k, bytes = List.replicate k (signByte n) ++ encode n := by
  constructor
  · intro h
    have longer := h.length_encode_le
    refine ⟨bytes.length - (encode n).length, h.eq_of_length (represents_extended n _) ?_⟩
    rw [List.length_append, List.length_replicate]
    omega
  · rintro ⟨k, rfl⟩
    exact represents_extended n k

/-- An integer of any size is written as the length and the bytes of its shortest two's complement,
    unless these are too many to be counted, and is read back from them.  Every run of bytes behind
    its length is read as the one integer that it is a two's complement of; what that integer is
    written as is the run without the signs that are repeated in front.  No bytes are no integer. -/
theorem integers_shortest :
    (∀ n : Int,
      Wire.bigInteger n =
        (if (encode n).length < Wire.lengthLimit then
          .ok (BigEndian.encode 4 (encode n).length ++ encode n)
        else .error (.tooLong .byteArray (encode n).length)) ∧
      Represents (encode n) n ∧
      (∀ bytes, Represents bytes n → (encode n).length ≤ bytes.length) ∧
      ∀ run, Wire.bigInteger n = .ok run → Input.Takes Input.bigInteger run n) ∧
    (∀ bytes : Bytes, bytes ≠ [] → bytes.length < Wire.lengthLimit → ∃ n,
      Represents bytes n ∧ (∀ m, Represents bytes m → m = n) ∧
      Input.Takes Input.bigInteger (BigEndian.encode 4 bytes.length ++ bytes) n ∧
      ∃ k, bytes = List.replicate k (signByte n) ++ encode n) ∧
    Input.Fails Input.bigInteger (BigEndian.encode 4 0) .emptyBigInteger := by
  refine ⟨fun n => ⟨?_, represents_encode n, fun bytes h => h.length_encode_le,
    fun run written => Input.takes_bigInteger written⟩, fun bytes nonempty short => ?_, ?_⟩
  · rw [Wire.bigInteger, Wire.byteArray, Wire.length]
    split <;> rfl
  · have represents : Represents bytes (decode bytes) := represents_iff.mpr ⟨nonempty, rfl⟩
    exact ⟨decode bytes, represents, fun m => represents.unique,
      Input.takes_bigInteger_of_ne_nil (Wire.byteArray_of_lt short) nonempty,
      represents_iff_extended.mp represents⟩
  · have written : Wire.byteArray [] = .ok (BigEndian.encode 4 0) := rfl
    exact (Input.takes_byteArray written).fails_nil fun _ _ => rfl

/-- The least integer that two bytes hold, and -129 with two signs too many. -/
theorem integers_shortest_of_signs :
    Wire.bigInteger (-32768) = .ok [0, 0, 0, 2, 0x80, 0x00] ∧
    Input.bigInteger ⟨[0, 0, 0, 4, 0xFF, 0xFF, 0xFF, 0x7F] ++ [1], 0⟩ = (.ok (-129), ⟨[1], 8⟩) ∧
    Wire.bigInteger (-129) = .ok [0, 0, 0, 2, 0xFF, 0x7F] := by
  obtain ⟨writes, reads, -⟩ := integers_shortest
  have least := (writes (-32768)).1
  have next := (writes (-129)).1
  obtain ⟨n, represents, only, taken, -⟩ := reads [0xFF, 0xFF, 0xFF, 0x7F] (by decide) (by decide)
  obtain rfl : -129 = n := only _ ⟨by decide, by decide, by decide, by decide⟩
  refine ⟨?_, taken [1] 0, ?_⟩
  · rw [least]
    decide
  · rw [next]
    decide

end TwosComplement

end ObjectWire
