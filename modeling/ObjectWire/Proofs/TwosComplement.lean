import ObjectWire.TwosComplement

/-!
# Integers of any size read back

The bytes that an integer is written in leave room for its sign: the lower half of their words
stands for the integers from zero on, the upper half for the negative ones, and the leading byte
tells the halves apart.
-/

namespace ObjectWire

namespace BigEndian

theorem words_pos (w : Nat) : 0 < words w := Nat.pow_pos (by decide)

/-- The leading byte is the most significant one. -/
theorem encode_succ (w n : Nat) :
    encode (w + 1) n = UInt8.ofNat (n / words w) :: encode w n := by
  induction w generalizing n with
  | zero => simp [encode, words]
  | succ w ih =>
    have lead : n / 256 / words w = n / words (w + 1) := by
      rw [Nat.div_div_eq_div_mul, words_succ, Nat.mul_comm]
    rw [encode, ih, lead, List.cons_append]
    rfl

end BigEndian

namespace TwosComplement

open BigEndian (words)

theorem lt_pow_digits (n : Nat) : n < Nat.pow 2 (digits n) := by
  unfold digits
  by_cases zero : n = 0
  · simp [zero]
  · rw [if_neg zero]
    exact Nat.lt_log2_self

theorem magnitude_near (n : Int) : -(magnitude n : Int) - 1 ≤ n ∧ n ≤ magnitude n := by
  cases n with
  | ofNat k =>
    rw [magnitude, Int.ofNat_eq_natCast]
    omega
  | negSucc k =>
    rw [magnitude]
    omega

/-- What matters of an integer beside its sign lies in the lower half of the words. -/
theorem magnitude_lt (n : Int) :
    magnitude n < 128 * words (digits (magnitude n) / 8) := by
  have bits : digits (magnitude n) ≤ 7 + 8 * (digits (magnitude n) / 8) := by omega
  calc magnitude n
    _ < Nat.pow 2 (digits (magnitude n)) := lt_pow_digits (magnitude n)
    _ ≤ Nat.pow 2 (7 + 8 * (digits (magnitude n) / 8)) := Nat.pow_le_pow_right (by decide) bits
    _ = Nat.pow 2 7 * Nat.pow (Nat.pow 2 8) (digits (magnitude n) / 8) := by
      exact (Nat.pow_add 2 7 _).trans (congrArg (2 ^ 7 * ·) (Nat.pow_mul 2 8 _))

/-- A word stands for itself in the lower half of the words, and in the upper half for what it lacks
    to the number of words. -/
theorem decode_word {w m : Nat} (fits : m < words (w + 1)) :
    decode (BigEndian.encode (w + 1) m) =
      if m < 128 * words w then (m : Int) else m - words (w + 1) := by
  have below : m / words w < 256 := by
    rw [Nat.div_lt_iff_lt_mul (BigEndian.words_pos w), Nat.mul_comm]
    exact fits
  have half : UInt8.ofNat (m / words w) < 0x80 ↔ m < 128 * words w := by
    rw [UInt8.lt_iff_toNat_lt, UInt8.toNat_ofNat_of_lt' below,
      ← Nat.div_lt_iff_lt_mul (BigEndian.words_pos w)]
    rfl
  have value : BigEndian.decode (BigEndian.encode (w + 1) m) = m := by
    rw [BigEndian.decode_encode, Nat.mod_eq_of_lt fits]
  have length := BigEndian.length_encode (w + 1) m
  rw [BigEndian.encode_succ] at value length ⊢
  simp only [decode, half, value, length]

/-- The integers around zero are what their residues stand for. -/
theorem decode_residue {w : Nat} {n : Int} (low : -(128 * words w : Int) ≤ n)
    (high : n < 128 * words w) :
    decode (BigEndian.encode (w + 1) (n % words (w + 1)).toNat) = n := by
  have halves := BigEndian.words_succ w
  by_cases negative : n < 0
  · have residue : n % words (w + 1) = n + words (w + 1) := by
      rw [← Int.add_emod_right, Int.emod_eq_of_lt (by omega) (by omega)]
    rw [residue, decode_word (by omega), if_neg (by omega)]
    omega
  · rw [Int.emod_eq_of_lt (by omega) (by omega), decode_word (by omega), if_pos (by omega)]
    omega

/-- An integer is what its two's complement stands for. -/
theorem decode_encode (n : Int) : decode (encode n) = n := by
  have small := magnitude_lt n
  have near := magnitude_near n
  exact decode_residue (by omega) (by omega)

theorem length_encode (n : Int) : (encode n).length = width n :=
  BigEndian.length_encode _ _

/-- There is a byte at least, which has the sign. -/
theorem encode_ne_nil (n : Int) : encode n ≠ [] := by
  intro empty
  have length := length_encode n
  rw [empty] at length
  cases length

end TwosComplement

end ObjectWire
