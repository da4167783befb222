/-!
# Bytes and big-endian words

A run of bytes is a plain list.  A machine word of `w` bytes is written with its
most significant byte first; reading such a run back gives the number modulo
the number of such words, so the two directions determine each other on words
that fit.
-/

namespace ObjectWire

/-- A run of bytes, in wire order. -/
abbrev Bytes : Type := List UInt8

namespace BigEndian

/-- The number of words of `w` bytes. -/
def words (w : Nat) : Nat := Nat.pow 256 w

/-- The low `w` bytes of a number, most significant first. -/
def encode : (w : Nat) → Nat → Bytes
  | 0, _ => []
  | w + 1, n => encode w (n / 256) ++ [UInt8.ofNat n]

/-- The number a run of bytes stands for, most significant byte first. -/
def decode (bytes : Bytes) : Nat :=
  bytes.foldl (fun n b => n * 256 + b.toNat) 0

@[simp] theorem length_encode (w n : Nat) : (encode w n).length = w := by
  induction w generalizing n with
  | zero => rfl
  | succ w ih => simp [encode, ih]

@[simp] theorem decode_nil : decode [] = 0 := rfl

theorem words_succ (w : Nat) : words (w + 1) = words w * 256 := rfl

theorem decode_append_singleton (bytes : Bytes) (b : UInt8) :
    decode (bytes ++ [b]) = decode bytes * 256 + b.toNat := by
  simp [decode]

/-- Reading back what was written gives the number modulo the word's size. -/
theorem decode_encode (w n : Nat) : decode (encode w n) = n % words w := by
  induction w generalizing n with
  | zero => exact (Nat.mod_one n).symm
  | succ w ih =>
    have byte : (UInt8.ofNat n).toNat = n % 256 := by simp
    rw [encode, decode_append_singleton, ih, byte, words_succ, Nat.mul_comm (words w) 256,
      Nat.mod_mul]
    omega

end BigEndian

end ObjectWire
