import ObjectWire.Json.Parser

/-!
# Spelled integers

An integer is spelled by its decimal digits, without leading zeros, behind a sign if it is negative.
The parser scans exactly these bytes, wherever nothing behind them continues a number, and they stand
for the integer.
-/

namespace ObjectWire.Json

/-- What stands behind a value inside a document, or nothing: neither continues a number. -/
def Ends (rest : Bytes) : Prop := rest = [] ∨ ∃ b more, rest = b :: more ∧ b ∈ [0x2C, 0x5D, 0x7D]

/-- The bytes are scanned as a number, and what they begin with says that they are one. -/
structure Numeral (spelled : Bytes) : Prop where
  first : ∃ b more, spelled = b :: more ∧ (b = 0x2D ∨ isDigit b = true)
  scanned : ∀ rest, Ends rest → scanNumber (spelled ++ rest) = some (spelled, rest)

/-- The digits of a natural number. -/
def decimals (n : Nat) : Bytes := (Nat.toDigits 10 n).map fun c => UInt8.ofNat c.toNat

theorem ascii_repr (n : Nat) : ascii n.repr = decimals n := by
  rw [ascii, Nat.repr_eq_ofList_toDigits, String.toList_ofList]
  rfl

/-- The byte of a decimal digit. -/
theorem digit_byte {d : Nat} (small : d < 10) :
    isDigit (UInt8.ofNat (Nat.digitChar d).toNat) = true ∧
      (UInt8.ofNat (Nat.digitChar d).toNat).toNat - 0x30 = d ∧
      (UInt8.ofNat (Nat.digitChar d).toNat = 0x30 → d = 0) := by
  revert d
  decide

theorem decimals_of_lt {n : Nat} (small : n < 10) :
    decimals n = [UInt8.ofNat (Nat.digitChar n).toNat] := by
  rw [decimals, Nat.toDigits_of_lt_base small]
  rfl

theorem decimals_of_le {n : Nat} (large : 10 ≤ n) :
    decimals n = decimals (n / 10) ++ [UInt8.ofNat (Nat.digitChar (n % 10)).toNat] := by
  rw [decimals, Nat.toDigits_of_base_le (by decide) large, List.map_append]
  rfl

/-- Induction along the digits of a number. -/
theorem decimals_induction {motive : Nat → Prop} (one : ∀ n < 10, motive n)
    (more : ∀ n, 10 ≤ n → motive (n / 10) → motive n) (n : Nat) : motive n := by
  induction n using Nat.strongRecOn with
  | ind n ih =>
    by_cases small : n < 10
    · exact one n small
    · exact more n (by omega) (ih (n / 10) (by omega))

theorem isDigit_of_mem_decimals (n : Nat) : ∀ b ∈ decimals n, isDigit b = true := by
  induction n using decimals_induction with
  | one n small =>
    rw [decimals_of_lt small, List.forall_mem_singleton]
    exact (digit_byte small).1
  | more n large ih =>
    rw [decimals_of_le large, List.forall_mem_append, List.forall_mem_singleton]
    exact ⟨ih, (digit_byte (Nat.mod_lt n (by decide))).1⟩

/-- The first digit is no zero, unless the number is zero. -/
theorem decimals_eq_cons (n : Nat) :
    ∃ b more, decimals n = b :: more ∧ (b = 0x30 → n = 0 ∧ more = []) := by
  induction n using decimals_induction with
  | one n small =>
    exact ⟨_, [], decimals_of_lt small, fun zero => ⟨(digit_byte small).2.2 zero, rfl⟩⟩
  | more n large ih =>
    obtain ⟨b, more, front, zero⟩ := ih
    rw [decimals_of_le large, front]
    exact ⟨b, _, rfl, fun leading => by have := (zero leading).1; omega⟩

theorem digits?_decimals (n : Nat) : digits? (decimals n) = some n := by
  have value : (decimals n).foldlM (fun n b =>
      if isDigit b then some (n * 10 + (b.toNat - 0x30)) else none) 0 = some n := by
    induction n using decimals_induction with
    | one n small =>
      obtain ⟨digit, number, -⟩ := digit_byte small
      rw [decimals_of_lt small, List.foldlM_cons, if_pos digit, number, Nat.zero_mul, Nat.zero_add]
      rfl
    | more n large ih =>
      obtain ⟨digit, number, -⟩ := digit_byte (Nat.mod_lt n (show 0 < 10 by decide))
      rw [decimals_of_le large, List.foldlM_append, ih, Option.bind_eq_bind, Option.bind_some,
        List.foldlM_cons, if_pos digit, number, Nat.mul_comm, Nat.div_add_mod]
      rfl
  obtain ⟨b, more, front, -⟩ := decimals_eq_cons n
  have content : ¬ (decimals n).isEmpty = true := by simp [front]
  rw [digits?, if_neg content]
  exact value

theorem Ends.stops {rest : Bytes} (ends : Ends rest) {b : UInt8} {more : Bytes}
    (behind : rest = b :: more) : isDigit b = false ∧ b ≠ 0x2E ∧ b ≠ 0x65 ∧ b ≠ 0x45 := by
  have each : ∀ b ∈ [0x2C, 0x5D, 0x7D], isDigit b = false ∧ b ≠ 0x2E ∧ b ≠ 0x65 ∧ b ≠ 0x45 := by
    decide +kernel
  rcases ends with none | ⟨first, others, same, listed⟩
  · rw [none] at behind
    cases behind
  · rw [same] at behind
    rw [← (List.cons.inj behind).1]
    exact each first listed

theorem scanDigits_decimals (n : Nat) {rest : Bytes} (ends : Ends rest) :
    scanDigits (decimals n ++ rest) = some (decimals n, rest) := by
  have digits := isDigit_of_mem_decimals n
  have nothing : rest.takeWhile isDigit = [] ∧ rest.dropWhile isDigit = rest := by
    cases behind : rest with
    | nil => exact ⟨rfl, rfl⟩
    | cons b more => simp [(ends.stops behind).1]
  obtain ⟨b, more, front, -⟩ := decimals_eq_cons n
  have content : ¬ (decimals n).isEmpty = true := by simp [front]
  unfold scanDigits
  simp only [List.takeWhile_append_of_pos digits, List.dropWhile_append_of_pos digits, nothing.1,
    nothing.2, List.append_nil, if_neg content]

/-- The digits are scanned up to what is no digit; a leading zero is all there is. -/
theorem scanInteger_decimals (n : Nat) {rest : Bytes} (ends : Ends rest) :
    scanInteger (decimals n ++ rest) = some (decimals n, rest) := by
  obtain ⟨b, more, front, zero⟩ := decimals_eq_cons n
  by_cases leading : b = 0x30
  · obtain ⟨-, rfl⟩ := zero leading
    subst leading
    rw [front]
    cases behind : rest with
    | nil => rfl
    | cons next others => simp [scanInteger, (ends.stops behind).1]
  · rw [← scanDigits_decimals n ends, front, List.cons_append, scanInteger.eq_3]
    exact fun _ same => leading (List.cons.inj same).1

theorem scanFraction_ends {rest : Bytes} (ends : Ends rest) :
    scanFraction rest = some ([], rest) := by
  unfold scanFraction
  split
  case h_1 more => exact absurd rfl (ends.stops rfl).2.1
  case h_2 => rfl

theorem scanExponent_ends {rest : Bytes} (ends : Ends rest) :
    scanExponent rest = some ([], rest) := by
  cases behind : rest with
  | nil => rfl
  | cons b more =>
    obtain ⟨-, -, small, large⟩ := ends.stops behind
    simp [scanExponent, small, large]

/-- The digits begin with a digit, not with a sign. -/
theorem decimals_unsigned (n : Nat) :
    ∃ b more, decimals n = b :: more ∧ isDigit b = true ∧ b ≠ 0x2D := by
  obtain ⟨b, more, front, -⟩ := decimals_eq_cons n
  have digit : isDigit b = true := isDigit_of_mem_decimals n b (front ▸ List.mem_cons_self)
  exact ⟨b, more, front, digit, fun same => by simp [same, isDigit] at digit⟩

theorem numeral_decimals (n : Nat) : Numeral (decimals n) := by
  obtain ⟨b, more, front, digit, unsigned⟩ := decimals_unsigned n
  refine ⟨⟨b, more, front, .inr digit⟩, fun rest ends => ?_⟩
  have integer := scanInteger_decimals n ends
  rw [front] at integer ⊢
  rw [List.cons_append] at integer ⊢
  simp [scanNumber, unsigned, integer, scanFraction_ends ends, scanExponent_ends ends]

theorem numeral_minus (n : Nat) : Numeral (0x2D :: decimals n) := by
  refine ⟨⟨_, _, rfl, .inl rfl⟩, fun rest ends => ?_⟩
  simp [scanNumber, scanInteger_decimals n ends, scanFraction_ends ends, scanExponent_ends ends]

/-- How an integer is spelled. -/
theorem ascii_toString (n : Int) :
    ascii (toString n) = if n < 0 then 0x2D :: decimals n.natAbs else decimals n.natAbs := by
  cases n with
  | ofNat n => exact ascii_repr n
  | negSucc n =>
    have spelled : toString (Int.negSucc n) = "-" ++ (n + 1).repr := rfl
    have minus : ascii ("-" ++ (n + 1).repr) = 0x2D :: ascii (n + 1).repr := by
      simp [ascii, String.toList_append]
    rw [spelled, minus, ascii_repr, if_pos (Int.negSucc_lt_zero n)]
    rfl

theorem numeral_toString (n : Int) : Numeral (ascii (toString n)) := by
  rw [ascii_toString]
  split
  · exact numeral_minus _
  · exact numeral_decimals _

/-- An integer as a document is a document of the integer. -/
theorem int?_ofInt (n : Int) : (ofInt n).int? = some n := by
  rw [ofInt, ascii_toString]
  split
  case isTrue negative =>
    have nonzero : n.natAbs ≠ 0 := by omega
    have opposite : -(n.natAbs : Int) = n := by omega
    rw [int?, digits?_decimals, Option.bind_eq_bind, Option.bind_some, if_neg nonzero, opposite]
  case isFalse natural =>
    obtain ⟨b, more, front, -, unsigned⟩ := decimals_unsigned n.natAbs
    have value := digits?_decimals n.natAbs
    rw [front] at value ⊢
    rw [int?.eq_2 _ fun _ same => unsigned (List.cons.inj same).1, value]
    have same : (n.natAbs : Int) = n := by omega
    exact congrArg some same

end ObjectWire.Json
