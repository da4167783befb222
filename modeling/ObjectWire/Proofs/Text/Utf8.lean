import ObjectWire.Proofs.Act
import ObjectWire.Text.Utf8

/-!
# UTF-8 reads back

The encoding of a text decodes to the text.  The argument is one character at a time: whichever
of the four lengths its sequence has, decoding takes exactly that sequence off and continues
behind it.  A text that was decoded takes no more bytes than it was decoded from.
-/

namespace ObjectWire.Utf8

theorem continues_ofNat {n : Nat} (low : 128 ≤ n) (high : n ≤ 191) :
    continues (UInt8.ofNat n) = true := by
  simp only [continues, UInt8.le_iff_toNat_le,
    UInt8.toNat_ofNat_of_lt' (show n < UInt8.size by simp [UInt8.size]; omega),
    Bool.and_eq_true, decide_eq_true_eq]
  exact ⟨low, high⟩

theorem payload_ofNat {n : Nat} (h : n < 64) : payload (UInt8.ofNat (n + 128)) = n := by
  rw [payload, UInt8.toNat_ofNat_of_lt' (by simp [UInt8.size]; omega)]
  omega

/-- Which second bytes fit, for bytes given by their numbers. -/
theorem secondFits_ofNat {a b : Nat} (ha : a < 256) (hb : b < 256) (low : 128 ≤ b)
    (high : b ≤ 191) (overlongThree : a = 0xE0 → 0xA0 ≤ b) (surrogate : a = 0xED → b ≤ 0x9F)
    (overlongFour : a = 0xF0 → 0x90 ≤ b) (beyond : a = 0xF4 → b ≤ 0x8F) :
    secondFits (UInt8.ofNat a) (UInt8.ofNat b) = true := by
  have hb' : (UInt8.ofNat b).toNat = b := UInt8.toNat_ofNat_of_lt' (by simpa [UInt8.size])
  have ha' : (UInt8.ofNat a).toNat = a := UInt8.toNat_ofNat_of_lt' (by simpa [UInt8.size])
  simp only [secondFits, ← UInt8.toNat_inj, UInt8.le_iff_toNat_le, ha', hb',
    continues_ofNat low high, UInt8.reduceToNat]
  split
  · simp only [Bool.and_eq_true, decide_eq_true_eq]; omega
  · split
    · simp only [Bool.and_eq_true, decide_eq_true_eq]; omega
    · split
      · simp only [Bool.and_eq_true, decide_eq_true_eq]; omega
      · split
        · simp only [Bool.and_eq_true, decide_eq_true_eq]; omega
        · rfl

theorem decodeAt_one {n : Nat} (h : n < 128) (index : Nat) (rest : Bytes) :
    decodeAt index (UInt8.ofNat n :: rest) = (Char.ofNat n :: ·) <$> decodeAt (index + 1) rest := by
  rw [decodeAt.eq_def]
  have value : (UInt8.ofNat n).toNat = n := UInt8.toNat_ofNat_of_lt' (by simp [UInt8.size]; omega)
  simp only [UInt8.lt_iff_toNat_lt, value]
  exact if_pos h

theorem decodeAt_two {a b : Nat} (low : 2 ≤ a) (high : a < 32) (hb : b < 64) (index : Nat)
    (rest : Bytes) :
    decodeAt index (UInt8.ofNat (a + 192) :: UInt8.ofNat (b + 128) :: rest) =
      (Char.ofNat (a * 64 + b) :: ·) <$> decodeAt (index + 2) rest := by
  have value : (UInt8.ofNat (a + 192)).toNat = a + 192 :=
    UInt8.toNat_ofNat_of_lt' (by simp [UInt8.size]; omega)
  have follows : continues (UInt8.ofNat (b + 128)) = true := continues_ofNat (by omega) (by omega)
  have lead : (a + 192) % 32 = a := by omega
  rw [decodeAt.eq_def]
  simp only [UInt8.lt_iff_toNat_lt, UInt8.le_iff_toNat_le, UInt8.reduceToNat, value, follows,
    payload_ofNat hb, lead]
  rw [if_neg (by omega), if_pos (by simp; omega), if_pos trivial]

theorem decodeAt_three {a b c : Nat} (ha : a < 16) (hb : b < 64) (hc : c < 64)
    (overlong : a = 0 → 32 ≤ b) (surrogate : a = 13 → b < 32) (index : Nat) (rest : Bytes) :
    decodeAt index
        (UInt8.ofNat (a + 224) :: UInt8.ofNat (b + 128) :: UInt8.ofNat (c + 128) :: rest) =
      (Char.ofNat (a * 4096 + b * 64 + c) :: ·) <$> decodeAt (index + 3) rest := by
  have value : (UInt8.ofNat (a + 224)).toNat = a + 224 :=
    UInt8.toNat_ofNat_of_lt' (by simp [UInt8.size]; omega)
  have fits : secondFits (UInt8.ofNat (a + 224)) (UInt8.ofNat (b + 128)) = true :=
    secondFits_ofNat (by omega) (by omega) (by omega) (by omega) (by omega) (by omega) (by omega)
      (by omega)
  have follows : continues (UInt8.ofNat (c + 128)) = true := continues_ofNat (by omega) (by omega)
  have lead : (a + 224) % 16 = a := by omega
  rw [decodeAt.eq_def]
  simp only [UInt8.lt_iff_toNat_lt, UInt8.le_iff_toNat_le, UInt8.reduceToNat, value, fits, follows,
    payload_ofNat hb, payload_ofNat hc, lead]
  rw [if_neg (by omega), if_neg (by simp), if_pos (by simp; omega), if_pos trivial,
    if_pos trivial]

theorem decodeAt_four {a b c d : Nat} (ha : a < 5) (hb : b < 64) (hc : c < 64) (hd : d < 64)
    (overlong : a = 0 → 16 ≤ b) (beyond : a = 4 → b < 16) (index : Nat) (rest : Bytes) :
    decodeAt index
        (UInt8.ofNat (a + 240) :: UInt8.ofNat (b + 128) :: UInt8.ofNat (c + 128) ::
          UInt8.ofNat (d + 128) :: rest) =
      (Char.ofNat (a * 262144 + b * 4096 + c * 64 + d) :: ·) <$> decodeAt (index + 4) rest := by
  have value : (UInt8.ofNat (a + 240)).toNat = a + 240 :=
    UInt8.toNat_ofNat_of_lt' (by simp [UInt8.size]; omega)
  have fits : secondFits (UInt8.ofNat (a + 240)) (UInt8.ofNat (b + 128)) = true :=
    secondFits_ofNat (by omega) (by omega) (by omega) (by omega) (by omega) (by omega) (by omega)
      (by omega)
  have follows : continues (UInt8.ofNat (c + 128)) = true := continues_ofNat (by omega) (by omega)
  have ends : continues (UInt8.ofNat (d + 128)) = true := continues_ofNat (by omega) (by omega)
  have lead : (a + 240) % 8 = a := by omega
  rw [decodeAt.eq_def]
  simp only [UInt8.lt_iff_toNat_lt, UInt8.le_iff_toNat_le, UInt8.reduceToNat, value, fits, follows,
    ends, payload_ofNat hb, payload_ofNat hc, payload_ofNat hd, lead]
  rw [if_neg (by omega), if_neg (by simp), if_neg (by simp), if_pos (by simp; omega),
    if_pos trivial, if_pos trivial, if_pos trivial]

/-- Decoding takes the sequence of one character off. -/
theorem decodeAt_encodeChar (c : Char) (index : Nat) (rest : Bytes) :
    ∃ next, decodeAt index (String.utf8EncodeChar c ++ rest) = (c :: ·) <$> decodeAt next rest := by
  have valid : c.val.toNat < 0xD800 ∨ 0xDFFF < c.val.toNat ∧ c.val.toNat < 0x110000 := c.valid
  have same : Char.ofNat c.val.toNat = c := Char.ofNat_toNat c
  fun_cases String.utf8EncodeChar c with
  | case1 v h =>
    refine ⟨index + 1, ?_⟩
    rw [List.singleton_append, decodeAt_one (by omega), same]
  | case2 v _ h =>
    refine ⟨index + 2, ?_⟩
    have whole : v / 64 % 32 * 64 + v % 64 = v := by omega
    simp only [List.cons_append, List.nil_append]
    rw [decodeAt_two (by omega) (by omega) (by omega), whole, same]
  | case3 v _ _ h =>
    refine ⟨index + 3, ?_⟩
    have whole : v / 4096 % 16 * 4096 + v / 64 % 64 * 64 + v % 64 = v := by omega
    simp only [List.cons_append, List.nil_append]
    rw [decodeAt_three (by omega) (by omega) (by omega) (by omega) (by omega), whole, same]
  | case4 v _ _ h =>
    refine ⟨index + 4, ?_⟩
    have whole :
        v / 262144 % 8 * 262144 + v / 4096 % 64 * 4096 + v / 64 % 64 * 64 + v % 64 = v := by
      omega
    simp only [List.cons_append, List.nil_append]
    rw [decodeAt_four (by omega) (by omega) (by omega) (by omega) (by omega) (by omega), whole,
      same]

theorem decodeAt_encode (chars : List Char) (index : Nat) :
    decodeAt index (chars.flatMap String.utf8EncodeChar) = .ok chars := by
  induction chars generalizing index with
  | nil => rfl
  | cons c chars ih =>
    rw [List.flatMap_cons]
    obtain ⟨next, taken⟩ := decodeAt_encodeChar c index (chars.flatMap String.utf8EncodeChar)
    rw [taken, ih]
    rfl

/-- A text reads back from its bytes. -/
theorem decode_encode (text : String) : decode (encode text) = .ok text := by
  rw [decode, encode, decodeAt_encode]
  exact congrArg Except.ok (String.ofList_toList)

theorem toNat_ofNat_le (n : Nat) : (Char.ofNat n).toNat ≤ n := by
  by_cases valid : n.isValidChar
  · rw [Char.ofNat, dif_pos valid]
    exact Nat.le_refl n
  · rw [Char.ofNat, dif_neg valid]
    exact Nat.zero_le n

/-- How many bytes the characters below a bound take at most. -/
theorem length_encodeChar_le (c : Char) :
    (c.toNat < 128 → (String.utf8EncodeChar c).length ≤ 1) ∧
    (c.toNat < 2048 → (String.utf8EncodeChar c).length ≤ 2) ∧
    (c.toNat < 65536 → (String.utf8EncodeChar c).length ≤ 3) ∧
    (String.utf8EncodeChar c).length ≤ 4 := by
  have number : c.val.toNat = c.toNat := rfl
  fun_cases String.utf8EncodeChar c with
  | case1 v h => simp
  | case2 v low h => simp; omega
  | case3 v low middle h => simp; omega
  | case4 v low middle high => simp; omega

theorem length_encode_cons (c : Char) (chars : List Char) :
    ((c :: chars).flatMap String.utf8EncodeChar).length =
      (String.utf8EncodeChar c).length + (chars.flatMap String.utf8EncodeChar).length := by
  rw [List.flatMap_cons, List.length_append]

theorem length_encode_decodeAt_le {index : Nat} {bytes : Bytes} {chars : List Char}
    (h : decodeAt index bytes = .ok chars) :
    (chars.flatMap String.utf8EncodeChar).length ≤ bytes.length := by
  have low : ∀ b : UInt8, payload b < 64 := fun b => Nat.mod_lt _ (by decide)
  have number : ∀ {n limit}, n < limit → (Char.ofNat n).toNat < limit :=
    Nat.lt_of_le_of_lt (toNat_ofNat_le _)
  fun_induction decodeAt index bytes generalizing chars
  case case1 => cases h; simp
  case case2 index a rest small ih =>
    obtain ⟨others, taken, rfl⟩ := Act.settled_map_ok h
    have one := (length_encodeChar_le (Char.ofNat a.toNat)).1 (number small)
    have tail := ih taken
    simp only [length_encode_cons, List.length_cons]
    omega
  case case4 index a _ _ b rest _ ih =>
    obtain ⟨others, taken, rfl⟩ := Act.settled_map_ok h
    have := low b
    have two := (length_encodeChar_le _).2.1
      (number (show a.toNat % 32 * 64 + payload b < 2048 by omega))
    have tail := ih taken
    simp only [length_encode_cons, List.length_cons]
    omega
  case case8 index a _ _ _ b _ c rest _ ih =>
    obtain ⟨others, taken, rfl⟩ := Act.settled_map_ok h
    have := low b
    have := low c
    have three := (length_encodeChar_le _).2.2.1
      (number (show a.toNat % 16 * 4096 + payload b * 64 + payload c < 65536 by omega))
    have tail := ih taken
    simp only [length_encode_cons, List.length_cons]
    omega
  case case14 index a _ _ _ _ b _ c _ d rest _ ih =>
    obtain ⟨others, taken, rfl⟩ := Act.settled_map_ok h
    have four := (length_encodeChar_le (Char.ofNat
      (a.toNat % 8 * 262144 + payload b * 4096 + payload c * 64 + payload d))).2.2.2
    have tail := ih taken
    simp only [length_encode_cons, List.length_cons]
    omega
  all_goals cases h

/-- A text is not wider than what it was decoded from. -/
theorem width_of_decode {bytes : Bytes} {text : String} (h : decode bytes = .ok text) :
    width text ≤ bytes.length := by
  obtain ⟨chars, taken, rfl⟩ := Act.settled_map_ok h
  rw [width, encode, String.toList_ofList]
  exact length_encode_decodeAt_le taken

end ObjectWire.Utf8
