import ObjectWire.Json.Parser
import ObjectWire.Proofs.Text.Utf8

/-!
# Quoted texts

A text between quotes is scanned up to the closing quote and stands for the text it was made of.  The
argument is one character at a time: what a character is quoted as is scanned as a whole and unquoted
to the character's own bytes, whatever follows, so that both pass through a whole text.
-/

namespace ObjectWire.Json

/-- The bytes are scanned as a whole, and they stand for `meaning`, whatever stands behind them. -/
structure Quotes (quoted meaning : Bytes) : Prop where
  scanned : ∀ rest, scanQuoted (quoted ++ rest) =
    (fun (more, left) => (quoted ++ more, left)) <$> scanQuoted rest
  unquoted : ∀ rest, unquote (quoted ++ rest) = (meaning ++ ·) <$> unquote rest

namespace Quotes

variable {quoted meaning more also : Bytes}

theorem nil : Quotes [] [] := ⟨fun rest => by simp, fun rest => by simp⟩

theorem append (first : Quotes quoted meaning) (second : Quotes more also) :
    Quotes (quoted ++ more) (meaning ++ also) where
  scanned rest := by
    rw [List.append_assoc, first.scanned, second.scanned]
    cases scanQuoted rest <;> simp
  unquoted rest := by
    rw [List.append_assoc, first.unquoted, second.unquoted]
    cases unquote rest <;> simp

/-- The closing quote ends the text. -/
theorem close (quotes : Quotes quoted meaning) (rest : Bytes) :
    scanQuoted (quoted ++ 0x22 :: rest) = some (quoted, rest) := by
  rw [quotes.scanned]
  simp [scanQuoted]

theorem unquote_eq (quotes : Quotes quoted meaning) : unquote quoted = some meaning := by
  have all := quotes.unquoted []
  simpa [unquote] using all

end Quotes

/-- A byte that needs no escape stands for itself. -/
theorem quotes_byte {b : UInt8} (printable : ¬ b < 0x20) (quote : b ≠ 0x22) (escape : b ≠ 0x5C) :
    Quotes [b] [b] where
  scanned rest := by
    rw [List.singleton_append, scanQuoted.eq_5 _ _ quote (fun _ _ _ _ _ same _ => escape same)
      fun _ _ same _ => escape same]
    simp [printable, escape]
  unquoted rest := by
    rw [List.singleton_append, unquote.eq_4 _ _ (fun _ _ _ _ _ same _ => escape same)
      fun _ _ same _ => escape same]
    simp [escape]

/-- A letter behind a backslash stands for what it abbreviates. -/
theorem quotes_letter {letter b : UInt8} (known : shortEscape? letter = some b)
    (short : letter ≠ 0x75) : Quotes [0x5C, letter] [b] where
  scanned rest := by
    rw [List.cons_append, List.singleton_append,
      scanQuoted.eq_4 _ _ fun _ _ _ _ _ same _ => short same]
    simp [known]
  unquoted rest := by
    rw [List.cons_append, List.singleton_append,
      unquote.eq_3 _ _ fun _ _ _ _ _ same _ => short same]
    simp [known]

/-- Four digits stand for the character that they number, unless it is a surrogate. -/
theorem quotes_digits {a b c d : UInt8} {n : Nat} (known : hexValues? a b c d = some n)
    (low : n < 0xD800) :
    Quotes [0x5C, 0x75, a, b, c, d] (String.utf8EncodeChar (Char.ofNat n)) where
  scanned rest := by simp [scanQuoted, known]
  unquoted rest := by
    have whole : ¬ (0xD800 ≤ n ∧ n ≤ 0xDBFF) := by omega
    have half : ¬ (0xDC00 ≤ n ∧ n ≤ 0xDFFF) := by omega
    simp [unquote, known, whole, half]

/-- The byte is neither a control nor a quote nor a backslash. -/
def Unescaped (b : UInt8) : Prop := ¬ b < 0x20 ∧ b ≠ 0x22 ∧ b ≠ 0x5C

instance : DecidablePred Unescaped := fun _ => inferInstanceAs (Decidable (_ ∧ _ ∧ _))

/-- Bytes that need no escape stand for themselves. -/
theorem quotes_run {run : Bytes} (unescaped : ∀ b ∈ run, Unescaped b) : Quotes run run := by
  induction run with
  | nil => exact .nil
  | cons b run ih =>
    obtain ⟨⟨printable, quote, escape⟩, others⟩ := List.forall_mem_cons.mp unescaped
    exact (quotes_byte printable quote escape).append (ih others)

theorem unescaped_ofNat {n : Nat} (byte : n < 256) (printable : ¬ n < 0x20) (quote : n ≠ 0x22)
    (escape : n ≠ 0x5C) : Unescaped (UInt8.ofNat n) := by
  have value : (UInt8.ofNat n).toNat = n := UInt8.toNat_ofNat_of_lt' (by simpa [UInt8.size])
  simp only [Unescaped, UInt8.lt_iff_toNat_lt, ne_eq, ← UInt8.toNat_inj, value, UInt8.reduceToNat]
  exact ⟨printable, quote, escape⟩

/-- Characters beyond ASCII have no byte in ASCII. -/
theorem unescaped_utf8EncodeChar {c : Char} (printable : ¬ c.toNat < 0x20) (quote : c.toNat ≠ 0x22)
    (escape : c.toNat ≠ 0x5C) : ∀ b ∈ String.utf8EncodeChar c, Unescaped b := by
  have number : c.val.toNat = c.toNat := rfl
  fun_cases String.utf8EncodeChar c with
  | case1 v h =>
    simp only [List.forall_mem_singleton]
    exact unescaped_ofNat (by omega) (by omega) (by omega) (by omega)
  | case2 v low h =>
    simp only [List.forall_mem_cons]
    refine ⟨?_, ?_, nofun⟩ <;>
      exact unescaped_ofNat (by omega) (by omega) (by omega) (by omega)
  | case3 v low middle h =>
    simp only [List.forall_mem_cons]
    refine ⟨?_, ?_, ?_, nofun⟩ <;>
      exact unescaped_ofNat (by omega) (by omega) (by omega) (by omega)
  | case4 v low middle high =>
    simp only [List.forall_mem_cons]
    refine ⟨?_, ?_, ?_, ?_, nofun⟩ <;>
      exact unescaped_ofNat (by omega) (by omega) (by omega) (by omega)

/-- Every control character has a number of four digits. -/
theorem hexValues?_hexDigits {n : Nat} (control : n < 0x20) :
    ∃ a b c d, hexDigits n = [a, b, c, d] ∧ hexValues? a b c d = some n := by
  refine ⟨_, _, _, _, rfl, ?_⟩
  revert n
  decide

/-- What a character is quoted as stands for the bytes of the character. -/
theorem quotes_quoteChar (c : Char) : Quotes (quoteChar c) (String.utf8EncodeChar c) := by
  unfold quoteChar
  -- the characters that a letter abbreviates
  iterate 7
    split
    case isTrue same => subst same; exact quotes_letter rfl (by decide)
  split
  case isTrue control =>
    obtain ⟨a, b, c', d, digits, known⟩ := hexValues?_hexDigits control
    have quotes := quotes_digits known (by omega)
    rw [Char.ofNat_toNat] at quotes
    rw [digits]
    exact quotes
  case isFalse quote escape _ _ _ _ _ printable =>
    apply quotes_run (unescaped_utf8EncodeChar printable ?_ ?_)
    · exact fun same => quote (Char.toNat_inj.mp same)
    · exact fun same => escape (Char.toNat_inj.mp same)

theorem quotes_chars (chars : List Char) :
    Quotes (chars.flatMap quoteChar) (chars.flatMap String.utf8EncodeChar) := by
  induction chars with
  | nil => exact .nil
  | cons c chars ih => exact (quotes_quoteChar c).append ih

theorem Quotes.unquoteText {quoted : Bytes} {s : String} (quotes : Quotes quoted (Utf8.encode s)) :
    unquoteText quoted = some s := by
  simp [Json.unquoteText, quotes.unquote_eq, Utf8.decode_encode]

/-- A text as a document is a document of the text. -/
theorem text?_ofText (s : String) : (ofText s).text? = some s :=
  (quotes_chars s.toList).unquoteText

end ObjectWire.Json
