/-!
# White space

The characters with the Unicode property White_Space, and the two marks that set the direction of
the text around them; between symbols all of them count as blanks.
-/

namespace ObjectWire.Text

/-- Whether a character is white space. -/
def isSpace (c : Char) : Bool :=
  let code := c.toNat
  (9 ≤ code && code ≤ 13) || code = 0x20 || code = 0x85 || code = 0xA0 || code = 0x1680 ||
    (0x2000 ≤ code && code ≤ 0x200A) || code = 0x2028 || code = 0x2029 || code = 0x202F ||
    code = 0x205F || code = 0x3000

/-- Whether a character is a mark that sets the direction of the text around it. -/
def isDirection (c : Char) : Bool := c.toNat = 0x200E || c.toNat = 0x200F

/-- Whether a character separates symbols without being one. -/
def isBlank (c : Char) : Bool := isSpace c || isDirection c

/-- Every blank that ASCII knows is one. -/
theorem isBlank_of_isWhitespace {c : Char} (blank : c.isWhitespace = true) : isBlank c = true := by
  simp only [Char.isWhitespace, Bool.or_eq_true, decide_eq_true_eq] at blank
  rcases blank with ((rfl | rfl) | rfl) | rfl <;> decide

end ObjectWire.Text
