import ObjectWire.Text.Quoted

/-!
# Token text

Derived code is a tree of tokens.  Printed, tokens stand one blank apart; round brackets enclose
their tokens tightly, curly ones with a blank on either side.
-/

namespace ObjectWire.Derive

/-- A token, or a bracketed run of tokens. -/
inductive Token
  | plain (text : String)
  | round (inner : List Token)
  | curly (inner : List Token)

namespace Token

/-- The tokens of a text, in which they stand one blank apart. -/
def words (text : String) : List Token := (text.splitOn " ").map plain

/-- One character of a text literal.  A NUL in front of an octal digit is written in full, because
    it would read as something else together with the digit. -/
def escape (next : Option Char) (c : Char) : String :=
  if c = '\x00' && next.any (fun d => '0' ≤ d && d ≤ '7') then "\\x00"
  else if c = '\'' then "'"
  else Quoted.escape '"' c

/-- The characters of a text literal. -/
def escapeAll : List Char → String
  | [] => ""
  | c :: rest => escape rest.head? c ++ escapeAll rest

/-- A text literal. -/
def textLiteral (s : String) : Token := plain ("\"" ++ escapeAll s.toList ++ "\"")

/-- A 32-bit integer literal; the sign is a token of its own. -/
def intLiteral (n : Int32) : List Token :=
  (if n < 0 then [plain "-"] else []) ++ [plain (toString n.toInt.natAbs ++ "i32")]

mutual
/-- A token as printed. -/
def render : Token → String
  | plain text => text
  | round inner => "(" ++ renderAll inner ++ ")"
  | curly [] => "\x7b \x7d"
  | curly (token :: tokens) => "\x7b " ++ renderAll (token :: tokens) ++ " \x7d"

/-- Tokens as printed, one blank apart. -/
def renderAll : List Token → String
  | [] => ""
  | [token] => render token
  | token :: tokens => render token ++ " " ++ renderAll tokens
end

end Token

end ObjectWire.Derive
