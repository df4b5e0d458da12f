/-
  WireSchema/Text/Basic.lean
  ==========================
  **Rendered text.**  Everything the library writes is built as a list of
  characters and becomes a `String` only at the very end, so that the layout
  rules (lines, indentation, quoting) are functions by structural recursion.
-/

namespace WireSchema

/-- Rendered text, as the list of its characters. -/
abbrev Text := List Char

namespace Text

/-- The decimal numeral of an integer; a negative one has a leading minus sign. -/
def ofInt : Int → Text
  | .ofNat n => Nat.toDigits 10 n
  | .negSucc n => '-' :: Nat.toDigits 10 (n + 1)

def ofNat (n : Nat) : Text := Nat.toDigits 10 n

/-- The digit of a number below sixteen, in lower case. -/
def hexDigit (n : Nat) : Char := Nat.digitChar (n % 16)

/-- The two hexadecimal digits of a number below 256, in lower case. -/
def hexByte (n : Nat) : Text := [hexDigit (n / 16), hexDigit n]

end Text

end WireSchema
