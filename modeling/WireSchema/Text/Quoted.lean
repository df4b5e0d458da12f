/-
  WireSchema/Text/Quoted.lean
  ===========================
  **String literals.**  A string literal stands between double quotes.  Quotes,
  backslashes, line feeds, carriage returns and tabs are written with a short
  escape, every other ASCII control character as `\x` and two hexadecimal
  digits, and everything else as it is.  A literal therefore never spans lines.
-/
import WireSchema.Text.Basic

namespace WireSchema

namespace Text

/-- The ASCII control characters: those below the space, and delete. -/
def isControl (c : Char) : Bool := decide (c.toNat < 0x20) || c.toNat == 0x7f

def escape : Char → Text
  | '"' => ['\\', '"']
  | '\\' => ['\\', '\\']
  | '\n' => ['\\', 'n']
  | '\r' => ['\\', 'r']
  | '\t' => ['\\', 't']
  | c => if isControl c then '\\' :: 'x' :: hexByte c.toNat else [c]

def quoted (s : String) : Text := '"' :: s.toList.flatMap escape ++ ['"']

end Text

end WireSchema
