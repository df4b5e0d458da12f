/-
  WireSchema/Text/Shown.lean
  ==========================
  **Strings shown in messages.**  A string that an error message cites stands
  between double quotes, with quotes, backslashes and every character that a
  reader would not see escaped.
-/
import WireSchema.Text.Basic
import WireSchema.Text.Hidden

namespace WireSchema

namespace Text

def showChar : Char → Text
  | '"' => ['\\', '"']
  | '\\' => ['\\', '\\']
  | '\n' => ['\\', 'n']
  | '\r' => ['\\', 'r']
  | '\t' => ['\\', 't']
  | '\x00' => ['\\', '0']
  | c =>
    if isHidden c then '\\' :: 'u' :: '\x7b' :: Nat.toDigits 16 c.toNat ++ ['\x7d'] else [c]

def shown (s : String) : Text := '"' :: s.toList.flatMap showChar ++ ['"']

end Text

end WireSchema
