/-
  WireSchema/Json/Printer.lean
  ============================
  **Compact JSON text.**  No blanks anywhere, members in their order, and in
  strings only what must be escaped is: the quote, the backslash and the
  characters below the space.
-/
import WireSchema.Json.Basic

namespace WireSchema

namespace Json

def escape : Char → Text
  | '"' => ['\\', '"']
  | '\\' => ['\\', '\\']
  | '\x08' => ['\\', 'b']
  | '\x0c' => ['\\', 'f']
  | '\n' => ['\\', 'n']
  | '\r' => ['\\', 'r']
  | '\t' => ['\\', 't']
  | c => if c.toNat < 0x20 then '\\' :: 'u' :: '0' :: '0' :: Text.hexByte c.toNat else [c]

def quoted (s : String) : Text := '"' :: s.toList.flatMap escape ++ ['"']

/-- Parts with a comma between each two. -/
def commaSeparated : List Text → Text
  | [] => []
  | [part] => part
  | part :: parts => part ++ ',' :: commaSeparated parts

mutual

def render : Json → Text
  | .null => "null".toList
  | .bool true => "true".toList
  | .bool false => "false".toList
  | .int value => Text.ofInt value
  | .float value => value.render
  | .str text => quoted text
  | .arr items => '[' :: commaSeparated (renderItems items) ++ [']']
  | .obj members => '\x7b' :: commaSeparated (renderMembers members) ++ ['\x7d']

def renderItems : List Json → List Text
  | [] => []
  | item :: items => render item :: renderItems items

def renderMembers : Members → List Text
  | [] => []
  | (key, value) :: members => (quoted key ++ ':' :: render value) :: renderMembers members

end

def compact (json : Json) : String := String.ofList json.render

end Json

end WireSchema
