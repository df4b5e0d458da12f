/-
  WireSchema/Json/Token.lean
  ==========================
  **JSON tokens.**  A text is cut into tokens by an automaton that reads one
  character at a time.  Its state is the tokens so far and the token that is
  being read; a character that ends a number or a word is read once more as the
  start of the next token.
-/
import WireSchema.Json.Basic

namespace WireSchema

namespace Json

/-- A token of a JSON text.  A string is a value or a key, and an atom is a number, a truth
    value or null. -/
inductive Token
  | openArr
  | closeArr
  | openObj
  | closeObj
  | comma
  | colon
  | str (text : String)
  | atom (value : Json)
  deriving Repr

/-! ### Numbers -/

/-- The number that a list of decimal digits denotes. -/
def ofDigits (digits : Text) : Nat := digits.foldl (fun n c => 10 * n + (c.toNat - 48)) 0

/-- A list of digits that may stand before the point: not empty, and with no
    leading zero unless that is all. -/
def isWhole : Text → Bool
  | [] => false
  | ['0'] => true
  | '0' :: _ => false
  | _ => true

/-- The whole number with the given digits.  One that does not fit into 64 bits,
    and minus zero, count as numbers with a fraction. -/
def whole (negative : Bool) (digits : Text) : Json :=
  let n := ofDigits digits
  if negative then
    if n ≠ 0 ∧ n ≤ 0x8000000000000000 then .int (-(n : Int)) else .float ⟨true, n, 0⟩
  else if n < UInt64.size then .int n else .float ⟨false, n, 0⟩

/-- The exponent of a number: a sign or none, and at least one digit. -/
def exponent? (text : Text) : Option Int :=
  let (negative, digits) :=
    match text with
    | '-' :: digits => (true, digits)
    | '+' :: digits => (false, digits)
    | digits => (false, digits)
  if digits.isEmpty || !digits.all Char.isDigit then none
  else if negative then some (-(ofDigits digits : Int)) else some (ofDigits digits)

/-- The number that a text denotes, if it is a JSON number. -/
def number? (text : Text) : Option Json := do
  let (negative, unsigned) :=
    match text with
    | '-' :: rest => (true, rest)
    | rest => (false, rest)
  let digits := unsigned.takeWhile Char.isDigit
  guard (isWhole digits)
  match unsigned.dropWhile Char.isDigit with
  | [] => return whole negative digits
  | '.' :: rest =>
    let fraction := rest.takeWhile Char.isDigit
    guard (!fraction.isEmpty)
    let places : Int := fraction.length
    match rest.dropWhile Char.isDigit with
    | [] => return .float ⟨negative, ofDigits (digits ++ fraction), -places⟩
    | mark :: rest =>
      guard (mark == 'e' || mark == 'E')
      let exponent ← exponent? rest
      return .float ⟨negative, ofDigits (digits ++ fraction), exponent - places⟩
  | mark :: rest =>
    guard (mark == 'e' || mark == 'E')
    let exponent ← exponent? rest
    return .float ⟨negative, ofDigits digits, exponent⟩

/-! ### The automaton -/

/-- What the automaton is reading: nothing between two tokens, a bare number or word, or a
    string, where it may have come to an escape after a backslash or to the unit of a `\u`
    escape with `left` digits to come.  Characters of an unfinished token are kept with the
    latest first, and `high` is the first half of a surrogate pair still open. -/
inductive Mode
  | between
  | bare (chars : Text)
  | string (chars : Text) (high : Option Nat)
  | escape (chars : Text) (high : Option Nat)
  | unit (chars : Text) (high : Option Nat) (value left : Nat)

/-- The tokens so far, the latest first, and what is being read. -/
structure Lexer where
  tokens : List Token
  mode : Mode

namespace Lexer

def start : Lexer := ⟨[], .between⟩

/-- The token of a finished number or word. -/
def bare? (chars : Text) : Option Token :=
  match String.ofList chars.reverse with
  | "true" => some (.atom (.bool true))
  | "false" => some (.atom (.bool false))
  | "null" => some (.atom .null)
  | _ => (number? chars.reverse).map .atom

/-- Whether a character can be part of a number or word. -/
def isBare (c : Char) : Bool := c.isAlphanum || c == '-' || c == '+' || c == '.'

def stepBetween (tokens : List Token) (c : Char) : Option Lexer :=
  match c with
  | '[' => some ⟨.openArr :: tokens, .between⟩
  | ']' => some ⟨.closeArr :: tokens, .between⟩
  | '\x7b' => some ⟨.openObj :: tokens, .between⟩
  | '\x7d' => some ⟨.closeObj :: tokens, .between⟩
  | ',' => some ⟨.comma :: tokens, .between⟩
  | ':' => some ⟨.colon :: tokens, .between⟩
  | '"' => some ⟨tokens, .string [] none⟩
  | c =>
    if c.isWhitespace then some ⟨tokens, .between⟩
    else if isBare c then some ⟨tokens, .bare [c]⟩
    else none

/-- The character that a backslash and a letter stand for. -/
def unescape? : Char → Option Char
  | '"' => some '"'
  | '\\' => some '\\'
  | '/' => some '/'
  | 'b' => some '\x08'
  | 'f' => some '\x0c'
  | 'n' => some '\n'
  | 'r' => some '\r'
  | 't' => some '\t'
  | _ => none

def hexValue? (c : Char) : Option Nat :=
  if c.isDigit then some (c.toNat - 48)
  else if 'a' ≤ c ∧ c ≤ 'f' then some (c.toNat - 87)
  else if 'A' ≤ c ∧ c ≤ 'F' then some (c.toNat - 55)
  else none

/-- Ends a `\u` escape.  The first half of a surrogate pair stays open; the
    second half closes it; neither may stand alone. -/
def endUnit (tokens : List Token) (chars : Text) (high : Option Nat) (value : Nat) :
    Option Lexer :=
  match high with
  | some high =>
    if 0xDC00 ≤ value ∧ value ≤ 0xDFFF then
      let c := Char.ofNat (0x10000 + (high - 0xD800) * 0x400 + (value - 0xDC00))
      some ⟨tokens, .string (c :: chars) none⟩
    else none
  | none =>
    if 0xD800 ≤ value ∧ value ≤ 0xDBFF then some ⟨tokens, .string chars (some value)⟩
    else if 0xDC00 ≤ value ∧ value ≤ 0xDFFF then none
    else some ⟨tokens, .string (Char.ofNat value :: chars) none⟩

def step (lexer : Lexer) (c : Char) : Option Lexer :=
  match lexer.mode with
  | .between => stepBetween lexer.tokens c
  | .bare chars =>
    if isBare c then some ⟨lexer.tokens, .bare (c :: chars)⟩
    else do
      let token ← bare? chars
      stepBetween (token :: lexer.tokens) c
  | .string chars high =>
    if c = '\\' then some ⟨lexer.tokens, .escape chars high⟩
    else if high.isSome then none
    else if c = '"' then some ⟨.str (String.ofList chars.reverse) :: lexer.tokens, .between⟩
    else if c.toNat < 0x20 then none
    else some ⟨lexer.tokens, .string (c :: chars) none⟩
  | .escape chars high =>
    if c = 'u' then some ⟨lexer.tokens, .unit chars high 0 4⟩
    else if high.isSome then none
    else do
      let c ← unescape? c
      some ⟨lexer.tokens, .string (c :: chars) none⟩
  | .unit chars high value left => do
    let digit ← hexValue? c
    let value := 16 * value + digit
    if left ≤ 1 then endUnit lexer.tokens chars high value
    else some ⟨lexer.tokens, .unit chars high value (left - 1)⟩

/-- The tokens at the end of the text, in their order. -/
def finish (lexer : Lexer) : Option (List Token) :=
  match lexer.mode with
  | .between => some lexer.tokens.reverse
  | .bare chars => do
    let token ← bare? chars
    return (token :: lexer.tokens).reverse
  | _ => none

end Lexer

/-- The tokens of a text, if it can be cut into tokens. -/
def tokens? (text : Text) : Option (List Token) := do
  let lexer ← text.foldlM Lexer.step Lexer.start
  lexer.finish

end Json

end WireSchema
