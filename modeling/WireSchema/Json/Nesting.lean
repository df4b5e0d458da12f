/-
  WireSchema/Json/Nesting.lean
  ============================
  **How deep JSON text may nest.**  A reader holds at most `maxDepth` arrays and
  objects open at a time.  A scan that knows strings from the rest of the text
  finds the first bracket that would open one more.
-/
import WireSchema.Text.Basic

namespace WireSchema

namespace Json

/-- A place in a text: its line, and its byte in the line, both counted from
    one. -/
structure Location where
  line : Nat
  column : Nat
  deriving DecidableEq, Repr

def Location.start : Location := ⟨1, 1⟩

/-- The place after a character. -/
def Location.after (place : Location) (c : Char) : Location :=
  if c = '\n' then ⟨place.line + 1, 1⟩ else ⟨place.line, place.column + c.utf8Size⟩

/-- How many arrays and objects may be open at a time. -/
def maxDepth : Nat := 127

/-- Where a scan stands: outside of strings, inside of one, or inside of one
    directly after a backslash. -/
inductive Scan
  | outside
  | string
  | escape
  deriving DecidableEq, Repr

/-- What a scan makes of the next character. -/
def Scan.step : Scan → Char → Scan
  | .outside, '"' => .string
  | .outside, _ => .outside
  | .string, '"' => .outside
  | .string, '\\' => .escape
  | .string, _ => .string
  | .escape, _ => .string

def opens (c : Char) : Bool := c = '[' || c = '\x7b'

def closes (c : Char) : Bool := c = ']' || c = '\x7d'

/-- The first bracket in the rest of a text that nests too deep, where `depth`
    arrays and objects are open already. -/
def tooDeepFrom (scan : Scan) (depth : Nat) (place : Location) : Text → Option Location
  | [] => none
  | c :: rest =>
    if scan = .outside ∧ opens c then
      if depth = maxDepth then some place
      else tooDeepFrom (scan.step c) (depth + 1) (place.after c) rest
    else if scan = .outside ∧ closes c then
      tooDeepFrom (scan.step c) (depth - 1) (place.after c) rest
    else tooDeepFrom (scan.step c) depth (place.after c) rest

/-- The first bracket of a text that nests too deep, if there is one. -/
def tooDeep? (text : Text) : Option Location := tooDeepFrom .outside 0 .start text

end Json

end WireSchema
