/-
  WireSchema/Text/Lines.lean
  ==========================
  **Lines, indentation and comments.**

  A text is cut at its line feeds.  One carriage return directly before a line
  feed belongs to the line end, and a final line feed starts no further line.
  Indentation and comments are both defined line by line:

    * `indent`  shifts every line by two spaces and leaves empty lines empty;
    * `comment` puts `//` in front of every line of a documentation string.
-/
import WireSchema.Text.Basic

namespace WireSchema

namespace Text

/-! ### Cutting a text into lines -/

/-- Puts a character in front of the first line; with no line yet, it starts one. -/
def consLine (c : Char) : List Text → List Text
  | [] => [[c]]
  | line :: rest => (c :: line) :: rest

/-- The lines of a text, without their line ends.  A carriage return is dropped
    only directly before a line feed, and a final line feed starts no line. -/
def lines : Text → List Text
  | [] => []
  | '\n' :: cs => [] :: lines cs
  | '\r' :: '\n' :: cs => [] :: lines cs
  | c :: cs => consLine c (lines cs)

@[simp] theorem lines_nil : lines [] = [] := rfl

@[simp] theorem lines_newline (cs : Text) : lines ('\n' :: cs) = [] :: lines cs := by
  simp [lines]

@[simp] theorem lines_crlf (cs : Text) : lines ('\r' :: '\n' :: cs) = [] :: lines cs := by
  simp [lines]

/-- A character that is no line feed, and no carriage return before one, stays
    on the line it starts. -/
theorem lines_cons {c : Char} {cs : Text} (hn : c ≠ '\n')
    (hr : c = '\r' → ∀ rest, cs ≠ '\n' :: rest) :
    lines (c :: cs) = consLine c (lines cs) := by
  rw [lines.eq_def]
  split
  · simp_all
  · simp_all
  · rename_i rest h
    obtain ⟨rfl, rfl⟩ := List.cons.inj h
    exact absurd rfl (hr rfl rest)
  · rename_i h
    obtain ⟨rfl, rfl⟩ := List.cons.inj h
    rfl

/-! ### Indentation -/

/-- One line shifted by two spaces, with its line end.  An empty line carries
    no indentation. -/
def indentLine : Text → Text
  | [] => ['\n']
  | c :: cs => ' ' :: ' ' :: c :: cs ++ ['\n']

/-- A text shifted by two spaces, line by line. -/
def indent (text : Text) : Text := (lines text).flatMap indentLine

@[simp] theorem indent_nil : indent [] = [] := rfl

/-! ### Comments -/

/-- One line of a documentation string as a comment line. -/
def commentLine : Text → Text
  | [] => ['/', '/', '\n']
  | c :: cs => '/' :: '/' :: ' ' :: c :: cs ++ ['\n']

def comment (documentation : String) : Text := (lines documentation.toList).flatMap commentLine

@[simp] theorem comment_empty : comment "" = [] := by simp [comment]

end Text

end WireSchema
