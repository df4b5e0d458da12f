/-
  WireSchema/Render/Layout.lean
  =============================
  **Layout.**  The three ways in which rendered parts are put together:

    * `paragraphs` joins parts with one blank line between them;
    * `block`      writes a header and an indented body between braces;
    * `enclosed`   writes comma-separated items, one per indented line, between
                   two brackets.

  A body is indented as a whole, by shifting the lines of its finished text, so
  a part never needs to know how deeply it is nested.
-/
import WireSchema.Text.Lines

namespace WireSchema

namespace Text

/-! ### Blank lines between parts -/

/-- Joins texts with one blank line between each two. -/
def joinBlank : List Text → Text
  | [] => []
  | [part] => part
  | part :: parts => part ++ '\n' :: joinBlank parts

/-- Joins the parts that are not empty with one blank line between each two. -/
def paragraphs (parts : List Text) : Text :=
  joinBlank (parts.filter fun part => !part.isEmpty)

/-! ### Blocks -/

/-- A header and its body: the sections that are not empty, each indented, with
    a blank line between each two.  Without any section the braces stay on the
    header's line. -/
def block (header : Text) (sections : List Text) : Text :=
  match sections.filter fun part => !part.isEmpty with
  | [] => header ++ " \x7b\x7d\n".toList
  | body => header ++ " \x7b\n".toList ++ joinBlank (body.map indent) ++ "\x7d\n".toList

/-! ### Bracketed items -/

def withCommas : List Text → List Text
  | [] => []
  | [item] => [item]
  | item :: items => (item ++ [',']) :: withCommas items

/-- Commas are added at the end of items. -/
theorem mem_withCommas {items : List Text} {text : Text} (h : text ∈ withCommas items) :
    text ∈ items ∨ ∃ item ∈ items, text = item ++ [','] := by
  fun_induction withCommas items with
  | case1 => exact .inl h
  | case2 item => exact .inl h
  | case3 item items hitems ih =>
    rcases List.mem_cons.mp h with rfl | hlater
    · exact .inr ⟨item, List.mem_cons_self, rfl⟩
    · rcases ih hlater with hmem | ⟨other, hmem, rfl⟩
      · exact .inl (List.mem_cons_of_mem _ hmem)
      · exact .inr ⟨other, List.mem_cons_of_mem _ hmem, rfl⟩

/-- Items with commas between them, each on its own indented line. -/
def itemLines (items : List Text) : Text := (withCommas items).flatMap indent

/-- Items between two brackets, each on its own indented line; without items the
    brackets stand together. -/
def enclosed (opening closing : Char) (items : List Text) : Text :=
  match items with
  | [] => [opening, closing]
  | items => opening :: '\n' :: itemLines items ++ [closing]

end Text

end WireSchema
