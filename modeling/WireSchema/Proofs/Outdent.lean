/-
  WireSchema/Proofs/Outdent.lean
  ==============================
  **Shifting loses nothing.**  What is written inside a block is the text that would be
  written outside of it, shifted, so everything about the layout of nested declarations
  rests on what a shift does to a text.

  A text that is empty or ends in a line feed consists of whole lines
  (`whole_iff_endsLine`).  One shift of such a text moves each of its lines that is not
  empty to the right by two spaces (`splitOn_indent`, line by line), and so `depth` shifts
  move it by `2 * depth` (`splitOn_iterate_indent`).  The spaces can be taken off again
  (`outdent_indent`).  All of this is about texts without carriage returns, since a shift
  drops one that stands directly before a line feed.
-/
import WireSchema.Proofs.Lexical
import WireSchema.Proofs.WholeLines
import Mathlib.Data.Set.Function

namespace WireSchema

namespace Text

/-! ### Texts that end their last line -/

/-- A text that is empty or ends in a line feed. -/
def EndsLine (text : Text) : Prop := text = [] ∨ text.getLast? = some '\n'

theorem whole_iff_endsLine {text : Text} : Whole text ↔ EndsLine text := by
  constructor
  · intro h
    induction h with
    | nil => exact .inl rfl
    | line hline _ ih =>
      right
      rw [List.getLast?_append_cons]
      rcases ih with rfl | hlast
      · rfl
      · rw [List.getLast?_cons, hlast]
        rfl
  · rintro (rfl | hlast)
    · exact .nil
    · obtain ⟨start, rfl⟩ := List.getLast?_eq_some_iff.mp hlast
      exact .ended start

/-! ### Lines moved to the right and back -/

/-- A line as it stands `depth` levels further to the right.  An empty line stays empty. -/
def shiftLine (depth : Nat) (line : Text) : Text :=
  if line = [] then [] else Line.margin depth ++ line

/-- A line without the two spaces it starts with, if it does. -/
def outdentLine : Text → Text
  | ' ' :: ' ' :: rest => rest
  | line => line

/-- A text with two leading spaces taken off each of its lines. -/
def outdent (text : Text) : Text :=
  List.intercalate ['\n'] ((text.splitOn '\n').map outdentLine)

theorem shiftLine_zero (line : Text) : shiftLine 0 line = line := by
  unfold shiftLine
  split
  · rename_i hempty
    exact hempty.symm
  · rfl

/-- A line that is moved by one more level is moved by that level last. -/
theorem shiftLine_succ (depth : Nat) (line : Text) :
    shiftLine (depth + 1) line = shiftLine 1 (shiftLine depth line) := by
  by_cases hempty : line = []
  · simp [shiftLine, hempty]
  · have hmargin : Line.margin (depth + 1) = Line.margin 1 ++ Line.margin depth := by
      rw [Line.margin, Line.margin, Line.margin, List.replicate_append_replicate,
        Nat.mul_add, Nat.add_comm]
    simp [shiftLine, hempty, hmargin]

theorem outdentLine_shiftLine (line : Text) : outdentLine (shiftLine 1 line) = line := by
  cases line with
  | nil => rfl
  | cons c cs => rfl

theorem newline_not_mem_shiftLine {line : Text} (h : '\n' ∉ line) (depth : Nat) :
    '\n' ∉ shiftLine depth line := by
  unfold shiftLine
  split
  · exact List.not_mem_nil
  · rw [List.mem_append, not_or]
    exact ⟨Line.not_mem_margin (by decide) depth, h⟩

/-! ### One shift -/

theorem indentLine_eq (line : Text) : indentLine line = shiftLine 1 line ++ ['\n'] := by
  cases line with
  | nil => rfl
  | cons c cs => rfl

/-- A shift puts in nothing but spaces and line feeds. -/
theorem mem_of_mem_indent {text : Text} {c : Char} (hspace : c ≠ ' ') (hfeed : c ≠ '\n')
    (h : c ∈ indent text) : c ∈ text := by
  obtain ⟨line, hline, hc⟩ := List.mem_flatMap.mp h
  apply mem_of_mem_lines hline
  cases line with
  | nil => exact absurd (List.mem_singleton.mp hc) hfeed
  | cons d ds => simpa [indentLine, hspace, hfeed] using hc

/-- **One shift moves each line by one level.** -/
theorem splitOn_indent {text : Text} (h : Whole text) (hreturn : '\r' ∉ text) :
    (indent text).splitOn '\n' = (text.splitOn '\n').map (shiftLine 1) := by
  induction h with
  | nil => rfl
  | @line line text hline _ ih =>
    simp only [List.mem_append, List.mem_cons, not_or] at hreturn
    obtain ⟨hfirst, -, hrest⟩ := hreturn
    have hchop : chop line = line := if_neg fun hlast => hfirst (List.mem_of_getLast? hlast)
    rw [indent_line hline, hchop, indentLine_eq, List.append_assoc, List.singleton_append,
      List.splitOn_append_cons_self_of_not_mem (newline_not_mem_shiftLine hline 1), ih hrest,
      List.splitOn_append_cons_self_of_not_mem hline, List.map_cons]

/-- **Taking the spaces off again gives the text back.** -/
theorem outdent_indent {text : Text} (h : Whole text) (hreturn : '\r' ∉ text) :
    outdent (indent text) = text := by
  have hlines : outdentLine ∘ shiftLine 1 = id := funext outdentLine_shiftLine
  rw [outdent, splitOn_indent h hreturn, List.map_map, hlines, List.map_id]
  exact List.intercalate_splitOn '\n'

/-! ### Any number of shifts -/

theorem return_not_mem_iterate_indent {text : Text} (hreturn : '\r' ∉ text) (depth : Nat) :
    '\r' ∉ indent^[depth] text := by
  induction depth with
  | zero => exact hreturn
  | succ depth ih =>
    rw [Function.iterate_succ_apply']
    intro hmem
    exact ih (mem_of_mem_indent (by decide) (by decide) hmem)

theorem splitOn_iterate_indent {text : Text} (h : Whole text) (hreturn : '\r' ∉ text)
    (depth : Nat) :
    (indent^[depth] text).splitOn '\n' = (text.splitOn '\n').map (shiftLine depth) := by
  induction depth with
  | zero =>
    have hsame : shiftLine 0 = id := funext shiftLine_zero
    rw [hsame, List.map_id]
    rfl
  | succ depth ih =>
    have hstep : shiftLine (depth + 1) = shiftLine 1 ∘ shiftLine depth :=
      funext (shiftLine_succ depth)
    rw [Function.iterate_succ_apply', splitOn_indent (h.iterate_indent depth)
      (return_not_mem_iterate_indent hreturn depth), ih, List.map_map, hstep]

/-- **Shifting is a homomorphism on whole lines and loses nothing.**  A text that is empty or
    ends in a line feed is shifted apart from what comes after it; whatever is shifted ends
    its last line; and from a text without carriage returns nothing is lost: its spaces can
    be taken off again, no other such text is shifted to the same, and `depth` shifts put
    `2 * depth` spaces before each line that is not empty and nothing on an empty one. -/
theorem indent_lossless :
    (∀ left right : Text, EndsLine left → indent (left ++ right) = indent left ++ indent right) ∧
    (∀ text : Text, EndsLine (indent text)) ∧
    (∀ text : Text, EndsLine text → '\r' ∉ text → outdent (indent text) = text) ∧
    Set.InjOn indent {text : Text | EndsLine text ∧ '\r' ∉ text} ∧
    ∀ (depth : Nat) (text : Text), EndsLine text → '\r' ∉ text →
      (indent^[depth] text).splitOn '\n' = (text.splitOn '\n').map (shiftLine depth) := by
  have hback : ∀ text : Text, EndsLine text → '\r' ∉ text → outdent (indent text) = text :=
    fun text hends hreturn => outdent_indent (whole_iff_endsLine.mpr hends) hreturn
  refine ⟨?_, ?_, hback, ?_, ?_⟩
  · intro left right hends
    exact (whole_iff_endsLine.mpr hends).indent_append right
  · intro text
    exact whole_iff_endsLine.mp (.indent text)
  · rintro text ⟨hends, hreturn⟩ other ⟨hends', hreturn'⟩ heq
    rw [← hback text hends hreturn, ← hback other hends' hreturn', heq]
  · intro depth text hends hreturn
    exact splitOn_iterate_indent (whole_iff_endsLine.mpr hends) hreturn depth

end Text

end WireSchema
