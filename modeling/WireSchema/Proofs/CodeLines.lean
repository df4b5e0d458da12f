/-
  WireSchema/Proofs/CodeLines.lean
  ================================
  **Comments and code.**  A text is cut at its line feeds.  A line that starts with
  `//`, after any spaces, is a comment; all other lines are code (`Text.codeLines`).

  `Text.Annotates` relates a text to the same text with comment lines left out.  A
  comment stands before a line that is kept, so a text and what is left of it are
  empty together.  The relation is kept by everything that declarations are put
  together with: concatenation, blank lines between parts, indentation, blocks.
  It is stated for any text, so that nothing has to be assumed about names and tokens:
  a line end inside of one is a line end on both sides.
-/
import WireSchema.Proofs.LaidOut
import Mathlib.Data.List.Forall2

namespace WireSchema

namespace Text

/-! ### Code lines -/

/-- Whether a line starts with `//`, after any spaces. -/
def isRemark : Text → Bool
  | ' ' :: line => isRemark line
  | '/' :: '/' :: _ => true
  | _ => false

/-- The lines of a text that are no comments.  The text is cut at every line feed, and
    carriage returns stay where they are. -/
def codeLines (text : Text) : List Text :=
  (text.splitOn '\n').filter fun line => !isRemark line

/-- A carriage return at the end of a line does not make it a comment. -/
theorem isRemark_append_return (line : Text) : isRemark (line ++ ['\r']) = isRemark line := by
  fun_induction isRemark line with
  | case1 line ih => exact ih
  | case2 rest => rfl
  | case3 line hspace hslashes =>
    cases line with
    | nil => rfl
    | cons c cs =>
      cases cs with
      | nil =>
        by_cases hc : c = ' '
        · exact (hspace [] (by rw [hc])).elim
        · simp [isRemark, hc]
      | cons d ds =>
        rw [List.cons_append, List.cons_append, isRemark]
        · intro rest heq
          obtain ⟨rfl, -⟩ := List.cons.inj heq
          exact hspace (d :: ds) rfl
        · intro rest heq
          obtain ⟨rfl, htail⟩ := List.cons.inj heq
          obtain ⟨rfl, -⟩ := List.cons.inj htail
          exact hslashes ds rfl

theorem codeLines_line {line : Text} (hline : '\n' ∉ line) (rest : Text) :
    codeLines (line ++ '\n' :: rest) =
      if isRemark line then codeLines rest else line :: codeLines rest := by
  rw [codeLines, List.splitOn_append_cons_self_of_not_mem hline, List.filter_cons]
  cases isRemark line <;> rfl

/-! ### Texts with comments -/

/-- The first text is the second one with comment lines put before some of its lines.
    A line feed ends every line of both. -/
inductive Annotates : Text → Text → Prop
  | nil : Annotates [] []
  | line {line text bare : Text} (hline : '\n' ∉ line) (h : Annotates text bare) :
    Annotates (line ++ '\n' :: text) (line ++ '\n' :: bare)
  | remark {line text bare : Text} (hline : '\n' ∉ line) (hremark : isRemark line = true)
    (hbare : bare ≠ []) (h : Annotates text bare) : Annotates (line ++ '\n' :: text) bare

namespace Annotates

/-- Leaving out comments leaves the code as it is. -/
theorem codeLines_eq {text bare : Text} (h : Annotates text bare) :
    codeLines text = codeLines bare := by
  induction h with
  | nil => rfl
  | line hline _ ih => rw [codeLines_line hline, codeLines_line hline, ih]
  | remark hline hremark _ _ ih => rw [codeLines_line hline, if_pos hremark, ih]

theorem eq_nil_iff {text bare : Text} (h : Annotates text bare) : text = [] ↔ bare = [] := by
  cases h with
  | nil => simp
  | line _ _ => simp
  | remark _ _ hbare _ => simp [hbare]

theorem append {text bare text' bare' : Text} (h : Annotates text bare)
    (h' : Annotates text' bare') : Annotates (text ++ text') (bare ++ bare') := by
  induction h with
  | nil => exact h'
  | line hline _ ih =>
    rw [List.append_assoc, List.append_assoc]
    exact .line hline ih
  | remark hline hremark hbare _ ih =>
    rw [List.append_assoc]
    exact .remark hline hremark (by simp [hbare]) ih

/-- A text that ends in a line feed, with no comment put in. -/
theorem ended (text : Text) : Annotates (text ++ ['\n']) (text ++ ['\n']) := by
  -- the characters read so far on a line are handed on until its end is reached
  have hfrom : ∀ line : Text, '\n' ∉ line →
      Annotates (line ++ (text ++ ['\n'])) (line ++ (text ++ ['\n'])) := by
    induction text with
    | nil =>
      intro line hline
      exact .line hline .nil
    | cons c cs ih =>
      intro line hline
      by_cases hc : c = '\n'
      · subst hc
        exact .line hline (ih [] (by simp))
      · have hmore : '\n' ∉ line ++ [c] := by
          simp only [List.mem_append, List.mem_singleton, not_or]
          exact ⟨hline, Ne.symm hc⟩
        have hall := ih (line ++ [c]) hmore
        rw [List.append_assoc] at hall
        exact hall
  exact hfrom [] (by simp)

theorem comment {documentation : String} {text bare : Text} (hbare : bare ≠ [])
    (h : Annotates text bare) : Annotates (Text.comment documentation ++ text) bare := by
  have hlines : ∀ lines : List Text, (∀ line ∈ lines, '\n' ∉ line) →
      Annotates (lines.flatMap commentLine ++ text) bare := by
    intro lines hlines
    induction lines with
    | nil => exact h
    | cons line lines ih =>
      obtain ⟨hline, hrest⟩ := List.forall_mem_cons.mp hlines
      have hremark : isRemark (Line.remark line) = true := by cases line <;> rfl
      have hfeed : '\n' ∉ Line.remark line := by
        cases line with
        | nil => decide
        | cons c cs => simpa [Line.remark] using hline
      have hwritten : commentLine line = Line.remark line ++ ['\n'] := by cases line <;> rfl
      rw [List.flatMap_cons, hwritten, List.append_assoc, List.append_assoc]
      exact .remark hfeed hremark hbare (ih hrest)
  exact hlines _ fun line hline => newline_not_mem_of_mem_lines hline

theorem flatMap {α : Type} {entries : List α} {render bare : α → Text}
    (h : ∀ entry ∈ entries, Annotates (render entry) (bare entry)) :
    Annotates (entries.flatMap render) (entries.flatMap bare) := by
  induction entries with
  | nil => exact .nil
  | cons entry entries ih =>
    obtain ⟨hhead, htail⟩ := List.forall_mem_cons.mp h
    exact hhead.append (ih htail)

end Annotates

/-! ### Indentation -/

/-- A line without the carriage return that belongs to its end, if there is one. -/
def chop (line : Text) : Text := if line.getLast? = some '\r' then line.dropLast else line

theorem lines_return {line : Text} (hline : '\n' ∉ line) (rest : Text) :
    lines (line ++ '\r' :: '\n' :: rest) = line :: lines rest := by
  induction line with
  | nil => exact lines_crlf rest
  | cons c cs ih =>
    rw [List.mem_cons, not_or] at hline
    rw [List.cons_append, lines_cons (Ne.symm hline.1), ih hline.2]
    · rfl
    · rintro - tail hcut
      cases cs with
      | nil => simp at hcut
      | cons d ds =>
        rw [List.cons_append] at hcut
        exact hline.2 (by rw [(List.cons.inj hcut).1]; exact List.mem_cons_self)

/-- Any line is found again, but for a carriage return at its end. -/
theorem lines_line {line : Text} (hline : '\n' ∉ line) (rest : Text) :
    lines (line ++ '\n' :: rest) = chop line :: lines rest := by
  by_cases hlast : line.getLast? = some '\r'
  · obtain ⟨start, rfl⟩ := List.getLast?_eq_some_iff.mp hlast
    rw [List.mem_append, not_or] at hline
    rw [chop, if_pos hlast, List.dropLast_concat, List.append_assoc]
    exact lines_return hline.1 rest
  · rw [chop, if_neg hlast]
    exact lines_oneLine ⟨hline, hlast⟩ rest

theorem newline_not_mem_chop {line : Text} (hline : '\n' ∉ line) : '\n' ∉ chop line := by
  unfold chop
  split
  · exact fun hmem => hline (List.dropLast_subset line hmem)
  · exact hline

theorem isRemark_chop (line : Text) : isRemark (chop line) = isRemark line := by
  by_cases hlast : line.getLast? = some '\r'
  · rw [chop, if_pos hlast]
    obtain ⟨start, rfl⟩ := List.getLast?_eq_some_iff.mp hlast
    rw [List.dropLast_concat, isRemark_append_return]
  · rw [chop, if_neg hlast]

/-- A shifted line is a comment if and only if the line is. -/
theorem exists_shifted {line : Text} (hline : '\n' ∉ line) : ∃ shifted : Text,
    indentLine (chop line) = shifted ++ ['\n'] ∧ '\n' ∉ shifted ∧
      isRemark shifted = isRemark line := by
  have hfeed := newline_not_mem_chop hline
  rw [← isRemark_chop line]
  cases hchop : chop line with
  | nil => exact ⟨[], rfl, by simp, rfl⟩
  | cons c cs =>
    rw [hchop] at hfeed
    exact ⟨' ' :: ' ' :: c :: cs, rfl, by simpa using hfeed, rfl⟩

theorem indent_ne_nil {text : Text} (h : text ≠ []) : indent text ≠ [] := by
  have hlines : lines text ≠ [] := by
    fun_cases lines text with
    | case1 => exact absurd rfl h
    | case2 cs => simp
    | case3 cs => simp
    | case4 c cs _ _ => cases lines cs <;> simp [consLine]
  obtain ⟨line, rest, heq⟩ := List.exists_cons_of_ne_nil hlines
  rw [indent, heq, List.flatMap_cons]
  cases line <;> simp [indentLine]

/-- Shifting a text shifts its first line and then the rest. -/
theorem indent_line {line : Text} (hline : '\n' ∉ line) (rest : Text) :
    indent (line ++ '\n' :: rest) = indentLine (chop line) ++ indent rest := by
  rw [indent, lines_line hline, List.flatMap_cons]
  rfl

namespace Annotates

theorem indent {text bare : Text} (h : Annotates text bare) :
    Annotates (Text.indent text) (Text.indent bare) := by
  induction h with
  | nil => exact .nil
  | line hline _ ih =>
    obtain ⟨shifted, hshifted, hfeed, -⟩ := exists_shifted hline
    rw [indent_line hline, indent_line hline, hshifted, List.append_assoc, List.append_assoc]
    exact .line hfeed ih
  | remark hline hremark hbare _ ih =>
    obtain ⟨shifted, hshifted, hfeed, hsame⟩ := exists_shifted hline
    rw [indent_line hline, hshifted, List.append_assoc]
    exact .remark hfeed (hsame.trans hremark) (indent_ne_nil hbare) ih

/-! ### Parts and blocks -/

theorem joinBlank {parts bares : List Text} (h : List.Forall₂ Annotates parts bares) :
    Annotates (Text.joinBlank parts) (Text.joinBlank bares) := by
  induction h with
  | nil => exact .nil
  | @cons part bare parts bares hhead htail ih =>
    cases htail with
    | nil => exact hhead
    | cons hnext hrest => exact hhead.append (.line List.not_mem_nil ih)

/-- A part is left out on both sides or on neither. -/
theorem filter {parts bares : List Text} (h : List.Forall₂ Annotates parts bares) :
    List.Forall₂ Annotates (parts.filter fun part => !part.isEmpty)
      (bares.filter fun part => !part.isEmpty) := by
  refine List.rel_filter ?_ h
  intro part bare hpart
  simp [hpart.eq_nil_iff]

theorem paragraphs {parts bares : List Text} (h : List.Forall₂ Annotates parts bares) :
    Annotates (Text.paragraphs parts) (Text.paragraphs bares) :=
  joinBlank (filter h)

theorem block (header : Text) {sections bares : List Text}
    (h : List.Forall₂ Annotates sections bares) :
    Annotates (Text.block header sections) (Text.block header bares) := by
  have hstart : ∀ opening : Text,
      Annotates (header ++ (opening ++ ['\n'])) (header ++ (opening ++ ['\n'])) := by
    intro opening
    rw [← List.append_assoc]
    exact ended (header ++ opening)
  have hkept := filter h
  unfold Text.block
  generalize (sections.filter fun part => !part.isEmpty) = kept at hkept ⊢
  generalize (bares.filter fun part => !part.isEmpty) = kept' at hkept ⊢
  cases hkept with
  | nil => exact hstart " \x7b\x7d".toList
  | @cons part bare parts bares hfirst hrest =>
    have hbody : List.Forall₂ Annotates ((part :: parts).map Text.indent)
        ((bare :: bares).map Text.indent) := by
      rw [List.forall₂_map_left_iff, List.forall₂_map_right_iff]
      exact (List.Forall₂.cons hfirst hrest).imp fun _ _ hpart => hpart.indent
    exact ((hstart " \x7b".toList).append (joinBlank hbody)).append (ended "\x7d".toList)

theorem block_ne_nil (header : Text) (sections : List Text) : Text.block header sections ≠ [] := by
  unfold Text.block
  split <;> simp

end Annotates

end Text

end WireSchema
