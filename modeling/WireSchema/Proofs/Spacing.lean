/-
  WireSchema/Proofs/Spacing.lean
  ==============================
  **Where blank lines may stand.**  A blank line separates two parts.  So it is not
  the first line of a text and not the last one, no other blank line stands next to
  it, and it stands neither directly after the line that opens a block nor directly
  before the one that closes it (`Text.WellSpaced`).

  The condition is about neighbours, so it is a chain: each line has to fit the next
  one (`Text.Fits`).  `Line.Spaced` says this of the lines of a layout, together with
  how many of them are blank.  What is put together keeps it if the first line of
  each part may follow a blank line and the last line may stand before one.

  A comment fits everything.  A text with comments put in is therefore as well spaced
  as the text without them, and has as many blank lines (`Text.Annotates.wellSpaced`,
  `Text.Annotates.count_lines`), whatever the comments say.
-/
import WireSchema.Proofs.CodeLines
import Mathlib.Algebra.GroupWithZero.Nat
import Mathlib.Data.List.Chain

namespace WireSchema

namespace Text

/-! ### Blank lines in a text -/

/-- The line opens a block: it is no comment, and an opening brace ends it. -/
def OpensBlock (line : Text) : Prop := isRemark line = false ∧ line.getLast? = some '\x7b'

/-- The line is a closing brace, with nothing but indentation before it. -/
def ClosesBlock (line : Text) : Prop := ∃ width, line = List.replicate width ' ' ++ ['\x7d']

/-- The blank lines of the text only separate what stands before and after them, and
    the last line of the text is ended once. -/
structure WellSpaced (text : Text) : Prop where
  starts : ∃ first rest, lines text = first :: rest ∧ first ≠ []
  ends : ∃ (body : Text) (last : Char), text = body ++ [last, '\n'] ∧ last ≠ '\n'
  single : ¬ [[], []] <:+: lines text
  not_after_opening : ∀ line, [line, []] <:+: lines text → ¬ OpensBlock line
  not_before_closing : ∀ line, [[], line] <:+: lines text → ¬ ClosesBlock line

/-- The line may follow a blank line. -/
def Begins (line : Text) : Prop := line ≠ [] ∧ ¬ ClosesBlock line

/-- The line may stand before a blank line. -/
def Finishes (line : Text) : Prop := line ≠ [] ∧ ¬ OpensBlock line

/-- The second line may follow the first one. -/
def Fits (line next : Text) : Prop := (next = [] → Finishes line) ∧ (line = [] → Begins next)

theorem begins_of_mem {line : Text} {c : Char} (hmem : c ∈ line) (hspace : c ≠ ' ')
    (hbrace : c ≠ '\x7d') : Begins line := by
  refine ⟨List.ne_nil_of_mem hmem, ?_⟩
  rintro ⟨width, rfl⟩
  rcases List.mem_append.mp hmem with h | h
  · exact hspace (List.eq_of_mem_replicate h)
  · exact hbrace (List.mem_singleton.mp h)

theorem finishes_concat (lead : Text) {c : Char} (hbrace : c ≠ '\x7b') :
    Finishes (lead ++ [c]) := by
  refine ⟨by simp, ?_⟩
  rintro ⟨-, hopen⟩
  rw [List.getLast?_concat] at hopen
  exact hbrace (Option.some.inj hopen)

/-- Whatever stands before it. -/
theorem Begins.fits {line next : Text} (h : Begins next) : Fits line next :=
  ⟨fun hnil => absurd hnil h.1, fun _ => h⟩

/-- Whatever follows it. -/
theorem Finishes.fits {line next : Text} (h : Finishes line) : Fits line next :=
  ⟨fun _ => h, fun hnil => absurd hnil h.1⟩

theorem fits_of_ne_nil {line next : Text} (hline : line ≠ []) (hnext : next ≠ []) :
    Fits line next :=
  ⟨fun h => absurd h hnext, fun h => absurd h hline⟩

theorem slash_mem_of_isRemark {line : Text} (h : isRemark line = true) : '/' ∈ line := by
  fun_induction isRemark line with
  | case1 line ih => exact List.mem_cons_of_mem _ (ih h)
  | case2 rest => simp
  | case3 => simp at h

theorem begins_of_isRemark {line : Text} (h : isRemark line = true) : Begins line :=
  begins_of_mem (slash_mem_of_isRemark h) (by decide) (by decide)

theorem finishes_of_isRemark {line : Text} (h : isRemark line = true) : Finishes line := by
  refine ⟨(begins_of_isRemark h).1, ?_⟩
  rintro ⟨hcode, -⟩
  rw [h] at hcode
  cases hcode

/-! ### Texts with comments -/

namespace Annotates

/-- The first line is a comment that was put in, or the first line there was. -/
theorem head?_lines {text bare : Text} (h : Annotates text bare) :
    ∀ line ∈ (lines text).head?, isRemark line = true ∨ line ∈ (lines bare).head? := by
  cases h with
  | nil => simp
  | line hline _ =>
    intro first hfirst
    rw [lines_line hline, List.head?_cons] at hfirst ⊢
    exact Or.inr hfirst
  | @remark line _ _ hline hremark _ _ =>
    intro first hfirst
    rw [lines_line hline, List.head?_cons, Option.mem_some_iff] at hfirst
    subst hfirst
    exact Or.inl ((isRemark_chop line).trans hremark)

theorem isChain_lines {text bare : Text} (h : Annotates text bare)
    (hbare : (lines bare).IsChain Fits) : (lines text).IsChain Fits := by
  induction h with
  | nil => exact hbare
  | @line line text bare hline h ih =>
    rw [lines_line hline, List.isChain_cons] at hbare ⊢
    refine ⟨?_, ih hbare.2⟩
    intro next hnext
    rcases h.head?_lines next hnext with hremark | hkept
    · -- a comment that was put in between
      exact (begins_of_isRemark hremark).fits
    · exact hbare.1 next hkept
  | @remark line text bare hline hremark _ _ ih =>
    rw [lines_line hline, List.isChain_cons]
    refine ⟨?_, ih hbare⟩
    intro next _
    exact (finishes_of_isRemark ((isRemark_chop line).trans hremark)).fits

/-- A comment is no blank line. -/
theorem count_lines {text bare : Text} (h : Annotates text bare) :
    (lines text).count [] = (lines bare).count [] := by
  induction h with
  | nil => rfl
  | line hline _ ih => rw [lines_line hline, lines_line hline, List.count_cons, List.count_cons, ih]
  | @remark line text bare hline hremark _ _ ih =>
    have hne : chop line ≠ [] := (begins_of_isRemark ((isRemark_chop line).trans hremark)).1
    rw [lines_line hline, List.count_cons_of_ne hne, ih]

theorem lines_ne_nil {text bare : Text} (h : Annotates text bare) (hne : text ≠ []) :
    lines text ≠ [] := by
  cases h with
  | nil => exact absurd rfl hne
  | line hline _ => simp [lines_line hline]
  | remark hline _ _ _ => simp [lines_line hline]

/-- The last line is never one that was put in. -/
theorem exists_last {text bare : Text} (h : Annotates text bare) (hbare : bare ≠ []) :
    ∃ lead last : Text, text = lead ++ (last ++ ['\n']) ∧ '\n' ∉ last ∧
      (lines bare).getLast? = some (chop last) := by
  induction h with
  | nil => exact absurd rfl hbare
  | @line line text bare hline h ih =>
    by_cases hrest : bare = []
    · subst hrest
      obtain rfl := h.eq_nil_iff.mpr rfl
      exact ⟨[], line, rfl, hline, by simp [lines_line hline]⟩
    · obtain ⟨lead, last, rfl, hlast, hget⟩ := ih hrest
      refine ⟨line ++ '\n' :: lead, last, by simp, hlast, ?_⟩
      rw [lines_line hline, List.getLast?_cons, hget]
      rfl
  | @remark line text bare hline _ _ _ ih =>
    obtain ⟨lead, last, rfl, hlast, hget⟩ := ih hbare
    exact ⟨line ++ '\n' :: lead, last, by simp, hlast, hget⟩

end Annotates

end Text

/-! ### Spaced lines -/

namespace Line

theorem begins_text {depth : Nat} {content : Text} {c : Char} (hmem : c ∈ content)
    (hspace : c ≠ ' ') (hbrace : c ≠ '\x7d') : Text.Begins (text depth content).body :=
  Text.begins_of_mem (List.mem_append_right _ hmem) hspace hbrace

theorem finishes_text (depth : Nat) (lead : Text) {c : Char} (hbrace : c ≠ '\x7b') :
    Text.Finishes (text depth (lead ++ [c])).body := by
  rw [body, ← List.append_assoc]
  exact Text.finishes_concat _ hbrace

/-- The lines may stand between blank lines, each of them fits the next one, and
    `blanks` of them are blank. -/
structure Spaced (lines : List Line) (blanks : Nat) : Prop where
  chain : (lines.map body).IsChain Text.Fits
  head : ∀ line ∈ lines.head?, Text.Begins line.body
  last : ∀ line ∈ lines.getLast?, Text.Finishes line.body
  count : (lines.map body).count [] = blanks

namespace Spaced

theorem nil : Spaced [] 0 := ⟨.nil, by simp, by simp, rfl⟩

/-- Lines without a blank one need only start and end well. -/
theorem solid {lines : List Line} (hlines : ∀ line ∈ lines, line.body ≠ [])
    (hhead : ∀ line ∈ lines.head?, Text.Begins line.body)
    (hlast : ∀ line ∈ lines.getLast?, Text.Finishes line.body) : Spaced lines 0 := by
  refine ⟨?_, hhead, hlast, ?_⟩
  · rw [List.isChain_map, List.isChain_iff_forall_rel_of_append_cons_cons]
    rintro line next before after rfl
    exact Text.fits_of_ne_nil (hlines line (by simp)) (hlines next (by simp))
  · rw [List.count_eq_zero]
    intro hmem
    obtain ⟨line, hline, hbody⟩ := List.mem_map.mp hmem
    exact hlines line hline hbody

theorem append {left right : List Line} {m n : Nat} (hleft : Spaced left m)
    (hright : Spaced right n) : Spaced (left ++ right) (m + n) := by
  refine ⟨?_, ?_, ?_, ?_⟩
  · rw [List.map_append, List.isChain_append, List.head?_map]
    refine ⟨hleft.chain, hright.chain, ?_⟩
    intro row _ next hnext
    obtain ⟨first, hfirst, rfl⟩ := Option.map_eq_some_iff.mp hnext
    exact (hright.head first hfirst).fits
  · intro line hline
    rw [List.head?_append] at hline
    cases hhead : left.head? with
    | none => exact hright.head line (by simpa [hhead] using hline)
    | some first => exact hleft.head line (by simpa [hhead] using hline)
  · intro line hline
    rw [List.getLast?_append] at hline
    cases hlast : right.getLast? with
    | none => exact hleft.last line (by simpa [hlast] using hline)
    | some last => exact hright.last line (by simpa [hlast] using hline)
  · rw [List.map_append, List.count_append, hleft.count, hright.count]

end Spaced

/-! ### Parts and blocks -/

/-- Spaced lines that are there: a blank line can separate them from others. -/
structure Part (lines : List Line) (blanks : Nat) : Prop extends Spaced lines blanks where
  ne_nil : lines ≠ []

namespace Part

theorem line {line : Line} (hbegins : Text.Begins line.body)
    (hfinishes : Text.Finishes line.body) : Part [line] 0 :=
  ⟨.solid (by simpa using hbegins.1) (by simpa using hbegins) (by simpa using hfinishes), by simp⟩

/-- A line that ends in a semicolon. -/
theorem statement (depth : Nat) (content : Text) :
    Part [.text depth (content ++ ";".toList)] 0 :=
  line (begins_text (c := ';') (by simp) (by decide) (by decide))
    (finishes_text depth content (by decide))

theorem separate {part rest : List Line} {m n : Nat} (hpart : Part part m)
    (hrest : Part rest n) : Part (part ++ .blank :: rest) (m + n + 1) := by
  refine ⟨⟨?_, ?_, ?_, ?_⟩, by simp⟩
  · rw [List.map_append, List.map_cons, List.isChain_append, List.isChain_cons, List.head?_map,
      List.getLast?_map]
    refine ⟨hpart.chain, ⟨?_, hrest.chain⟩, ?_⟩
    · intro next hnext
      obtain ⟨first, hfirst, rfl⟩ := Option.map_eq_some_iff.mp hnext
      exact (hrest.head first hfirst).fits
    · intro row hrow next _
      obtain ⟨last, hlast, rfl⟩ := Option.map_eq_some_iff.mp hrow
      exact (hpart.last last hlast).fits
  · intro line hline
    rw [List.head?_append_of_ne_nil _ hpart.ne_nil] at hline
    exact hpart.head line hline
  · intro line hline
    rw [List.getLast?_append_cons, List.getLast?_cons_of_ne_nil hrest.ne_nil] at hline
    exact hrest.last line hline
  · rw [List.map_append, List.map_cons, List.count_append, hpart.count, body,
      List.count_cons_self, hrest.count, Nat.add_assoc]

theorem joinBlank {part : List Line} {parts : List (List Line)} {count : Nat}
    {counts : List Nat} (h : List.Forall₂ Part (part :: parts) (count :: counts)) :
    Part (Line.joinBlank (part :: parts)) ((count :: counts).sum + parts.length) := by
  induction parts generalizing part count counts with
  | nil =>
    cases h with
    | cons hpart hnone =>
      cases hnone
      simpa [Line.joinBlank] using hpart
  | cons next parts ih =>
    cases h with
    | cons hpart hparts =>
      cases hparts with
      | cons hnext hrest =>
        have hall := hpart.separate (ih (.cons hnext hrest))
        rw [Line.joinBlank]
        · convert hall using 1
          simp only [List.sum_cons, List.length_cons]
          omega
        · simp

end Part

namespace Spaced

/-- Leaving out empty parts loses no blank lines. -/
theorem filter {parts : List (List Line)} {counts : List Nat}
    (h : List.Forall₂ Spaced parts counts) : ∃ kept : List Nat,
      List.Forall₂ Part (parts.filter fun part => !part.isEmpty) kept ∧
        kept.sum = counts.sum := by
  induction h with
  | nil => exact ⟨[], .nil, rfl⟩
  | @cons part count parts counts hpart _ ih =>
    obtain ⟨kept, hkept, hsum⟩ := ih
    cases part with
    | nil =>
      obtain rfl : 0 = count := hpart.count
      exact ⟨kept, hkept, by simpa using hsum⟩
    | cons line lines => exact ⟨count :: kept, .cons ⟨hpart, by simp⟩ hkept, by simp [hsum]⟩

theorem paragraphs {parts : List (List Line)} {counts : List Nat}
    (h : List.Forall₂ Spaced parts counts) :
    Spaced (Line.paragraphs parts)
      (counts.sum + ((parts.map List.isEmpty).count false - 1)) := by
  obtain ⟨kept, hkept, hsum⟩ := filter h
  have hshown : (parts.map List.isEmpty).count false =
      (parts.filter fun part => !part.isEmpty).length := by
    rw [List.count, List.countP_map, List.countP_eq_length_filter]
    congr 2
    funext part
    simp
  rw [← hsum, hshown, Line.paragraphs]
  generalize (parts.filter fun part => !part.isEmpty) = shown at hkept ⊢
  cases hkept with
  | nil => exact nil
  | cons hpart hparts => exact (Part.joinBlank (.cons hpart hparts)).toSpaced

/-- Lines between two others, which are not blank. -/
theorem enclose {first last : Line} {inner : List Line} {n : Nat}
    (h : Spaced inner n) (hfirst : Text.Begins first.body) (hlast : Text.Finishes last.body) :
    Spaced (first :: inner ++ [last]) n := by
  have hnext : ∀ line ∈ (inner ++ [last]).head?, line.body ≠ [] := by
    cases inner with
    | nil => simpa using hlast.1
    | cons line lines => simpa using (h.head line (by simp)).1
  refine ⟨?_, by simpa using hfirst, ?_, ?_⟩
  · rw [List.cons_append, List.isChain_map, List.isChain_cons, List.isChain_append]
    refine ⟨fun line hline => Text.fits_of_ne_nil hfirst.1 (hnext line hline),
      (List.isChain_map _).mp h.chain, .singleton _, ?_⟩
    intro line hline final hfinal
    obtain rfl : last = final := by simpa using hfinal
    exact Text.fits_of_ne_nil (h.last line hline).1 hlast.1
  · rw [List.getLast?_concat]
    simpa using hlast
  · have hcount := h.count
    simpa [List.count_append, List.count_cons, hfirst.1, hlast.1] using hcount

end Spaced

namespace Part

/-- A block has the blank lines of its sections, and one between each two of them. -/
theorem block (depth : Nat) (header : Text) {sections : List (List Line)} {counts : List Nat}
    (h : List.Forall₂ Spaced sections counts) :
    Part (Line.block depth header sections)
      (counts.sum + ((sections.map List.isEmpty).count false - 1)) := by
  have hopens : ∀ trail : Text,
      Text.Begins (Line.text depth (header ++ ' ' :: '\x7b' :: trail)).body :=
    fun trail => begins_text (c := '\x7b') (by simp) (by decide) (by decide)
  have hinner := Spaced.paragraphs h
  unfold Line.paragraphs at hinner
  unfold Line.block
  split
  · rename_i hnone
    rw [hnone] at hinner
    rw [← show 0 = _ from hinner.count]
    have hcloses := finishes_text depth (header ++ " \x7b".toList) (c := '\x7d') (by decide)
    rw [List.append_assoc] at hcloses
    exact line (hopens _) hcloses
  · exact ⟨hinner.enclose (hopens []) (finishes_text depth [] (by decide)), by simp⟩

/-- One section or none leaves no place for a blank line. -/
theorem block_single (depth : Nat) (header : Text) {inner : List Line} (h : Spaced inner 0) :
    Part (Line.block depth header [inner]) 0 := by
  have hall := block depth header (.cons h .nil)
  cases inner <;> exact hall

/-- A part after its comment. -/
theorem documented {depth : Nat} {lines : List Line} {n : Nat} (h : Part lines n)
    (documentation : String) : Part (comment depth documentation ++ lines) n := by
  have hremark : ∀ line ∈ comment depth documentation, Text.isRemark line.body = true := by
    simp only [comment, List.forall_mem_map]
    intro line _
    rw [body, margin]
    induction 2 * depth with
    | zero => cases line <;> rfl
    | succ width ih => exact ih
  have hcomment : Spaced (comment depth documentation) 0 := by
    refine .solid ?_ ?_ ?_
    · exact fun line hline => (Text.begins_of_isRemark (hremark line hline)).1
    · exact fun line hline => Text.begins_of_isRemark (hremark line (List.mem_of_mem_head? hline))
    · exact fun line hline => Text.finishes_of_isRemark (hremark line (List.mem_of_getLast? hline))
  have hall := hcomment.append h.toSpaced
  rw [Nat.zero_add] at hall
  exact ⟨hall, by simp [h.ne_nil]⟩

end Part

/-! ### Lists of parts -/

/-- Parts one after the other. -/
theorem Part.flatMap {α : Type} {entries : List α} {layout : α → List Line}
    (h : ∀ entry ∈ entries, Part (layout entry) 0) :
    Spaced (entries.flatMap layout) 0 ∧ (entries.flatMap layout).isEmpty = entries.isEmpty := by
  induction entries with
  | nil => exact ⟨.nil, rfl⟩
  | cons entry entries ih =>
    obtain ⟨hhead, htail⟩ := List.forall_mem_cons.mp h
    exact ⟨hhead.toSpaced.append (ih htail).1, by simp [hhead.ne_nil]⟩

/-- Parts with a blank line between each two of them; none is left out. -/
theorem Part.paragraphs {parts : List (List Line)} {counts : List Nat}
    (h : List.Forall₂ Part parts counts) :
    Spaced (Line.paragraphs parts) (counts.sum + (counts.length - 1)) ∧
      (Line.paragraphs parts).isEmpty = counts.isEmpty := by
  have hall : parts.filter (fun part => !part.isEmpty) = parts := by
    induction h with
    | nil => rfl
    | cons hpart _ ih => simp [hpart.ne_nil, ih]
  rw [Line.paragraphs, hall, ← h.length_eq]
  cases h with
  | nil => exact ⟨.nil, rfl⟩
  | cons hpart hparts =>
    have hjoined := joinBlank (.cons hpart hparts)
    exact ⟨hjoined.toSpaced, by simpa using hjoined.ne_nil⟩

end Line

/-! ### Laid out texts -/

theorem LaidOut.lines_eq {text : Text} {layout : Nat → List Line} (h : LaidOut text layout) :
    Text.lines text = (layout 0).map Line.body := by
  rw [h.written, Line.lines_writeAll (h.plain 0)]

namespace Text

/-- The text is laid out with spaced lines. -/
def Composed (text : Text) : Prop :=
  ∃ (layout : Nat → List Line) (n : Nat), LaidOut text layout ∧ Line.Spaced (layout 0) n

namespace Composed

theorem nil : Composed [] := ⟨fun _ => [], 0, LaidOut.nil, .nil⟩

theorem line {content : Text} (hclean : Clean content) (hbegins : Begins content)
    (hfinishes : Finishes content) : Composed (content ++ ['\n']) := by
  have hpart : Line.Part [.text 0 content] 0 := .line hbegins hfinishes
  exact ⟨_, 0, LaidOut.line hbegins.1 hclean.oneLine, hpart.toSpaced⟩

theorem statement {content : Text} (hclean : Clean content) :
    Composed (content ++ [';', '\n']) := by
  have hall : Composed (content ++ [';'] ++ ['\n']) :=
    line (hclean.append (by decide)) (begins_of_mem (c := ';') (by simp) (by decide) (by decide))
      (finishes_concat content (by decide))
  rwa [List.append_assoc] at hall

theorem append {left right : Text} (hleft : Composed left) (hright : Composed right) :
    Composed (left ++ right) := by
  obtain ⟨layout, m, hlayout, hspaced⟩ := hleft
  obtain ⟨layout', n, hlayout', hspaced'⟩ := hright
  exact ⟨_, m + n, hlayout.append hlayout', hspaced.append hspaced'⟩

theorem flatMap {α : Type} {entries : List α} {render : α → Text}
    (h : ∀ entry ∈ entries, Composed (render entry)) : Composed (entries.flatMap render) := by
  induction entries with
  | nil => exact nil
  | cons entry entries ih =>
    obtain ⟨hhead, htail⟩ := List.forall_mem_cons.mp h
    exact hhead.append (ih htail)

theorem paragraphs {parts : List Text} (h : ∀ part ∈ parts, Composed part) :
    Composed (Text.paragraphs parts) := by
  -- each part with its layout, so that both lists are read off the same list
  have hpairs : ∃ (pairs : List (Text × (Nat → List Line))) (counts : List Nat),
      pairs.map Prod.fst = parts ∧ (∀ pair ∈ pairs, LaidOut pair.1 pair.2) ∧
        List.Forall₂ Line.Spaced (pairs.map fun pair => pair.2 0) counts := by
    induction parts with
    | nil => exact ⟨[], [], rfl, by simp, .nil⟩
    | cons part parts ih =>
      obtain ⟨⟨layout, n, hlayout, hspaced⟩, hrest⟩ := List.forall_mem_cons.mp h
      obtain ⟨pairs, counts, rfl, hlaid, hcounts⟩ := ih hrest
      exact ⟨(part, layout) :: pairs, n :: counts, rfl,
        List.forall_mem_cons.mpr ⟨hlayout, hlaid⟩, .cons hspaced hcounts⟩
  obtain ⟨pairs, counts, rfl, hlaid, hcounts⟩ := hpairs
  exact ⟨_, _, @LaidOut.paragraphs _ pairs Prod.fst (fun depth pair => pair.2 depth) hlaid,
    Line.Spaced.paragraphs hcounts⟩

end Composed

/-- **Comments leave a text well spaced.** -/
theorem Annotates.wellSpaced {text bare : Text} (h : Annotates text bare)
    (hbare : Composed bare) (hne : text ≠ []) : WellSpaced text := by
  obtain ⟨layout, n, hlayout, hspaced⟩ := hbare
  have hread := hlayout.lines_eq
  have hchain : (lines text).IsChain Fits := h.isChain_lines (hread ▸ hspaced.chain)
  have hfits : ∀ {line next : Text}, [line, next] <:+: lines text → Fits line next := by
    intro line next hpair
    have hbetween := List.IsChain.infix hchain hpair
    exact List.isChain_pair.mp hbetween
  refine ⟨?_, ?_, ?_, ?_, ?_⟩
  · obtain ⟨first, rest, hlines⟩ := List.exists_cons_of_ne_nil (h.lines_ne_nil hne)
    refine ⟨first, rest, hlines, ?_⟩
    rcases h.head?_lines first (by simp [hlines]) with hremark | hkept
    · exact (begins_of_isRemark hremark).1
    · rw [hread, List.head?_map] at hkept
      obtain ⟨line, hline, rfl⟩ := Option.map_eq_some_iff.mp hkept
      exact (hspaced.head line hline).1
  · obtain ⟨lead, last, rfl, hfeed, hlast⟩ := h.exists_last (mt h.eq_nil_iff.mpr hne)
    rw [hread, List.getLast?_map] at hlast
    obtain ⟨line, hline, hchop⟩ := Option.map_eq_some_iff.mp hlast
    have hlastne : last ≠ [] := by
      rintro rfl
      exact (hspaced.last line hline).1 hchop
    obtain ⟨start, c, rfl⟩ := (List.eq_nil_or_concat last).resolve_left hlastne
    refine ⟨lead ++ start, c, by simp, ?_⟩
    rintro rfl
    simp at hfeed
  · intro hpair
    exact ((hfits hpair).1 rfl).1 rfl
  · intro line hpair
    exact ((hfits hpair).1 rfl).2
  · intro line hpair
    exact ((hfits hpair).2 rfl).2

end Text

end WireSchema
