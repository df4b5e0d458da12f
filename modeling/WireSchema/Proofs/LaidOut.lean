/-
  WireSchema/Proofs/LaidOut.lean
  ==============================
  **Texts with a layout.**  A text is `LaidOut` by a layout if it is what the
  layout writes at depth zero, and if the layout at another depth has the same
  lines, only moved.  Shifting such a text with `Text.indent` is then the same as
  laying it out one level deeper (`LaidOut.indent_eq`), and the property is kept
  by everything that declarations are put together with:

    * concatenation            — `LaidOut.append`, `LaidOut.flatMap`;
    * blank lines between parts — `LaidOut.joinBlank`, `LaidOut.paragraphs`;
    * blocks                   — `LaidOut.block`;
    * comments                 — `LaidOut.comment`.

  An option value does not end its last line.  `Compact` is the same property for
  such texts: they have no blank lines, and a line feed at the end adds no line.

  All of it rests on one fact about cutting a text into lines,
  `Line.lines_writeAll`: lines without line ends in them are found again in the
  text they were written to.
-/
import WireSchema.Proofs.Layout
import WireSchema.Proofs.Texts
import Mathlib.Data.List.Basic

namespace WireSchema

namespace Text

/-! ### Texts without line ends -/

/-- A text without any line feed or carriage return. -/
def Clean (text : Text) : Prop := '\n' ∉ text ∧ '\r' ∉ text

/-- A text that a line feed after it makes into exactly one line: it has no line
    feed itself, and no carriage return that would count as part of the line end. -/
def OneLine (text : Text) : Prop := '\n' ∉ text ∧ text.getLast? ≠ some '\r'

instance (text : Text) : Decidable (Clean text) :=
  inferInstanceAs (Decidable (_ ∧ _))

instance (text : Text) : Decidable (OneLine text) :=
  inferInstanceAs (Decidable (_ ∧ _))

theorem Clean.oneLine {text : Text} (h : Clean text) : OneLine text := by
  refine ⟨h.1, ?_⟩
  intro hlast
  exact h.2 (List.mem_of_getLast? hlast)

theorem Clean.append {left right : Text} (hleft : Clean left) (hright : Clean right) :
    Clean (left ++ right) := by
  simp only [Clean, List.mem_append, not_or]
  exact ⟨⟨hleft.1, hright.1⟩, hleft.2, hright.2⟩

theorem lines_oneLine {content : Text} (h : OneLine content) (rest : Text) :
    lines (content ++ '\n' :: rest) = content :: lines rest := by
  induction content with
  | nil => simp
  | cons c cs ih =>
    obtain ⟨hfeed, hlast⟩ := h
    rw [List.mem_cons, not_or] at hfeed
    have htail : OneLine cs := by
      refine ⟨hfeed.2, ?_⟩
      intro hreturn
      cases cs with
      | nil => simp at hreturn
      | cons d ds => exact hlast (by rw [List.getLast?_cons_cons]; exact hreturn)
    rw [List.cons_append, lines_cons (Ne.symm hfeed.1), ih htail]
    · rfl
    · -- a carriage return would have to be the last character to be cut off
      rintro rfl tail hcut
      cases cs with
      | nil => exact hlast rfl
      | cons d ds =>
        rw [List.cons_append] at hcut
        exact hfeed.2 (by rw [(List.cons.inj hcut).1]; simp)

/-- A final line feed adds no line to a text that does not end in a line end. -/
theorem lines_append_newline {text : Text} (hne : text ≠ []) (hfeed : text.getLast? ≠ some '\n')
    (hreturn : text.getLast? ≠ some '\r') : lines (text ++ ['\n']) = lines text := by
  fun_induction lines text with
  | case1 => exact absurd rfl hne
  | case2 cs ih =>
    cases cs with
    | nil => simp at hfeed
    | cons d ds =>
      rw [List.getLast?_cons_cons] at hfeed hreturn
      rw [List.cons_append, lines_newline, ih (by simp) hfeed hreturn]
  | case3 cs ih =>
    cases cs with
    | nil => simp at hfeed
    | cons d ds =>
      rw [List.getLast?_cons_cons, List.getLast?_cons_cons] at hfeed hreturn
      rw [List.cons_append, List.cons_append, lines_crlf, ih (by simp) hfeed hreturn]
  | case4 c cs hc hcut ih =>
    cases cs with
    | nil =>
      rw [List.cons_append, lines_cons hc (by rintro rfl; simp at hreturn)]
      rfl
    | cons d ds =>
      rw [List.getLast?_cons_cons] at hfeed hreturn
      have hkeep : c = '\r' → ∀ rest, (d :: ds) ++ ['\n'] ≠ '\n' :: rest := by
        intro hr rest heq
        rw [List.cons_append] at heq
        exact hcut ds hr (by rw [(List.cons.inj heq).1])
      rw [List.cons_append, lines_cons hc hkeep, ih (by simp) hfeed hreturn]

theorem newline_not_mem_of_mem_lines {text line : Text} (h : line ∈ lines text) : '\n' ∉ line := by
  fun_induction lines text generalizing line with
  | case1 => simp at h
  | case2 cs ih =>
    rcases List.mem_cons.mp h with rfl | h
    · simp
    · exact ih h
  | case3 cs ih =>
    rcases List.mem_cons.mp h with rfl | h
    · simp
    · exact ih h
  | case4 c cs hc hcut ih =>
    cases hlines : lines cs with
    | nil =>
      rw [hlines, consLine, List.mem_singleton] at h
      subst h
      simp [Ne.symm hc]
    | cons first rest =>
      rw [hlines, consLine] at h
      rw [hlines] at ih
      rcases List.mem_cons.mp h with rfl | h
      · simp only [List.mem_cons, not_or]
        exact ⟨Ne.symm hc, ih (by simp)⟩
      · exact ih (by simp [h])

end Text

/-! ### Lines that keep their place -/

namespace Line

def deeper : Line → Line
  | .blank => .blank
  | .text depth content => .text (depth + 1) content

/-- A line with a content that reads back as one line. -/
def Solid : Line → Prop
  | .blank => False
  | .text _ content => content ≠ [] ∧ Text.OneLine content

def Plain (line : Line) : Prop := line = .blank ∨ line.Solid

theorem Solid.plain {line : Line} (h : line.Solid) : line.Plain := Or.inr h

@[simp] theorem plain_blank : blank.Plain := Or.inl rfl

@[simp] theorem writeAll_nil : writeAll [] = [] := rfl

@[simp] theorem writeAll_cons (line : Line) (lines : List Line) :
    writeAll (line :: lines) = line.body ++ '\n' :: writeAll lines := by
  simp [writeAll, write]

@[simp] theorem writeAll_append (left right : List Line) :
    writeAll (left ++ right) = writeAll left ++ writeAll right := by
  simp [writeAll]

theorem writeAll_joinBlank (parts : List (List Line)) :
    writeAll (joinBlank parts) = Text.joinBlank (parts.map writeAll) := by
  fun_induction joinBlank parts with
  | case1 => rfl
  | case2 part => rfl
  | case3 part parts hne ih =>
    cases parts with
    | nil => exact absurd rfl hne
    | cons next rest =>
      simp only [writeAll_append, writeAll_cons, body, List.nil_append, ih, List.map_cons,
        Text.joinBlank]

theorem writeAll_paragraphs (parts : List (List Line)) :
    writeAll (paragraphs parts) = Text.paragraphs (parts.map writeAll) := by
  have hempty : ∀ part : List Line, (writeAll part).isEmpty = part.isEmpty := by
    intro part
    cases part <;> simp
  rw [paragraphs, writeAll_joinBlank, Text.paragraphs, List.filter_map]
  congr 3
  funext part
  simp [hempty]

theorem getLast?_margin_append (depth : Nat) {content : Text} (h : content ≠ []) :
    (margin depth ++ content).getLast? = content.getLast? := by
  rw [List.getLast?_append]
  cases hlast : content.getLast? with
  | none => exact absurd (List.getLast?_eq_none_iff.mp hlast) h
  | some c => rfl

theorem not_mem_margin {c : Char} (hc : c ≠ ' ') (depth : Nat) : c ∉ margin depth := by
  intro hmem
  exact hc (List.eq_of_mem_replicate hmem)

theorem Plain.oneLine_body {line : Line} (h : line.Plain) : Text.OneLine line.body := by
  rcases h with rfl | h
  · simp [body, Text.OneLine]
  · cases line with
    | blank => exact h.elim
    | text depth content =>
      obtain ⟨hne, hfeed, hreturn⟩ := h
      constructor
      · rw [body, List.mem_append, not_or]
        exact ⟨not_mem_margin (by decide) depth, hfeed⟩
      · rw [body, getLast?_margin_append depth hne]
        exact hreturn

/-- Plain lines are found again in the text that they are written to. -/
theorem lines_writeAll {lines : List Line} (h : ∀ line ∈ lines, line.Plain) :
    Text.lines (writeAll lines) = lines.map body := by
  induction lines with
  | nil => rfl
  | cons line lines ih =>
    have hline : line.Plain := h line (by simp)
    rw [writeAll_cons, Text.lines_oneLine hline.oneLine_body,
      ih (fun other hother => h other (by simp [hother])), List.map_cons]

theorem indentLine_body {line : Line} (h : line.Plain) :
    Text.indentLine line.body = line.deeper.write := by
  rcases h with rfl | h
  · rfl
  · cases line with
    | blank => exact h.elim
    | text depth content =>
      have hmargin : margin (depth + 1) = ' ' :: ' ' :: margin depth := rfl
      have hne : margin depth ++ content ≠ [] := by simp [h.1]
      obtain ⟨c, cs, hcs⟩ := List.exists_cons_of_ne_nil hne
      simp only [body, deeper, write, hmargin, List.cons_append, hcs, Text.indentLine]

/-- **Shifting a written text is writing it one level deeper.** -/
theorem indent_writeAll {lines : List Line} (h : ∀ line ∈ lines, line.Plain) :
    Text.indent (writeAll lines) = writeAll (lines.map deeper) := by
  rw [Text.indent, lines_writeAll h, writeAll, List.flatMap_map, List.flatMap_map]
  apply List.flatMap_congr
  intro line hline
  exact indentLine_body (h line hline)

end Line

/-! ### Texts with a layout -/

/-- The text is laid out as `layout` says: at depth zero it is what `layout`
    writes, and another depth only moves the lines.  This is what makes shifting
    the text and laying it out deeper the same. -/
structure LaidOut (text : Text) (layout : Nat → List Line) : Prop where
  plain : ∀ depth, ∀ line ∈ layout depth, line.Plain
  deeper : ∀ depth, layout (depth + 1) = (layout depth).map Line.deeper
  written : text = Line.writeAll (layout 0)

namespace LaidOut

theorem indent_eq {text : Text} {layout : Nat → List Line} (h : LaidOut text layout) :
    Text.indent text = Line.writeAll (layout 1) := by
  rw [h.written, Line.indent_writeAll (h.plain 0), h.deeper 0]

theorem isEmpty_eq {text : Text} {layout : Nat → List Line} (h : LaidOut text layout)
    (depth : Nat) : text.isEmpty = (layout depth).isEmpty := by
  induction depth with
  | zero =>
    rw [h.written]
    cases layout 0 <;> simp
  | succ depth ih => rw [h.deeper, List.isEmpty_map, ih]

theorem nil : LaidOut [] fun _ => [] :=
  ⟨by simp, by simp, rfl⟩

theorem line {content : Text} (hne : content ≠ []) (h : Text.OneLine content) :
    LaidOut (content ++ ['\n']) fun depth => [.text depth content] := by
  refine ⟨?_, fun depth => rfl, ?_⟩
  · intro depth line hline
    rw [List.mem_singleton] at hline
    subst hline
    exact Line.Solid.plain ⟨hne, h⟩
  · simp [Line.body, Line.margin]

theorem append {left right : Text} {layoutLeft layoutRight : Nat → List Line}
    (hleft : LaidOut left layoutLeft) (hright : LaidOut right layoutRight) :
    LaidOut (left ++ right) fun depth => layoutLeft depth ++ layoutRight depth := by
  refine ⟨?_, ?_, ?_⟩
  · intro depth line hline
    rcases List.mem_append.mp hline with h | h
    · exact hleft.plain depth line h
    · exact hright.plain depth line h
  · intro depth
    rw [hleft.deeper, hright.deeper, List.map_append]
  · rw [Line.writeAll_append, ← hleft.written, ← hright.written]

theorem flatMap {α : Type} {entries : List α} {render : α → Text}
    {layout : Nat → α → List Line}
    (h : ∀ entry ∈ entries, LaidOut (render entry) fun depth => layout depth entry) :
    LaidOut (entries.flatMap render) fun depth => entries.flatMap (layout depth) := by
  induction entries with
  | nil => exact nil
  | cons entry entries ih =>
    have hhead := h entry (by simp)
    have htail := ih fun other hother => h other (by simp [hother])
    simpa only [List.flatMap_cons] using hhead.append htail

/-! ### Parts with blank lines between them -/

theorem joinBlank {α : Type} {parts : List α} {render : α → Text} {layout : Nat → α → List Line}
    (h : ∀ part ∈ parts, LaidOut (render part) fun depth => layout depth part) :
    LaidOut (Text.joinBlank (parts.map render)) fun depth =>
      Line.joinBlank (parts.map (layout depth)) := by
  induction parts with
  | nil => exact nil
  | cons part parts ih =>
    have hhead := h part (by simp)
    have htail := ih fun other hother => h other (by simp [hother])
    cases parts with
    | nil => exact hhead
    | cons next rest =>
      have hblank : LaidOut ['\n'] fun _ => [.blank] := ⟨by simp, fun _ => rfl, rfl⟩
      have hall := hhead.append (hblank.append htail)
      simpa only [List.map_cons, Text.joinBlank, Line.joinBlank, List.cons_append,
        List.nil_append] using hall

/-- A part is left out of the text exactly if it is left out of the layout. -/
theorem filter_map {α : Type} {parts : List α} {render : α → Text}
    {layout : Nat → α → List Line}
    (h : ∀ part ∈ parts, LaidOut (render part) fun depth => layout depth part) (depth : Nat) :
    (parts.map (layout depth)).filter (fun part => !part.isEmpty) =
      (parts.filter fun part => !(render part).isEmpty).map (layout depth) := by
  rw [List.filter_map]
  congr 1
  apply List.filter_congr
  intro part hpart
  simp only [Function.comp_apply]
  rw [(h part hpart).isEmpty_eq depth]

theorem paragraphs {α : Type} {parts : List α} {render : α → Text} {layout : Nat → α → List Line}
    (h : ∀ part ∈ parts, LaidOut (render part) fun depth => layout depth part) :
    LaidOut (Text.paragraphs (parts.map render)) fun depth =>
      Line.paragraphs (parts.map (layout depth)) := by
  have hkept : ∀ part ∈ parts.filter fun part => !(render part).isEmpty,
      LaidOut (render part) fun depth => layout depth part :=
    fun part hpart => h part (List.mem_of_mem_filter hpart)
  have htext : Text.paragraphs (parts.map render) =
      Text.joinBlank ((parts.filter fun part => !(render part).isEmpty).map render) := by
    rw [Text.paragraphs, List.filter_map]
    rfl
  simpa only [htext, Line.paragraphs, filter_map h] using joinBlank hkept

/-! ### Blocks -/

theorem shift {text : Text} {layout : Nat → List Line} (h : LaidOut text layout) :
    LaidOut (Text.indent text) fun depth => layout (depth + 1) :=
  ⟨fun depth => h.plain (depth + 1), fun depth => h.deeper (depth + 1), h.indent_eq⟩

/-- Related lists can be read as one list of related pairs. -/
theorem exists_pairs {sections : List Text} {layouts : List (Nat → List Line)}
    (h : List.Forall₂ LaidOut sections layouts) :
    ∃ pairs : List (Text × (Nat → List Line)), pairs.map Prod.fst = sections ∧
      pairs.map Prod.snd = layouts ∧ ∀ pair ∈ pairs, LaidOut pair.1 pair.2 := by
  induction h with
  | nil => exact ⟨[], rfl, rfl, by simp⟩
  | @cons text layout _ _ hhead _ ih =>
    obtain ⟨pairs, hsections, hlayouts, hpairs⟩ := ih
    exact ⟨(text, layout) :: pairs, by simp [hsections], by simp [hlayouts],
      List.forall_mem_cons.mpr ⟨hhead, hpairs⟩⟩

theorem block {header : Text} (hheader : Text.Clean header) {sections : List Text}
    {layouts : List (Nat → List Line)} (h : List.Forall₂ LaidOut sections layouts) :
    LaidOut (Text.block header sections) fun depth =>
      Line.block depth header (layouts.map fun layout => layout (depth + 1)) := by
  -- empty sections are dropped from the text and from the layout; in pairs, from both at once
  obtain ⟨pairs, rfl, rfl, hpairs⟩ := exists_pairs h
  have htext : (pairs.map Prod.fst).filter (fun part => !part.isEmpty) =
      (pairs.filter fun pair => !pair.1.isEmpty).map Prod.fst := by
    rw [List.filter_map]
    rfl
  have hlayout : ∀ depth : Nat,
      ((pairs.map Prod.snd).map fun layout => layout (depth + 1)).filter
          (fun part => !part.isEmpty) =
        (pairs.filter fun pair => !pair.1.isEmpty).map fun pair => pair.2 (depth + 1) := by
    intro depth
    rw [List.map_map]
    exact @filter_map _ pairs Prod.fst (fun depth pair => pair.2 depth) hpairs (depth + 1)
  unfold Text.block Line.block
  simp only [htext, hlayout]
  cases hkept : pairs.filter fun pair => !pair.1.isEmpty with
  | nil =>
    have hopen : Text.OneLine (header ++ " \x7b\x7d".toList) :=
      (hheader.append (by decide)).oneLine
    simpa using line (by simp) hopen
  | cons pair rest =>
    have hbody : LaidOut (Text.joinBlank ((pair :: rest).map fun pair => Text.indent pair.1))
        fun depth => Line.joinBlank ((pair :: rest).map fun pair => pair.2 (depth + 1)) := by
      refine joinBlank fun other hother => (hpairs other ?_).shift
      exact List.mem_of_mem_filter (hkept ▸ hother)
    have hopen : Text.OneLine (header ++ " \x7b".toList) :=
      (hheader.append (by decide)).oneLine
    have hclose : Text.OneLine "\x7d".toList := by decide
    have hall := ((line (by simp) hopen).append hbody).append (line (by decide) hclose)
    simpa [Function.comp_def] using hall

end LaidOut

/-! ### Comments -/

/-- What a text must be like for a declaration to keep its lines: no line of a
    documentation ends in a carriage return, and every other text is without
    line ends altogether. -/
def TextPart.Unbroken (part : TextPart) : Prop :=
  match part.role with
  | .documentation => ∀ line ∈ Text.lines part.text.toList, line.getLast? ≠ some '\r'
  | _ => Text.Clean part.text.toList

instance (part : TextPart) : Decidable part.Unbroken :=
  match part with
  | ⟨.documentation, text⟩ =>
    inferInstanceAs (Decidable (∀ line ∈ Text.lines text.toList, line.getLast? ≠ some '\r'))
  | ⟨.name, text⟩ => inferInstanceAs (Decidable (Text.Clean text.toList))
  | ⟨.typeRef, text⟩ => inferInstanceAs (Decidable (Text.Clean text.toList))
  | ⟨.settingName _, text⟩ => inferInstanceAs (Decidable (Text.Clean text.toList))
  | ⟨.identifier, text⟩ => inferInstanceAs (Decidable (Text.Clean text.toList))
  | ⟨.float, text⟩ => inferInstanceAs (Decidable (Text.Clean text.toList))
  | ⟨.mapKey, text⟩ => inferInstanceAs (Decidable (Text.Clean text.toList))

theorem LaidOut.comment {documentation : String}
    (h : (⟨.documentation, documentation⟩ : TextPart).Unbroken) :
    LaidOut (Text.comment documentation) fun depth => Line.comment depth documentation := by
  have hline : ∀ line ∈ Text.lines documentation.toList,
      LaidOut (Text.commentLine line) fun depth => [.text depth (Line.remark line)] := by
    intro line hmem
    have hone : Text.OneLine (Line.remark line) := by
      cases line with
      | nil => decide
      | cons c cs =>
        constructor
        · have hfeed := Text.newline_not_mem_of_mem_lines hmem
          simpa [Line.remark] using hfeed
        · have hreturn := h _ hmem
          simpa [Line.remark, List.getLast?_cons_cons] using hreturn
    have hwritten : Text.commentLine line = Line.remark line ++ ['\n'] := by
      cases line <;> rfl
    rw [hwritten]
    exact LaidOut.line (by cases line <;> simp [Line.remark]) hone
  have hall := LaidOut.flatMap hline
  simpa only [Text.comment, Line.comment, List.map_eq_flatMap] using hall

/-! ### Texts that end within a line -/

/-- A text with a line feed after it, unless it is empty. -/
def Text.closed (text : Text) : Text := if text.isEmpty then [] else text ++ ['\n']

structure Compact (text : Text) (layout : Nat → List Line) : Prop extends
    LaidOut text layout where
  blank_not_mem : ∀ depth, Line.blank ∉ layout depth

namespace Compact

theorem nil : Compact [] fun _ => [] := ⟨LaidOut.nil, by simp⟩

theorem line {content : Text} (hne : content ≠ []) (h : Text.OneLine content) :
    Compact (content ++ ['\n']) fun depth => [.text depth content] :=
  ⟨LaidOut.line hne h, by simp⟩

theorem append {left right : Text} {layoutLeft layoutRight : Nat → List Line}
    (hleft : Compact left layoutLeft) (hright : Compact right layoutRight) :
    Compact (left ++ right) fun depth => layoutLeft depth ++ layoutRight depth := by
  refine ⟨hleft.toLaidOut.append hright.toLaidOut, ?_⟩
  intro depth hmem
  rcases List.mem_append.mp hmem with h | h
  · exact hleft.blank_not_mem depth h
  · exact hright.blank_not_mem depth h

theorem filled {lead content trail : Text} (hlead : Text.Clean lead) (h : Text.Clean content)
    (htrail : Text.Clean trail) :
    Compact (lead ++ content ++ trail).closed fun depth =>
      Line.filled depth (lead ++ content ++ trail) := by
  have hall : Text.Clean (lead ++ content ++ trail) := (hlead.append h).append htrail
  cases hline : lead ++ content ++ trail with
  | nil => exact nil
  | cons c cs =>
    rw [hline] at hall
    exact line (by simp) hall.oneLine

/-- The last line of a closed text has content, so that the text itself does not
    end in a line end. -/
theorem getLast?_of_closed {text : Text} {layout : Nat → List Line}
    (h : Compact text.closed layout) (hne : text ≠ []) :
    text.getLast? ≠ some '\n' ∧ text.getLast? ≠ some '\r' := by
  have hwritten : text ++ ['\n'] = Line.writeAll (layout 0) := by
    rw [← h.written, Text.closed, if_neg (by simpa using hne)]
  rcases List.eq_nil_or_concat (layout 0) with hnil | ⟨first, last, hlast⟩
  · rw [hnil] at hwritten
    simp at hwritten
  · have hmem : last ∈ layout 0 := by simp [hlast]
    rcases h.plain 0 last hmem with rfl | hsolid
    · exact absurd hmem (h.blank_not_mem 0)
    · cases last with
      | blank => exact hsolid.elim
      | text depth content =>
        rw [hlast, List.concat_eq_append, Line.writeAll_append, Line.writeAll_cons,
          Line.writeAll_nil, ← List.append_assoc] at hwritten
        have htext := List.append_cancel_right hwritten
        have hend : text.getLast? = content.getLast? := by
          rw [htext, Line.body, List.getLast?_append, Line.getLast?_margin_append depth hsolid.1]
          cases hc : content.getLast? with
          | none => exact absurd (List.getLast?_eq_none_iff.mp hc) hsolid.1
          | some c => rfl
        rw [hend]
        refine ⟨?_, hsolid.2.2⟩
        intro hfeed
        exact hsolid.2.1 (List.mem_of_getLast? hfeed)

theorem shift_closed {text : Text} {layout : Nat → List Line} (h : Compact text.closed layout) :
    Compact (Text.indent text) fun depth => layout (depth + 1) := by
  have hindent : Text.indent text = Text.indent text.closed := by
    by_cases hne : text = []
    · subst hne
      rfl
    · obtain ⟨hfeed, hreturn⟩ := h.getLast?_of_closed hne
      rw [Text.closed, if_neg (by simpa using hne), Text.indent, Text.indent,
        Text.lines_append_newline hne hfeed hreturn]
  rw [hindent]
  exact ⟨h.toLaidOut.shift, fun depth => h.blank_not_mem (depth + 1)⟩

end Compact

end WireSchema
