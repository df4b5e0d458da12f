/-
  WireSchema/Proofs/WholeLines.lean
  =================================
  **Texts of whole lines.**  A text is `Whole` if a line feed ends each of its lines.
  Every declaration is written as such a text.  Two things can then be said of a larger
  text piece by piece:

    * cutting it at its line feeds cuts the pieces (`Whole.splitOn_append`);
    * shifting it shifts the pieces (`Whole.indent_append`).

  `Framed` is the second in the form in which it is used.  A text that depends on one of
  its parts, and on nothing else, is some fixed whole lines, then the part shifted as often
  as there are blocks around it, and then some fixed text.
-/
import WireSchema.Proofs.Undocumented
import Mathlib.Logic.Function.Iterate

namespace WireSchema

namespace Text

/-! ### Whole lines -/

/-- Lines, each with a line feed at its end. -/
inductive Whole : Text → Prop
  | nil : Whole []
  | line {line text : Text} (hline : '\n' ∉ line) (h : Whole text) : Whole (line ++ '\n' :: text)

theorem Annotates.whole {text bare : Text} (h : Annotates text bare) : Whole text := by
  induction h with
  | nil => exact .nil
  | line hline _ ih => exact .line hline ih
  | remark hline _ _ _ ih => exact .line hline ih

namespace Whole

theorem ended (text : Text) : Whole (text ++ ['\n']) := (Annotates.ended text).whole

theorem append {left right : Text} (hleft : Whole left) (hright : Whole right) :
    Whole (left ++ right) := by
  induction hleft with
  | nil => exact hright
  | line hline _ ih =>
    rw [List.append_assoc]
    exact .line hline ih

theorem flatMap {α : Type} {entries : List α} {render : α → Text}
    (h : ∀ entry ∈ entries, Whole (render entry)) : Whole (entries.flatMap render) := by
  induction entries with
  | nil => exact .nil
  | cons entry entries ih =>
    obtain ⟨hhead, htail⟩ := List.forall_mem_cons.mp h
    exact hhead.append (ih htail)

theorem comment (documentation : String) : Whole (Text.comment documentation) := by
  apply flatMap
  intro line _
  cases line with
  | nil => exact ended "//".toList
  | cons c cs => exact ended ("// ".toList ++ c :: cs)

/-- Whatever a text is like, shifting it ends its last line. -/
theorem indent (text : Text) : Whole (Text.indent text) := by
  apply flatMap
  intro line _
  cases line with
  | nil => exact ended []
  | cons c cs => exact ended (' ' :: ' ' :: c :: cs)

theorem iterate_indent {text : Text} (h : Whole text) (depth : Nat) :
    Whole (Text.indent^[depth] text) := by
  cases depth with
  | zero => exact h
  | succ depth =>
    rw [Function.iterate_succ_apply']
    exact indent _

/-! ### Cutting and shifting piece by piece -/

/-- Whole lines give the same lines whatever comes after them. -/
theorem splitOn_append {left : Text} (h : Whole left) :
    ∃ lines : List Text, ∀ right : Text,
      (left ++ right).splitOn '\n' = lines ++ right.splitOn '\n' := by
  induction h with
  | nil => exact ⟨[], fun right => rfl⟩
  | @line line text hline _ ih =>
    obtain ⟨lines, hlines⟩ := ih
    refine ⟨line :: lines, fun right => ?_⟩
    rw [List.append_assoc, List.cons_append,
      List.splitOn_append_cons_self_of_not_mem hline, hlines, List.cons_append]

/-- **Shifting whole lines and what comes after them shifts both.** -/
theorem indent_append {left : Text} (h : Whole left) (right : Text) :
    Text.indent (left ++ right) = Text.indent left ++ Text.indent right := by
  induction h with
  | nil => rfl
  | line hline _ ih =>
    rw [List.append_assoc, List.cons_append, indent_line hline, indent_line hline, ih,
      List.append_assoc]

theorem iterate_indent_append {left : Text} (h : Whole left) (right : Text) (depth : Nat) :
    Text.indent^[depth] (left ++ right) =
      Text.indent^[depth] left ++ Text.indent^[depth] right := by
  induction depth with
  | zero => rfl
  | succ depth ih =>
    simp only [Function.iterate_succ_apply']
    rw [ih, (h.iterate_indent depth).indent_append]

end Whole

/-! ### A part and the text around it -/

/-- The outer text is the inner one, shifted `depth` times, between two texts that do not
    depend on it.  The one before it are whole lines. -/
def Framed {α : Type} (depth : Nat) (inner outer : α → Text) : Prop :=
  ∃ before after : Text, Whole before ∧
    ∀ a, outer a = before ++ (indent^[depth] (inner a) ++ after)

namespace Framed

variable {α : Type} {inner : α → Text}

theorem refl (inner : α → Text) : Framed 0 inner inner := by
  refine ⟨[], [], .nil, fun a => ?_⟩
  simp

theorem comp {depth : Nat} {outer : α → Text} (h : Framed depth inner outer) {β : Type}
    (f : β → α) : Framed depth (fun b => inner (f b)) fun b => outer (f b) := by
  obtain ⟨before, after, hbefore, houter⟩ := h
  exact ⟨before, after, hbefore, fun b => houter (f b)⟩

theorem prepend {depth : Nat} {outer : α → Text} (h : Framed depth inner outer) {lead : Text}
    (hlead : Whole lead) : Framed depth inner fun a => lead ++ outer a := by
  obtain ⟨before, after, hbefore, houter⟩ := h
  refine ⟨lead ++ before, after, hlead.append hbefore, fun a => ?_⟩
  simp only [houter, List.append_assoc]

theorem follow {depth : Nat} {outer : α → Text} (h : Framed depth inner outer) (trail : Text) :
    Framed depth inner fun a => outer a ++ trail := by
  obtain ⟨before, after, hbefore, houter⟩ := h
  refine ⟨before, after ++ trail, hbefore, fun a => ?_⟩
  simp only [houter, List.append_assoc]

/-- A part of a part is shifted as often as both are. -/
theorem trans {depth more : Nat} {middle outer : α → Text} (h : Framed depth inner middle)
    (h' : Framed more middle outer) (hinner : ∀ a, Whole (inner a)) :
    Framed (depth + more) inner outer := by
  obtain ⟨before, after, hbefore, hmiddle⟩ := h
  obtain ⟨before', after', hbefore', houter⟩ := h'
  refine ⟨before' ++ indent^[more] before, indent^[more] after ++ after',
    hbefore'.append (hbefore.iterate_indent more), fun a => ?_⟩
  have hshifted : Whole (indent^[depth] (inner a)) := (hinner a).iterate_indent depth
  rw [houter, hmiddle, hbefore.iterate_indent_append, hshifted.iterate_indent_append,
    Nat.add_comm depth more, Function.iterate_add_apply]
  simp only [List.append_assoc]

/-! ### Parts and blocks -/

/-- One of several declarations, one after the other. -/
theorem flatMap {before : List α} (h : ∀ a ∈ before, Whole (inner a)) (after : List α) :
    Framed 0 inner fun a => (before ++ a :: after).flatMap inner := by
  refine ⟨before.flatMap inner, after.flatMap inner, .flatMap h, fun a => ?_⟩
  simp

/-- One of several texts with blank lines between them. -/
theorem joinBlank {before : List Text} (h : ∀ part ∈ before, Whole part) (after : List Text) :
    Framed 0 inner fun a => Text.joinBlank (before ++ inner a :: after) := by
  induction before with
  | nil =>
    cases after with
    | nil => exact refl inner
    | cons next rest => exact (refl inner).follow ('\n' :: Text.joinBlank (next :: rest))
  | cons part parts ih =>
    obtain ⟨hpart, hparts⟩ := List.forall_mem_cons.mp h
    have hlead : Whole (part ++ ['\n']) := hpart.append (.ended [])
    have hjoin : ∀ a, Text.joinBlank ((part :: parts) ++ inner a :: after) =
        part ++ ['\n'] ++ Text.joinBlank (parts ++ inner a :: after) := by
      intro a
      cases parts with
      | nil => simp [Text.joinBlank]
      | cons next rest => simp [Text.joinBlank]
    simpa only [hjoin] using (ih hparts).prepend hlead

/-- A part that is not empty is not left out. -/
theorem filter_append_cons {part : Text} (hne : part ≠ []) (before after : List Text) :
    ((before ++ part :: after).filter fun part => !part.isEmpty) =
      (before.filter fun part => !part.isEmpty) ++ part ::
        (after.filter fun part => !part.isEmpty) := by
  simp [List.filter_append, hne]

theorem paragraphs (hne : ∀ a, inner a ≠ []) {before : List Text}
    (h : ∀ part ∈ before, Whole part) (after : List Text) :
    Framed 0 inner fun a => Text.paragraphs (before ++ inner a :: after) := by
  simp only [Text.paragraphs, filter_append_cons (hne _)]
  exact joinBlank (fun part hpart => h part (List.mem_of_mem_filter hpart)) _

/-- **A block shifts what stands in one of its sections.** -/
theorem block {content : α → Text} (h : Framed 0 inner content) (hinner : ∀ a, Whole (inner a))
    (hne : ∀ a, inner a ≠ []) (header : Text) (before after : List Text) :
    Framed 1 inner fun a => Text.block header (before ++ content a :: after) := by
  let first := (before.filter fun part => !part.isEmpty).map Text.indent
  let last := (after.filter fun part => !part.isEmpty).map Text.indent
  have hcontent : ∀ a, content a ≠ [] := by
    intro a
    obtain ⟨start, rest, -, heq⟩ := h
    simp [heq, hne a]
  have hblock : ∀ a, Text.block header (before ++ content a :: after) =
      header ++ " \x7b\n".toList ++
        (Text.joinBlank (first ++ Text.indent (content a) :: last) ++ "\x7d\n".toList) := by
    intro a
    unfold Text.block
    rw [filter_append_cons (hcontent a)]
    split
    · rename_i hempty
      simp at hempty
    · simp [first, last]
  have hindent : Framed 1 content fun a => Text.indent (content a) := by
    refine ⟨[], [], .nil, fun a => ?_⟩
    simp
  have hbody : Framed 0 (fun a => Text.indent (content a)) fun a =>
      Text.joinBlank (first ++ Text.indent (content a) :: last) := by
    apply joinBlank
    intro part hpart
    obtain ⟨text, -, rfl⟩ := List.mem_map.mp hpart
    exact Whole.indent text
  have hopening : Whole (header ++ " \x7b\n".toList) := by
    have hended := Whole.ended (header ++ " \x7b".toList)
    rwa [List.append_assoc] at hended
  have hall := (((h.trans hindent hinner).trans hbody hinner).follow "\x7d\n".toList).prepend
    hopening
  simpa only [hblock] using hall

end Framed

end Text

/-! ### Files -/

/-- The parts of a file are whole lines, each of them. -/
theorem SchemaFile.whole_parts (file : SchemaFile) : ∀ part ∈ file.parts, Text.Whole part := by
  intro part hpart
  simp only [parts, List.mem_cons, List.mem_append, List.mem_map] at hpart
  rcases hpart with rfl | rfl | rfl | (⟨t, -, rfl⟩ | ⟨extend, -, rfl⟩) | ⟨service, -, rfl⟩
  · exact file.annotates_header.whole
  · exact file.annotates_imports.whole
  · exact (Setting.annotates_statements file.settings).whole
  · exact t.annotates.whole
  · exact extend.annotates.whole
  · exact service.annotates.whole

end WireSchema
