/-
  WireSchema/Proofs/NestedComments.lean
  =====================================
  **Comments of nested declarations.**  A declaration that carries documentation can stand
  inside blocks of messages, enums, oneofs, extend blocks and services.  A `Frame` is such a
  block with a gap for one declaration, a `Context` is any number of frames inside each
  other, and a `Place` is a gap at the top of a file.

  Filling a gap writes the declaration into a text that does not depend on it, shifted once
  for each block around it (`Frame.framed` for one block, `Context.framed` for any number).
  So it can be said where the comment of the declaration stands, directly before the
  declaration itself, and what its lines are: two spaces for each block, `//`, and the line of
  the documentation.

  Shifting cuts a text into lines once more, and a carriage return at the end of a line then
  counts as part of the line end.  Each block around a declaration takes one off, so that the
  comment is verbatim at the top of a file, and inside blocks only where no line of the
  documentation ends in a carriage return (`commentLines_eq_verbatimLines_iff`).
-/
import WireSchema.Proofs.WholeLines

namespace WireSchema

/-! ### Declarations with documentation -/

/-- The kinds of declarations that carry documentation.  A type is a message or an enum. -/
inductive DeclKind
  | enumValue
  | field
  | oneof
  | range
  | type
  | extend
  | rpc
  | service
  deriving DecidableEq, Repr

namespace DeclKind

/-- The declarations of a kind. -/
abbrev Decl : DeclKind → Type
  | .enumValue => EnumValue
  | .field => Field
  | .oneof => Oneof
  | .range => ExtensionRange
  | .type => TypeDecl
  | .extend => ExtendBlock
  | .rpc => Rpc
  | .service => Service

def documentation : {kind : DeclKind} → kind.Decl → String
  | .enumValue, decl => EnumValue.documentation decl
  | .field, decl => Field.documentation decl
  | .oneof, decl => Oneof.documentation decl
  | .range, decl => ExtensionRange.documentation decl
  | .type, decl => TypeDecl.documentation decl
  | .extend, decl => ExtendBlock.documentation decl
  | .rpc, decl => Rpc.documentation decl
  | .service, decl => Service.documentation decl

def render : {kind : DeclKind} → kind.Decl → Text
  | .enumValue, decl => EnumValue.render decl
  | .field, decl => Field.render decl
  | .oneof, decl => Oneof.render decl
  | .range, decl => ExtensionRange.render decl
  | .type, decl => TypeDecl.render decl
  | .extend, decl => ExtendBlock.render decl
  | .rpc, decl => Rpc.render decl
  | .service, decl => Service.render decl

/-- The declaration as it is written without its own documentation.  Its header comes
    first. -/
def bare : {kind : DeclKind} → kind.Decl → Text
  | .enumValue, decl => EnumValue.render { decl with documentation := "" }
  | .field, decl => Field.render { decl with documentation := "" }
  | .oneof, decl => Oneof.render { decl with documentation := "" }
  | .range, decl => ExtensionRange.render { decl with documentation := "" }
  | .type, .enum decl => EnumDecl.render { decl with documentation := "" }
  | .type, .message core nested =>
    TypeDecl.render (.message { core with documentation := "" } nested)
  | .extend, decl => ExtendBlock.render { decl with documentation := "" }
  | .rpc, decl => Rpc.render { decl with documentation := "" }
  | .service, decl => Service.render { decl with documentation := "" }

theorem render_eq : ∀ {kind : DeclKind} (decl : kind.Decl),
    render decl = Text.comment (documentation decl) ++ bare decl
  | .enumValue, decl => by simp [render, bare, documentation, EnumValue.render]
  | .field, decl => by simp [render, bare, documentation, Field.render]
  | .oneof, decl => by simp [render, bare, documentation, Oneof.render]
  | .range, decl => by
    have htail : ({ decl with documentation := "" } : ExtensionRange).tail = decl.tail := rfl
    simp [render, bare, documentation, ExtensionRange.render, htail]
  | .type, .enum decl => by
    simp [render, bare, documentation, TypeDecl.render, TypeDecl.documentation, EnumDecl.render]
  | .type, .message core nested => by
    simp [render, bare, documentation, TypeDecl.render, TypeDecl.documentation,
      MessageCore.renderWith]
  | .extend, decl => by simp [render, bare, documentation, ExtendBlock.render]
  | .rpc, decl => by
    have hsignature : ({ decl with documentation := "" } : Rpc).signature = decl.signature := rfl
    simp [render, bare, documentation, Rpc.render, hsignature]
  | .service, decl => by simp [render, bare, documentation, Service.render]

theorem whole_render : ∀ {kind : DeclKind} (decl : kind.Decl), Text.Whole (render decl)
  | .enumValue, decl => (EnumValue.annotates decl).whole
  | .field, decl => (Field.annotates decl).whole
  | .oneof, decl => (Oneof.annotates decl).whole
  | .range, decl => (ExtensionRange.annotates decl).whole
  | .type, decl => (TypeDecl.annotates decl).whole
  | .extend, decl => (ExtendBlock.annotates decl).whole
  | .rpc, decl => (Rpc.annotates decl).whole
  | .service, decl => (Service.annotates decl).whole

theorem render_ne_nil : ∀ {kind : DeclKind} (decl : kind.Decl), render decl ≠ []
  | .enumValue, decl => by simp [render, EnumValue.render]
  | .field, decl => by simp [render, Field.render]
  | .oneof, decl => Text.documented_ne_nil _ _ _
  | .range, decl => by simp [render, ExtensionRange.render]
  | .type, decl => TypeDecl.render_ne_nil decl
  | .extend, decl => Text.documented_ne_nil _ _ _
  | .rpc, decl => by
    rw [render, Rpc.render]
    split
    · simp
    · exact Text.documented_ne_nil _ _ _
  | .service, decl => Text.documented_ne_nil _ _ _

end DeclKind

open DeclKind (documentation render bare whole_render render_ne_nil)

/-! ### Comment lines -/

/-- The comment line for a line of documentation, inside of `depth` blocks.  Each of them
    takes one carriage return off the end of the line. -/
def Line.remarkAt (depth : Nat) : Text → Text
  | [] => margin depth ++ "//".toList
  | c :: cs => margin depth ++ "// ".toList ++ Text.chop^[depth] (c :: cs)

/-- The lines that are written for documentation inside of `depth` blocks. -/
def commentLines (depth : Nat) (documentation : String) : List Text :=
  (Text.lines documentation.toList).map (Line.remarkAt depth)

/-- The lines of documentation as comment lines inside of `depth` blocks, with nothing taken
    off. -/
def verbatimLines (depth : Nat) (documentation : String) : List Text :=
  (Text.lines documentation.toList).map fun line => Line.margin depth ++ Line.remark line

namespace Text

/-! ### What shifting takes off a line -/

theorem chop_append {lead : Text} (hlead : lead.getLast? ≠ some '\r') (text : Text) :
    chop (lead ++ text) = lead ++ chop text := by
  by_cases hne : text = []
  · subst hne
    simp [chop, hlead]
  · unfold chop
    rw [List.getLast?_append_of_ne_nil lead hne, List.dropLast_append_of_ne_nil hne]
    split
    · rfl
    · rfl

theorem newline_not_mem_iterate_chop {text : Text} (h : '\n' ∉ text) (depth : Nat) :
    '\n' ∉ chop^[depth] text := by
  induction depth with
  | zero => exact h
  | succ depth ih =>
    rw [Function.iterate_succ_apply']
    exact newline_not_mem_chop ih

theorem length_iterate_chop_le (text : Text) (depth : Nat) :
    (chop^[depth] text).length ≤ text.length := by
  have hchop : ∀ line : Text, (chop line).length ≤ line.length := by
    intro line
    unfold chop
    split
    · simp
    · exact Nat.le_refl _
  induction depth with
  | zero => exact Nat.le_refl _
  | succ depth ih =>
    rw [Function.iterate_succ_apply']
    exact Nat.le_trans (hchop _) ih

/-- Nothing is taken off a line that does not end in a carriage return, and from no other
    line is nothing taken off. -/
theorem iterate_chop_eq_self_iff {line : Text} {depth : Nat} :
    chop^[depth] line = line ↔ depth = 0 ∨ line.getLast? ≠ some '\r' := by
  constructor
  · intro heq
    by_contra hnot
    rw [not_or, not_not] at hnot
    obtain ⟨hdepth, hlast⟩ := hnot
    obtain ⟨depth, rfl⟩ := Nat.exists_eq_succ_of_ne_zero hdepth
    obtain ⟨start, rfl⟩ := List.getLast?_eq_some_iff.mp hlast
    have hchop : chop (start ++ ['\r']) = start := by simp [chop]
    have hle := length_iterate_chop_le start depth
    rw [Function.iterate_succ_apply, hchop] at heq
    rw [heq, List.length_append, List.length_singleton] at hle
    omega
  · rintro (rfl | hlast)
    · rfl
    · have hfixed : chop line = line := if_neg hlast
      exact Function.iterate_fixed hfixed depth

/-- A line that starts with something that no line end is taken off is moved to the right
    each time, and the rest of the line loses a carriage return each time. -/
theorem iterate_indent_line {lead line : Text} (hne : lead ≠ []) (hfeed : '\n' ∉ lead)
    (hlead : lead.getLast? ≠ some '\r') (hline : '\n' ∉ line) (rest : Text) (depth : Nat) :
    indent^[depth] (lead ++ line ++ '\n' :: rest) =
      Line.margin depth ++ lead ++ chop^[depth] line ++ '\n' :: indent^[depth] rest := by
  induction depth with
  | zero => rfl
  | succ depth ih =>
    have hstart : (Line.margin depth ++ lead).getLast? ≠ some '\r' := by
      rw [List.getLast?_append_of_ne_nil _ hne]
      exact hlead
    have hnot : '\n' ∉ Line.margin depth ++ lead ++ chop^[depth] line := by
      simp only [List.mem_append, not_or]
      exact ⟨⟨Line.not_mem_margin (by decide) depth, hfeed⟩,
        newline_not_mem_iterate_chop hline depth⟩
    have hshift : ∀ text : Text, text ≠ [] → indentLine text = ' ' :: ' ' :: text ++ ['\n'] := by
      intro text htext
      obtain ⟨c, cs, rfl⟩ := List.exists_cons_of_ne_nil htext
      rfl
    have hmargin : Line.margin (depth + 1) = ' ' :: ' ' :: Line.margin depth := rfl
    simp only [Function.iterate_succ_apply']
    rw [ih, indent_line hnot, chop_append hstart, hshift _ (by simp [hne]), hmargin]
    simp only [List.cons_append, List.append_assoc, List.nil_append]

end Text

theorem Line.newline_not_mem_remarkAt {line : Text} (h : '\n' ∉ line) (depth : Nat) :
    '\n' ∉ remarkAt depth line := by
  have hmargin := not_mem_margin (by decide : '\n' ≠ ' ') depth
  cases line with
  | nil => simpa [remarkAt] using hmargin
  | cons c cs =>
    have hchop := Text.newline_not_mem_iterate_chop h depth
    simp only [remarkAt, List.mem_append, not_or]
    exact ⟨⟨hmargin, by decide⟩, hchop⟩

/-- A comment line that is shifted, and the text after it with it. -/
theorem Text.iterate_indent_commentLine {line : Text} (h : '\n' ∉ line) (rest : Text)
    (depth : Nat) :
    indent^[depth] (commentLine line ++ rest) =
      Line.remarkAt depth line ++ '\n' :: indent^[depth] rest := by
  cases line with
  | nil =>
    have hfixed : chop^[depth] [] = [] := Function.iterate_fixed rfl depth
    have hshifted := iterate_indent_line (by decide : "//".toList ≠ []) (by decide) (by decide)
      (List.not_mem_nil (a := '\n')) rest depth
    rw [hfixed, List.append_nil, List.append_nil] at hshifted
    exact hshifted
  | cons c cs =>
    have hshifted := iterate_indent_line (by decide : "// ".toList ≠ []) (by decide) (by decide)
      h rest depth
    rw [Line.remarkAt, ← hshifted]
    simp [commentLine]

/-- The lines of a comment that has been shifted, before any text. -/
theorem splitOn_iterate_indent_comment (documentation : String) (rest : Text) (depth : Nat) :
    (Text.indent^[depth] (Text.comment documentation) ++ rest).splitOn '\n' =
      commentLines depth documentation ++ rest.splitOn '\n' := by
  have hlines : ∀ lines : List Text, (∀ line ∈ lines, '\n' ∉ line) →
      (Text.indent^[depth] (lines.flatMap Text.commentLine) ++ rest).splitOn '\n' =
        lines.map (Line.remarkAt depth) ++ rest.splitOn '\n' := by
    intro lines hlines
    induction lines with
    | nil =>
      rw [List.flatMap_nil, Function.iterate_fixed Text.indent_nil depth]
      rfl
    | cons line lines ih =>
      obtain ⟨hline, hrest⟩ := List.forall_mem_cons.mp hlines
      rw [List.flatMap_cons, Text.iterate_indent_commentLine hline, List.append_assoc,
        List.cons_append, List.splitOn_append_cons_self_of_not_mem
          (Line.newline_not_mem_remarkAt hline depth), ih hrest]
      rfl
  exact hlines _ fun line hline => Text.newline_not_mem_of_mem_lines hline

theorem commentLines_eq_verbatimLines_iff {depth : Nat} {documentation : String} :
    commentLines depth documentation = verbatimLines depth documentation ↔
      depth = 0 ∨ ∀ line ∈ Text.lines documentation.toList, line.getLast? ≠ some '\r' := by
  have hline : ∀ line : Text, Line.remarkAt depth line = Line.margin depth ++ Line.remark line ↔
      depth = 0 ∨ line.getLast? ≠ some '\r' := by
    intro line
    rw [← Text.iterate_chop_eq_self_iff]
    cases line with
    | nil =>
      have hfixed : Text.chop^[depth] [] = [] := Function.iterate_fixed rfl depth
      simp [Line.remarkAt, Line.remark, hfixed]
    | cons c cs => simp [Line.remarkAt, Line.remark]
  rw [commentLines, verbatimLines, List.map_inj_left]
  constructor
  · intro hall
    by_cases hdepth : depth = 0
    · exact Or.inl hdepth
    · right
      intro line hmem
      exact ((hline line).mp (hall line hmem)).resolve_left hdepth
  · rintro (hdepth | hall) line hmem
    · exact (hline line).mpr (Or.inl hdepth)
    · exact (hline line).mpr (Or.inr (hall line hmem))

/-! ### Blocks with a gap -/

/-- A block with a gap for one declaration of the first kind.  When it is filled, it is a
    declaration of the second kind. -/
inductive Frame : DeclKind → DeclKind → Type
  | enumValue (decl : EnumDecl) (before after : List EnumValue) : Frame .enumValue .type
  | oneofField (oneof : Oneof) (before after : List Field) : Frame .field .oneof
  | extendField (extend : ExtendBlock) (before after : List Field) : Frame .field .extend
  | field (core : MessageCore) (types : List TypeDecl) (before after : List Field) :
    Frame .field .type
  | oneof (core : MessageCore) (types : List TypeDecl) (before after : List Oneof) :
    Frame .oneof .type
  | range (core : MessageCore) (types : List TypeDecl) (before after : List ExtensionRange) :
    Frame .range .type
  | nested (core : MessageCore) (before after : List TypeDecl) : Frame .type .type
  | rpc (service : Service) (before after : List Rpc) : Frame .rpc .service

/-- The block with a declaration in its gap. -/
def Frame.fill : {inner outer : DeclKind} → Frame inner outer → inner.Decl → outer.Decl
  | _, _, .enumValue decl before after, value =>
    TypeDecl.enum { decl with values := before ++ value :: after }
  | _, _, .oneofField decl before after, member =>
    ({ decl with fields := before ++ member :: after } : Oneof)
  | _, _, .extendField decl before after, member =>
    ({ decl with fields := before ++ member :: after } : ExtendBlock)
  | _, _, .field core types before after, member =>
    TypeDecl.message { core with fields := before ++ member :: after } types
  | _, _, .oneof core types before after, member =>
    TypeDecl.message { core with oneofs := before ++ member :: after } types
  | _, _, .range core types before after, member =>
    TypeDecl.message { core with extensionRanges := before ++ member :: after } types
  | _, _, .nested core before after, t => TypeDecl.message core (before ++ t :: after)
  | _, _, .rpc decl before after, member =>
    ({ decl with rpcs := before ++ member :: after } : Service)

/-- Any number of blocks inside each other, with a gap in the innermost one. -/
inductive Context (inner : DeclKind) : DeclKind → Type
  | here : Context inner inner
  | inside {middle outer : DeclKind} (context : Context inner middle) (frame : Frame middle outer) :
    Context inner outer

namespace Context

variable {inner : DeclKind}

def depth : {outer : DeclKind} → Context inner outer → Nat
  | _, .here => 0
  | _, .inside context _ => context.depth + 1

def fill : {outer : DeclKind} → Context inner outer → inner.Decl → outer.Decl
  | _, .here, decl => decl
  | _, .inside context frame, decl => frame.fill (context.fill decl)

end Context

/-- A file with a gap for one of its declarations. -/
inductive Place : DeclKind → Type
  | type (file : SchemaFile) (before after : List TypeDecl) : Place .type
  | extend (file : SchemaFile) (before after : List ExtendBlock) : Place .extend
  | service (file : SchemaFile) (before after : List Service) : Place .service

def Place.fill : {kind : DeclKind} → Place kind → kind.Decl → SchemaFile
  | _, .type file before after, decl => { file with types := before ++ decl :: after }
  | _, .extend file before after, decl => { file with extendBlocks := before ++ decl :: after }
  | _, .service file before after, decl => { file with services := before ++ decl :: after }

/-! ### What filling a gap writes -/

namespace Frame

open Text (Framed Whole)

/-- Declarations of one kind, one after the other, make a section with a gap. -/
theorem framed_flatMap (kind : DeclKind) (before after : List kind.Decl) :
    Framed 0 (@render kind) fun decl => (before ++ decl :: after).flatMap render :=
  Framed.flatMap (fun decl _ => whole_render decl) after

/-- Declarations with blank lines between them do, too. -/
theorem framed_paragraphs (kind : DeclKind) (before after : List kind.Decl) :
    Framed 0 (@render kind) fun decl =>
      Text.paragraphs ((before ++ decl :: after).map render) := by
  have hwhole : ∀ part ∈ before.map render, Whole part := by
    intro part hpart
    obtain ⟨decl, -, rfl⟩ := List.mem_map.mp hpart
    exact whole_render decl
  simpa only [List.map_append, List.map_cons] using
    Framed.paragraphs render_ne_nil hwhole (after.map render)

/-- A declaration in one of the sections of a block is shifted once. -/
theorem framed_block {kind : DeclKind} {content : kind.Decl → Text}
    (h : Framed 0 (@render kind) content) (documentation : String) (header : Text)
    (before after : List Text) :
    Framed 1 (@render kind) fun decl =>
      Text.comment documentation ++ Text.block header (before ++ content decl :: after) :=
  (h.block whole_render render_ne_nil header before after).prepend (Whole.comment documentation)

/-- **One block**: what fills the gap is written one level deeper, and the rest of the block
    does not depend on it. -/
theorem framed {inner outer : DeclKind} (frame : Frame inner outer) :
    Framed 1 (@render inner) fun decl => render (frame.fill decl) := by
  cases frame with
  | enumValue decl before after =>
    simp only [render, fill, TypeDecl.render, EnumDecl.render]
    exact framed_block (framed_flatMap .enumValue before after) _ _ [_] []
  | oneofField decl before after =>
    simp only [render, fill, Oneof.render]
    exact framed_block (framed_flatMap .field before after) _ _ [] []
  | extendField decl before after =>
    simp only [render, fill, ExtendBlock.render]
    exact framed_block (framed_flatMap .field before after) _ _ [] []
  | field core types before after =>
    simp only [render, fill, TypeDecl.render, MessageCore.renderWith]
    exact framed_block (framed_flatMap .field before after) _ _ [_] [_, _, _]
  | oneof core types before after =>
    simp only [render, fill, TypeDecl.render, MessageCore.renderWith]
    exact framed_block (framed_paragraphs .oneof before after) _ _ [_, _] [_, _]
  | range core types before after =>
    simp only [render, fill, TypeDecl.render, MessageCore.renderWith]
    exact framed_block (framed_flatMap .range before after) _ _ [_, _, _] [_]
  | nested core before after =>
    simp only [render, fill, TypeDecl.render, TypeDecl.renderEach_eq_map, MessageCore.renderWith]
    exact framed_block (framed_paragraphs .type before after) _ _ [_, _, _, _] []
  | rpc decl before after =>
    simp only [render, fill, Service.render]
    exact framed_block (framed_flatMap .rpc before after) _ _ [_] []

end Frame

/-- **Any number of blocks**: what fills the gap is written as much deeper as there are
    blocks. -/
theorem Context.framed {inner outer : DeclKind} (context : Context inner outer) :
    Text.Framed context.depth (@render inner) fun decl => render (context.fill decl) := by
  induction context with
  | here =>
    simp only [depth, fill]
    exact .refl _
  | inside context frame ih =>
    simp only [depth, fill]
    exact ih.trans (frame.framed.comp context.fill) whole_render

namespace Place

/-- What fills a gap at the top of a file is one of the parts of the file. -/
theorem exists_parts {kind : DeclKind} (place : Place kind) :
    ∃ before after : List Text, (∀ part ∈ before, Text.Whole part) ∧
      ∀ decl, (place.fill decl).parts = before ++ render decl :: after := by
  -- the parts before the gap are those of a file that ends there
  cases place with
  | type file before after =>
    refine ⟨_, after.map TypeDecl.render ++ file.extendBlocks.map ExtendBlock.render ++
      file.services.map Service.render,
      SchemaFile.whole_parts { file with types := before, extendBlocks := [], services := [] }, ?_⟩
    intro decl
    simp only [SchemaFile.parts, fill, List.map_append, List.map_cons, List.map_nil,
      List.append_nil, List.append_assoc, List.cons_append]
    rfl
  | extend file before after =>
    refine ⟨_, after.map ExtendBlock.render ++ file.services.map Service.render,
      SchemaFile.whole_parts { file with extendBlocks := before, services := [] }, ?_⟩
    intro decl
    simp only [SchemaFile.parts, fill, List.map_append, List.map_cons, List.map_nil,
      List.append_nil, List.append_assoc, List.cons_append]
    rfl
  | service file before after =>
    refine ⟨_, after.map Service.render,
      SchemaFile.whole_parts { file with services := before }, ?_⟩
    intro decl
    simp only [SchemaFile.parts, fill, List.map_append, List.map_cons, List.append_assoc,
      List.cons_append]
    rfl

/-- **The top of a file**: what fills the gap is written as it is. -/
theorem framed {kind : DeclKind} (place : Place kind) :
    Text.Framed 0 (@render kind) fun decl => (place.fill decl).render := by
  obtain ⟨before, after, hbefore, hparts⟩ := place.exists_parts
  simp only [SchemaFile.render, hparts]
  exact Text.Framed.paragraphs render_ne_nil hbefore after

end Place

/-! ### Where the comment of a declaration stands -/

/-- The lines of a framed declaration: lines that do not depend on it, its comment, and
    directly after that the declaration without its documentation. -/
theorem Text.Framed.exists_splitOn {kind : DeclKind} {depth : Nat} {outer : kind.Decl → Text}
    (h : Framed depth (@render kind) outer) :
    ∃ (before : List Text) (after : Text), ∀ decl,
      (outer decl).splitOn '\n' = before ++ (commentLines depth (documentation decl) ++
        (indent^[depth] (bare decl) ++ after).splitOn '\n') := by
  obtain ⟨start, after, hstart, houter⟩ := h
  obtain ⟨before, hbefore⟩ := hstart.splitOn_append
  refine ⟨before, after, fun decl => ?_⟩
  rw [houter, hbefore, DeclKind.render_eq, (Whole.comment _).iterate_indent_append,
    List.append_assoc, splitOn_iterate_indent_comment]

/-- **Comments of nested declarations.**  A declaration with any documentation stands inside
    any number of blocks, in a larger declaration or in a file.  Of the lines of the text, cut at
    its line feeds, neither those before its comment nor the text after it depend on it.  Between
    them stand its comment and, directly after the comment, the declaration itself.  The comment
    is one line for each line of the documentation, with two spaces for each block; it is verbatim
    if and only if there is no block around the declaration or no line of the documentation ends
    in a carriage return. -/
theorem comments_at_depth {inner outer : DeclKind} (context : Context inner outer) :
    (∃ (before : List Text) (after : Text), ∀ decl : inner.Decl,
      (render (context.fill decl)).splitOn '\n' =
        before ++ (commentLines context.depth (documentation decl) ++
          (Text.indent^[context.depth] (bare decl) ++ after).splitOn '\n')) ∧
    (∀ place : Place outer, ∃ (before : List Text) (after : Text), ∀ decl : inner.Decl,
      (place.fill (context.fill decl)).render.splitOn '\n' =
        before ++ (commentLines context.depth (documentation decl) ++
          (Text.indent^[context.depth] (bare decl) ++ after).splitOn '\n')) ∧
    ∀ text : String, commentLines context.depth text = verbatimLines context.depth text ↔
      context.depth = 0 ∨ ∀ line ∈ Text.lines text.toList, line.getLast? ≠ some '\r' := by
  refine ⟨context.framed.exists_splitOn, ?_, fun text => commentLines_eq_verbatimLines_iff⟩
  intro place
  have hplace := context.framed.trans (place.framed.comp context.fill) DeclKind.whole_render
  exact hplace.exists_splitOn

/-- A message that has only a gap for a field. -/
def shelf : Context .field .type :=
  .inside .here (.field
    { name := ⟨"Shelf", by decide⟩
      qualifiedName := ""
      documentation := ""
      settings := []
      fields := []
      oneofs := []
      extensionRanges := [] } [] [] [])

/-- A field with the given documentation. -/
def widthField (documentation : String) : Field :=
  ⟨.singular, ⟨"int32", by decide⟩, ⟨"width", by decide⟩, 1, documentation, []⟩

/-- **A carriage return is lost inside a block.**  The comments of nested declarations are not
    verbatim for every documentation: the line `a` with a carriage return after it, as the
    documentation of a field, is written without the carriage return. -/
theorem comments_not_verbatim :
    ¬ ∀ (inner outer : DeclKind) (context : Context inner outer) (decl : inner.Decl),
      ∃ before after : List Text, (render (context.fill decl)).splitOn '\n' =
        before ++ (verbatimLines context.depth (documentation decl) ++ after) := by
  intro hall
  obtain ⟨before, after, hlines⟩ := hall .field .type shelf (widthField "a\r")
  have hverbatim : verbatimLines shelf.depth "a\r" = ["  // a\r".toList] := by decide
  have hmem : "  // a\r".toList ∈
      (render (shelf.fill (widthField "a\r"))).splitOn '\n' := by
    rw [hlines]
    simp [documentation, widthField, hverbatim]
  exact absurd hmem (by decide)

end WireSchema
