/-
  WireSchema/Proofs/BlankLines.lean
  =================================
  **Blank lines are exactly the separators.**  The blank lines of a rendered file are
  those that the layout puts between two parts.  No documentation, string value, empty
  map or empty token adds one, and none gets lost on the way through the blocks.

  The lines of every declaration are followed through its layout: `Line.Part` says how
  many of them are blank and that the declaration starts and ends well.  This needs no
  assumption about names and tokens.  What the lines have to do with the text does:

    * a file without its documentation is written with the lines of its layout, since
      no name and no token breaks a line (`LaidOut`);
    * the file itself has comment lines in addition (`Text.Annotates`), which do not
      count as blank and do not move blank lines to where they must not be.
-/
import WireSchema.Proofs.Spacing
import WireSchema.Proofs.Indentation
import WireSchema.Proofs.Undocumented

namespace WireSchema

open Line (Spaced Part)

/-! ### Options -/

namespace SettingValue

/-- The lines of a value that stands after `lead` and before `trail`: none of them is
    blank, the first one starts with the lead and the last one ends with the trail. -/
structure Between (depth : Nat) (lead trail : Text) (lines : List Line) : Prop where
  solid : ∀ line ∈ lines, line.body ≠ []
  starts : lead ≠ [] → ∃ content rest, lines = .text depth (lead ++ content) :: rest
  ends : trail ≠ [] → ∃ start content, lines = start ++ [.text depth (content ++ trail)]

theorem between_line {depth : Nat} {lead content trail : Text}
    (hne : lead ++ content ++ trail ≠ []) :
    Between depth lead trail [.text depth (lead ++ content ++ trail)] := by
  refine ⟨?_, ?_, ?_⟩
  · intro line hline
    obtain rfl := List.mem_singleton.mp hline
    exact List.append_ne_nil_of_right_ne_nil _ hne
  · intro _
    exact ⟨content ++ trail, [], by simp⟩
  · intro _
    exact ⟨[], lead ++ content, rfl⟩

theorem between_filled (depth : Nat) (lead content trail : Text) :
    Between depth lead trail (Line.filled depth (lead ++ content ++ trail)) := by
  unfold Line.filled
  split
  · rename_i hempty
    simp only [List.isEmpty_iff, List.append_eq_nil_iff] at hempty
    exact ⟨by simp, fun hlead => absurd hempty.1.1 hlead, fun htrail => absurd hempty.2 htrail⟩
  · rename_i hne
    exact between_line (by simpa using hne)

theorem between_enclosed (depth : Nat) (lead trail : Text) (opening closing : Char)
    {inner : List Line} (hinner : ∀ line ∈ inner, line.body ≠ []) :
    Between depth lead trail (.text depth (lead ++ [opening]) :: inner ++
      [.text depth ([closing] ++ trail)]) := by
  refine ⟨?_, ?_, ?_⟩
  · rw [List.forall_mem_append, List.forall_mem_cons, List.forall_mem_singleton]
    exact ⟨⟨by simp [Line.body], hinner⟩, by simp [Line.body]⟩
  · intro _
    exact ⟨[opening], _, rfl⟩
  · intro _
    exact ⟨_, [closing], rfl⟩

mutual

theorem between_layout (depth : Nat) : ∀ (value : SettingValue) (lead trail : Text),
    Between depth lead trail (value.layout depth lead trail)
  | .string text, lead, trail => between_filled depth lead (Text.quoted text) trail
  | .identifier text, lead, trail => between_filled depth lead text.toList trail
  | .integer value, lead, trail => between_filled depth lead (Text.ofInt value.toInt) trail
  | .float text, lead, trail => between_filled depth lead text.toList trail
  | .boolean true, lead, trail => between_filled depth lead "true".toList trail
  | .boolean false, lead, trail => between_filled depth lead "false".toList trail
  | .nested name custom value, lead, trail => by
    -- the lead of the value starts with the lead of the setting
    obtain ⟨hsolid, hstarts, hends⟩ :=
      between_layout depth value (lead ++ heading name custom ++ joint value) trail
    rw [layout]
    refine ⟨hsolid, ?_, hends⟩
    intro hlead
    obtain ⟨content, rest, hlayout⟩ := hstarts (by simp [hlead])
    refine ⟨heading name custom ++ joint value ++ content, rest, ?_⟩
    rw [hlayout]
    simp only [List.append_assoc]
  | .map entries, lead, trail => by
    rw [layout]
    split
    · exact between_line (by simp)
    · exact between_enclosed depth lead trail _ _ (solid_layoutEntries (depth + 1) entries)
  | .list values, lead, trail => by
    rw [layout]
    split
    · exact between_line (by simp)
    · exact between_enclosed depth lead trail _ _ (solid_layoutEach (depth + 1) values)

theorem solid_layoutEntries (depth : Nat) : ∀ entries : List (String × SettingValue),
    ∀ line ∈ layoutEntries depth entries, line.body ≠ []
  | [] => by simp [layoutEntries]
  | (key, value) :: entries => by
    rw [layoutEntries, List.forall_mem_append]
    exact ⟨(between_layout depth value _ _).solid, solid_layoutEntries depth entries⟩

theorem solid_layoutEach (depth : Nat) : ∀ values : List SettingValue,
    ∀ line ∈ layoutEach depth values, line.body ≠ []
  | [] => by simp [layoutEach]
  | value :: values => by
    rw [layoutEach, List.forall_mem_append]
    exact ⟨(between_layout depth value _ _).solid, solid_layoutEach depth values⟩

end

end SettingValue

namespace Setting

/-- A setting is a statement without blank lines, even if empty maps, lists and tokens are
    in it. -/
theorem part_statement (depth : Nat) (setting : Setting) :
    Part (setting.layout depth "option ".toList ";".toList) 0 := by
  obtain ⟨hsolid, hstarts, hends⟩ :=
    setting.toValue.between_layout depth "option ".toList ";".toList
  obtain ⟨content, rest, hfirst⟩ := hstarts (by decide)
  obtain ⟨start, content', hlast⟩ := hends (by decide)
  rw [layout]
  refine ⟨.solid hsolid ?_ ?_, ?_⟩
  · rw [hfirst]
    intro line hline
    obtain rfl : _ = line := by simpa using hline
    exact Line.begins_text (c := 'o') (by simp) (by decide) (by decide)
  · rw [hlast]
    intro line hline
    obtain rfl : _ = line := by simpa using hline
    exact Line.finishes_text depth content' (by decide)
  · rw [hfirst]
    exact List.cons_ne_nil _ _

theorem spaced_statements (depth : Nat) (settings : List Setting) :
    Spaced (layoutStatements depth settings) 0 ∧
      (layoutStatements depth settings).isEmpty = settings.isEmpty :=
  Part.flatMap fun setting _ => setting.part_statement depth

theorem solid_layoutItems (depth : Nat) (settings : List Setting) :
    ∀ line ∈ layoutItems depth settings, line.body ≠ [] := by
  induction settings with
  | nil => simp [layoutItems]
  | cons setting settings ih =>
    rw [layoutItems, List.forall_mem_append]
    exact ⟨(setting.toValue.between_layout depth _ _).solid, ih⟩

/-- A member has no blank line, however many lines its settings take. -/
theorem part_member (depth : Nat) {declared : Text} (h : '=' ∈ declared)
    (settings : List Setting) : Part (layoutMember depth declared settings) 0 := by
  have hbegins : ∀ trail : Text, Text.Begins (Line.text depth (declared ++ trail)).body :=
    fun trail => Line.begins_text (c := '=') (by simp [h]) (by decide) (by decide)
  have hfinishes : Text.Finishes (Line.text depth "];".toList).body :=
    Line.finishes_text depth [']'] (by decide)
  unfold layoutMember
  split
  · exact Part.statement depth declared
  · refine ⟨.solid ?_ ?_ ?_, by simp⟩
    · rw [List.forall_mem_append, List.forall_mem_cons, List.forall_mem_singleton]
      exact ⟨⟨(hbegins _).1, solid_layoutItems (depth + 1) settings⟩, hfinishes.1⟩
    · simpa using hbegins " [".toList
    · rw [List.getLast?_concat]
      simpa using hfinishes

end Setting

/-! ### Enums, fields and extensions -/

theorem EnumValue.part (depth : Nat) (value : EnumValue) : Part (value.layout depth) 0 :=
  (Setting.part_member depth (by simp) value.settings).documented value.documentation

/-- The blank lines of an enum: one, if there is something on both sides of it. -/
def EnumDecl.blanks (decl : EnumDecl) : Nat :=
  if decl.settings ≠ [] ∧ decl.values ≠ [] then 1 else 0

theorem EnumDecl.part (depth : Nat) (decl : EnumDecl) : Part (decl.layout depth) decl.blanks := by
  obtain ⟨hsettings, hnoSettings⟩ := Setting.spaced_statements (depth + 1) decl.settings
  obtain ⟨hvalues, hnoValues⟩ := Part.flatMap fun value (_ : value ∈ decl.values) =>
    value.part (depth + 1)
  have hall := Part.block depth ("enum ".toList ++ decl.name.text.toList)
    (.cons hsettings (.cons hvalues .nil))
  have hcount : decl.blanks = [decl.settings.isEmpty, decl.values.isEmpty].count false - 1 := by
    unfold blanks
    cases decl.settings <;> cases decl.values <;> rfl
  simp only [List.map_cons, List.map_nil, hnoSettings, hnoValues, ← hcount, List.sum_cons,
    List.sum_nil, Nat.zero_add] at hall
  exact hall.documented decl.documentation

theorem Field.part (depth : Nat) (field : Field) : Part (field.layout depth) 0 :=
  (Setting.part_member depth (by simp [declared]) field.settings).documented field.documentation

theorem Field.spaced_flatMap (depth : Nat) (fields : List Field) :
    Spaced (fields.flatMap (layout depth)) 0 ∧
      (fields.flatMap (layout depth)).isEmpty = fields.isEmpty :=
  Part.flatMap fun field _ => field.part depth

theorem Oneof.part (depth : Nat) (oneof : Oneof) : Part (oneof.layout depth) 0 :=
  (Part.block_single depth _ (Field.spaced_flatMap (depth + 1) oneof.fields).1).documented
    oneof.documentation

theorem ExtensionRange.part (depth : Nat) (range : ExtensionRange) :
    Part (range.layout depth) 0 :=
  (Part.statement depth _).documented range.documentation

theorem ExtendBlock.part (depth : Nat) (extend : ExtendBlock) : Part (extend.layout depth) 0 :=
  (Part.block_single depth _ (Field.spaced_flatMap (depth + 1) extend.fields).1).documented
    extend.documentation

/-! ### Types -/

/-- The blank lines of a message whose nested types have `counts` blank lines: those
    between its sections, between its oneofs and between its nested types, and those
    inside of the nested types. -/
def MessageCore.blanksWith (core : MessageCore) (counts : List Nat) : Nat :=
  ([core.settings.isEmpty, core.fields.isEmpty, core.oneofs.isEmpty,
      core.extensionRanges.isEmpty, counts.isEmpty].count false - 1) +
    (core.oneofs.length - 1) + (counts.length - 1) + counts.sum

theorem MessageCore.part (depth : Nat) (core : MessageCore) {nested : List (List Line)}
    {counts : List Nat} (hnested : List.Forall₂ Part nested counts) :
    Part (core.layoutWith depth nested) (core.blanksWith counts) := by
  have honeofs : List.Forall₂ Part (core.oneofs.map (Oneof.layout (depth + 1)))
      (core.oneofs.map fun _ => 0) := by
    rw [List.forall₂_map_left_iff, List.forall₂_map_right_iff]
    exact List.forall₂_same.mpr fun oneof _ => oneof.part (depth + 1)
  obtain ⟨hsettings, hnoSettings⟩ := Setting.spaced_statements (depth + 1) core.settings
  obtain ⟨hfields, hnoFields⟩ := Field.spaced_flatMap (depth + 1) core.fields
  obtain ⟨hgroups, hnoGroups⟩ := Part.paragraphs honeofs
  obtain ⟨hranges, hnoRanges⟩ := Part.flatMap fun range (_ : range ∈ core.extensionRanges) =>
    range.part (depth + 1)
  obtain ⟨htypes, hnoTypes⟩ := Part.paragraphs hnested
  have hall := Part.block depth ("message ".toList ++ core.name.text.toList)
    (.cons hsettings (.cons hfields (.cons hgroups (.cons hranges (.cons htypes .nil)))))
  simp only [List.map_cons, List.map_nil, hnoSettings, hnoFields, hnoGroups, hnoRanges, hnoTypes,
    List.isEmpty_map, List.length_map] at hall
  have htotal : [0, 0, (core.oneofs.map fun _ => 0).sum + (core.oneofs.length - 1), 0,
      counts.sum + (counts.length - 1)].sum +
      ([core.settings.isEmpty, core.fields.isEmpty, core.oneofs.isEmpty,
        core.extensionRanges.isEmpty, counts.isEmpty].count false - 1) = core.blanksWith counts := by
    have hnone : (core.oneofs.map fun _ => 0).sum = 0 := by simp
    simp only [blanksWith, List.sum_cons, List.sum_nil, hnone]
    omega
  rw [htotal] at hall
  exact hall.documented core.documentation

namespace TypeDecl

mutual

/-- The number of blank lines in the text of a type. -/
def blanks : TypeDecl → Nat
  | .enum decl => decl.blanks
  | .message core nested => core.blanksWith (blanksEach nested)

def blanksEach : List TypeDecl → List Nat
  | [] => []
  | t :: ts => blanks t :: blanksEach ts

end

mutual

theorem part (depth : Nat) : ∀ t : TypeDecl, Part (t.layout depth) t.blanks
  | .enum decl => by
    rw [layout, blanks]
    exact decl.part depth
  | .message core nested => by
    rw [layout, blanks]
    exact core.part depth (partEach (depth + 1) nested)

theorem partEach (depth : Nat) : ∀ ts : List TypeDecl,
    List.Forall₂ Part (layoutEach depth ts) (blanksEach ts)
  | [] => .nil
  | t :: ts => .cons (part depth t) (partEach depth ts)

end

end TypeDecl

/-! ### Services -/

theorem Rpc.part (depth : Nat) (rpc : Rpc) : Part (rpc.layout depth) 0 := by
  apply Part.documented
  split
  · exact Part.statement depth rpc.signature
  · exact Part.block_single depth _ (Setting.spaced_statements (depth + 1) rpc.settings).1

theorem Service.exists_part (depth : Nat) (service : Service) :
    ∃ n, Part (service.layout depth) n := by
  obtain ⟨hsettings, -⟩ := Setting.spaced_statements (depth + 1) service.settings
  obtain ⟨hrpcs, -⟩ := Part.flatMap fun rpc (_ : rpc ∈ service.rpcs) => rpc.part (depth + 1)
  have hall := Part.block depth ("service ".toList ++ service.name.text.toList)
    (.cons hsettings (.cons hrpcs .nil))
  exact ⟨_, hall.documented service.documentation⟩

/-! ### Texts without documentation -/

/-- The same text, but for a documentation, which is left empty. -/
def TextPart.undocumented (part : TextPart) : TextPart :=
  if part.role = .documentation then ⟨.documentation, ""⟩ else part

theorem TextPart.unbroken_undocumented {part : TextPart}
    (h : part.role ≠ .documentation → Text.Clean part.text.toList) :
    part.undocumented.Unbroken := by
  unfold undocumented
  split
  · simp [Unbroken]
  · rename_i hrole
    obtain ⟨role, text⟩ := part
    cases role with
    | documentation => exact absurd rfl hrole
    | _ => exact h hrole

namespace SettingValue

mutual

theorem role_ne_documentation : ∀ value : SettingValue,
    ∀ part ∈ value.texts, part.role ≠ .documentation
  | .string _ => by simp [texts]
  | .identifier _ => by simp [texts]
  | .integer _ => by simp [texts]
  | .float _ => by simp [texts]
  | .boolean _ => by simp [texts]
  | .nested name custom value => by
    rw [texts, List.forall_mem_cons]
    exact ⟨by simp, role_ne_documentation value⟩
  | .map entries => by
    rw [texts]
    exact roleOfEntries_ne_documentation entries
  | .list values => by
    rw [texts]
    exact roleOfEach_ne_documentation values

theorem roleOfEntries_ne_documentation : ∀ entries : List (String × SettingValue),
    ∀ part ∈ textsOfEntries entries, part.role ≠ .documentation
  | [] => by simp [textsOfEntries]
  | (key, value) :: entries => by
    rw [textsOfEntries, List.cons_append, List.forall_mem_cons, List.forall_mem_append]
    exact ⟨by simp, role_ne_documentation value, roleOfEntries_ne_documentation entries⟩

theorem roleOfEach_ne_documentation : ∀ values : List SettingValue,
    ∀ part ∈ textsOfEach values, part.role ≠ .documentation
  | [] => by simp [textsOfEach]
  | value :: values => by
    rw [textsOfEach, List.forall_mem_append]
    exact ⟨role_ne_documentation value, roleOfEach_ne_documentation values⟩

end

end SettingValue

/-- Settings have no documentation. -/
theorem Setting.map_texts (setting : Setting) :
    setting.texts.map TextPart.undocumented = setting.texts := by
  rw [← List.map_id setting.texts, List.map_map]
  apply List.map_congr_left
  intro part hpart
  exact if_neg (setting.toValue.role_ne_documentation part hpart)

theorem EnumValue.texts_undocumented (value : EnumValue) :
    value.undocumented.texts = value.texts.map TextPart.undocumented := by
  simp [texts, undocumented, TextPart.undocumented, List.map_flatMap, Setting.map_texts]

theorem EnumDecl.texts_undocumented (decl : EnumDecl) :
    decl.undocumented.texts = decl.texts.map TextPart.undocumented := by
  simp [texts, undocumented, TextPart.undocumented, Setting.map_texts, List.flatMap_map,
    List.map_flatMap, EnumValue.texts_undocumented]

theorem Field.texts_undocumented (field : Field) :
    field.undocumented.texts = field.texts.map TextPart.undocumented := by
  simp [texts, undocumented, TextPart.undocumented, List.map_flatMap, Setting.map_texts]

theorem Oneof.texts_undocumented (oneof : Oneof) :
    oneof.undocumented.texts = oneof.texts.map TextPart.undocumented := by
  simp [texts, undocumented, TextPart.undocumented, List.flatMap_map, List.map_flatMap,
    Field.texts_undocumented]

theorem ExtendBlock.texts_undocumented (extend : ExtendBlock) :
    extend.undocumented.texts = extend.texts.map TextPart.undocumented := by
  simp [texts, undocumented, TextPart.undocumented, List.flatMap_map, List.map_flatMap,
    Field.texts_undocumented]

theorem ExtensionRange.texts_undocumented (range : ExtensionRange) :
    range.undocumented.texts = range.texts.map TextPart.undocumented := by
  simp [texts, undocumented, TextPart.undocumented]

theorem MessageCore.texts_undocumented (core : MessageCore) :
    core.undocumented.texts = core.texts.map TextPart.undocumented := by
  simp [texts, undocumented, TextPart.undocumented, Setting.map_texts, List.flatMap_map,
    List.map_flatMap, Field.texts_undocumented, Oneof.texts_undocumented,
    ExtensionRange.texts_undocumented]

namespace TypeDecl

mutual

theorem texts_undocumented : ∀ t : TypeDecl,
    t.undocumented.texts = t.texts.map TextPart.undocumented
  | .enum decl => by
    rw [undocumented, texts, texts, decl.texts_undocumented]
  | .message core nested => by
    rw [undocumented, texts, texts, List.map_append, core.texts_undocumented,
      textsOfEach_undocumentedEach nested]

theorem textsOfEach_undocumentedEach : ∀ ts : List TypeDecl,
    textsOfEach (undocumentedEach ts) = (textsOfEach ts).map TextPart.undocumented
  | [] => rfl
  | t :: ts => by
    rw [undocumentedEach, textsOfEach, textsOfEach, List.map_append, texts_undocumented t,
      textsOfEach_undocumentedEach ts]

end

mutual

/-- Documentation adds no blank lines. -/
theorem blanks_undocumented : ∀ t : TypeDecl, t.undocumented.blanks = t.blanks
  | .enum decl => by
    rw [undocumented, blanks, blanks]
    simp [EnumDecl.blanks, EnumDecl.undocumented]
  | .message core nested => by
    rw [undocumented, blanks, blanks, blanksEach_undocumentedEach nested]
    simp [MessageCore.blanksWith, MessageCore.undocumented]

theorem blanksEach_undocumentedEach : ∀ ts : List TypeDecl,
    blanksEach (undocumentedEach ts) = blanksEach ts
  | [] => rfl
  | t :: ts => by
    rw [undocumentedEach, blanksEach, blanksEach, blanks_undocumented t,
      blanksEach_undocumentedEach ts]

end

mutual

/-- The texts of an inner type are among the texts of the outer one. -/
theorem texts_subset_of_mem_flatten : ∀ t : TypeDecl, ∀ inner ∈ t.flatten, inner.texts ⊆ t.texts
  | .enum decl => by simp [flatten]
  | .message core nested => by
    rw [flatten, List.forall_mem_cons]
    refine ⟨List.Subset.refl _, ?_⟩
    intro inner hinner
    rw [texts]
    exact List.subset_append_of_subset_right _
      (texts_subset_of_mem_flattenAll nested inner hinner)

theorem texts_subset_of_mem_flattenAll : ∀ ts : List TypeDecl,
    ∀ inner ∈ flattenAll ts, inner.texts ⊆ textsOfEach ts
  | [] => by simp [flattenAll]
  | t :: ts => by
    rw [flattenAll, List.forall_mem_append, textsOfEach]
    constructor
    · intro inner hinner
      exact List.subset_append_of_subset_left _ (texts_subset_of_mem_flatten t inner hinner)
    · intro inner hinner
      exact List.subset_append_of_subset_right _
        (texts_subset_of_mem_flattenAll ts inner hinner)

end

/-- The blank lines of a type are counted by `blanks`, whatever its documentation is. -/
theorem count_lines_render {t : TypeDecl}
    (h : ∀ part ∈ t.texts, part.role ≠ .documentation → Text.Clean part.text.toList) :
    (Text.lines t.render).count [] = t.blanks := by
  have hbare : ∀ part ∈ t.undocumented.texts, part.Unbroken := by
    rw [texts_undocumented, List.forall_mem_map]
    exact fun part hpart => TextPart.unbroken_undocumented (h part hpart)
  rw [t.annotates.count_lines, (t.undocumented.laidOut hbare).lines_eq,
    (t.undocumented.part 0).count, blanks_undocumented]

end TypeDecl

theorem Rpc.texts_undocumented (rpc : Rpc) :
    rpc.undocumented.texts = rpc.texts.map TextPart.undocumented := by
  simp [texts, undocumented, TextPart.undocumented, List.map_flatMap, Setting.map_texts]

theorem Service.texts_undocumented (service : Service) :
    service.undocumented.texts = service.texts.map TextPart.undocumented := by
  simp [texts, undocumented, TextPart.undocumented, Setting.map_texts, List.flatMap_map,
    List.map_flatMap, Rpc.texts_undocumented]

/-! ### Files -/

theorem Text.paragraphs_eq_nil_iff {parts : List Text} :
    paragraphs parts = [] ↔ ∀ part ∈ parts, part = [] := by
  have hnone : (parts.filter fun part => !part.isEmpty) = [] ↔ ∀ part ∈ parts, part = [] := by
    simp [List.filter_eq_nil_iff]
  rw [← hnone, paragraphs]
  cases hkept : parts.filter fun part => !part.isEmpty with
  | nil => simp [joinBlank]
  | cons part rest =>
    have hmem : part ∈ parts.filter fun part => !part.isEmpty := by simp [hkept]
    have hne : part ≠ [] := by simpa using List.of_mem_filter hmem
    cases rest <;> simp [joinBlank, hne]

namespace SchemaFile

theorem texts_undocumented (file : SchemaFile) :
    file.undocumented.texts = file.texts.map TextPart.undocumented := by
  simp [texts, undocumented, Setting.map_texts, List.flatMap_map, List.map_flatMap,
    TypeDecl.texts_undocumented, ExtendBlock.texts_undocumented, Service.texts_undocumented]

theorem composed_header {file : SchemaFile} (hpath : Text.Clean file.path.toList)
    (hpackage : ∀ name ∈ file.packageName, Text.Clean name.text.toList) :
    Text.Composed (file.pathLine ++ file.dialectLine ++ file.packageLine) := by
  refine Text.Composed.append (Text.Composed.append ?_ ?_) ?_
  · unfold pathLine
    split
    · exact .nil
    · exact .line (Text.Clean.append (by decide) hpath) (Text.begins_of_isRemark rfl)
        (Text.finishes_of_isRemark rfl)
  · unfold dialectLine
    cases file.dialect with
    | none => exact .nil
    | some dialect =>
      cases dialect with
      | proto2 => exact .statement (by decide : Text.Clean "syntax = \"proto2\"".toList)
      | proto3 => exact .statement (by decide : Text.Clean "syntax = \"proto3\"".toList)
  · unfold packageLine
    cases hname : file.packageName with
    | none => exact .nil
    | some name => exact .statement (Text.Clean.append (by decide) (hpackage name hname))

theorem composed_imports (file : SchemaFile) : Text.Composed file.importLines := by
  apply Text.Composed.append
  · exact Text.Composed.flatMap fun path _ =>
      .statement (Text.Clean.append (by decide) (Text.clean_quoted path))
  · exact Text.Composed.flatMap fun path _ =>
      .statement (Text.Clean.append (by decide) (Text.clean_quoted path))

theorem composed {file : SchemaFile} (h : ∀ part ∈ file.texts, part.Unbroken)
    (hpath : Text.Clean file.path.toList)
    (hpackage : ∀ name ∈ file.packageName, Text.Clean name.text.toList) :
    Text.Composed file.render := by
  simp only [texts, List.forall_mem_append, List.forall_mem_flatMap] at h
  obtain ⟨⟨⟨hsettings, htypes⟩, hextends⟩, hservices⟩ := h
  apply Text.Composed.paragraphs
  simp only [parts, List.forall_mem_cons, List.forall_mem_append, List.forall_mem_map]
  refine ⟨composed_header hpath hpackage, file.composed_imports, ?_, ⟨?_, ?_⟩, ?_⟩
  · exact ⟨_, 0, Setting.laidOut_statements hsettings, (Setting.spaced_statements 0 file.settings).1⟩
  · intro t ht
    exact ⟨_, _, t.laidOut (htypes t ht), (t.part 0).toSpaced⟩
  · intro extend hextend
    exact ⟨_, _, ExtendBlock.laidOut (hextends extend hextend), (extend.part 0).toSpaced⟩
  · intro service hservice
    obtain ⟨n, hpart⟩ := service.exists_part 0
    exact ⟨_, n, Service.laidOut (hservices service hservice), hpart.toSpaced⟩

theorem header_eq_nil {file : SchemaFile}
    (h : file.pathLine ++ file.dialectLine ++ file.packageLine = []) :
    file.path = "" ∧ file.dialect = none ∧ file.packageName = none := by
  simp only [List.append_eq_nil_iff] at h
  obtain ⟨⟨hpath, hdialect⟩, hpackage⟩ := h
  refine ⟨?_, ?_, ?_⟩
  · by_contra hne
    simp [pathLine, hne] at hpath
  · cases hsome : file.dialect with
    | none => rfl
    | some dialect => simp [dialectLine, hsome] at hdialect
  · cases hsome : file.packageName with
    | none => rfl
    | some name => simp [packageLine, hsome] at hpackage

/-- Nothing is written for the empty file, and for no other. -/
theorem render_eq_nil_iff (file : SchemaFile) : file.render = [] ↔ file = empty := by
  have hnone : ∀ {α : Type} {entries : List α} {render : α → Text}, (∀ entry, render entry ≠ []) →
      (∀ entry ∈ entries, render entry = []) → entries = [] := by
    intro α entries render hne h
    exact List.eq_nil_iff_forall_not_mem.mpr fun entry hentry => hne entry (h entry hentry)
  rw [render, Text.paragraphs_eq_nil_iff]
  constructor
  · intro h
    simp only [parts, List.forall_mem_cons, List.forall_mem_append, List.forall_mem_map] at h
    obtain ⟨hheader, himports, hsettings, ⟨htypes, hextends⟩, hservices⟩ := h
    obtain ⟨hpath, hdialect, hpackage⟩ := header_eq_nil hheader
    obtain ⟨hplain, hpublic⟩ := List.append_eq_nil_iff.mp himports
    have hplainNil := hnone (by simp) (List.flatMap_eq_nil_iff.mp hplain)
    have hpublicNil := hnone (by simp) (List.flatMap_eq_nil_iff.mp hpublic)
    have hsettingsNil := hnone (by simp) (List.flatMap_eq_nil_iff.mp hsettings)
    have htypesNil := hnone TypeDecl.render_ne_nil htypes
    have hextendsNil := hnone (fun _ => Text.documented_ne_nil _ _ _) hextends
    have hservicesNil := hnone (fun _ => Text.documented_ne_nil _ _ _) hservices
    cases file
    rw [empty, mk.injEq]
    exact ⟨hpath, hpackage, hdialect, hplainNil, hpublicNil, htypesNil, hservicesNil, hextendsNil,
      hsettingsNil⟩
  · rintro rfl
    decide

/-- **Blank lines are exactly the separators.**  Suppose that names, tokens, the package and
    the path of the file have no line ends in them; documentation and string values may be
    anything.  Then only the empty file is written as nothing, every other one is written
    well spaced, and each of its types, at every depth, has as many blank lines as `blanks`
    says. -/
theorem blank_lines_separate (file : SchemaFile)
    (h : ∀ part ∈ file.texts, part.role ≠ .documentation → Text.Clean part.text.toList)
    (hpath : Text.Clean file.path.toList)
    (hpackage : ∀ name ∈ file.packageName, Text.Clean name.text.toList) :
    (file.render = [] ↔ file = empty) ∧
      (file ≠ empty → Text.WellSpaced file.render) ∧
      ∀ t ∈ file.allTypes, (Text.lines t.render).count [] = t.blanks := by
  have hbare : ∀ part ∈ file.undocumented.texts, part.Unbroken := by
    rw [texts_undocumented, List.forall_mem_map]
    exact fun part hpart => TextPart.unbroken_undocumented (h part hpart)
  refine ⟨file.render_eq_nil_iff, ?_, ?_⟩
  · intro hne
    exact file.annotates.wellSpaced (composed hbare hpath hpackage)
      (mt file.render_eq_nil_iff.mp hne)
  · intro t ht
    have htexts : TypeDecl.textsOfEach file.types ⊆ file.texts := by
      rw [TypeDecl.textsOfEach_eq_flatMap, texts]
      intro part hpart
      simp [hpart]
    apply TypeDecl.count_lines_render
    intro part hpart
    exact h part (htexts (TypeDecl.texts_subset_of_mem_flattenAll file.types t ht hpart))

/-- A message with all five sections, two oneofs and two nested types.  Its documentation
    has empty lines, braces and carriage returns in it, and one of its settings has values
    that are written as nothing. -/
def terrace : TypeDecl :=
  .message
    { name := ⟨"Terrace", by decide⟩
      qualifiedName := ""
      documentation := "\n\nsteps \x7b\n\r"
      settings := [⟨⟨"plan", by decide⟩, true, .map [("a", .list [.identifier ""]), ("b", .map []),
        ("c", .string "\n\n\x7d")]⟩]
      fields := [⟨.singular, ⟨"sint32", by decide⟩, ⟨"level", by decide⟩, 1, "\x7d", []⟩]
      oneofs := [⟨⟨"left", by decide⟩, "\r\r\n", []⟩, ⟨⟨"right", by decide⟩, "", []⟩]
      extensionRanges := [ExtensionRange.single "\x7b" 7] }
    [.enum
      { name := ⟨"Plant", by decide⟩
        qualifiedName := ""
        documentation := ""
        settings := [⟨⟨"allow_alias", by decide⟩, false, .boolean true⟩]
        values := [⟨⟨"VINE", by decide⟩, 0, "", []⟩] },
     .message
      { name := ⟨"Wall", by decide⟩
        qualifiedName := ""
        documentation := "\x7d"
        settings := []
        fields := []
        oneofs := []
        extensionRanges := [] }
      []]

/-- A file whose path ends in an opening brace. -/
def terraced : SchemaFile where
  path := "steps \x7b"
  packageName := some ⟨"garden", by decide⟩
  types := [terrace]

theorem blank_lines_terraced :
    (∀ part ∈ terraced.texts, part.role ≠ .documentation → Text.Clean part.text.toList) ∧
    Text.Clean terraced.path.toList ∧
    (∀ name ∈ terraced.packageName, Text.Clean name.text.toList) ∧
    Text.WellSpaced terraced.render ∧
    terrace ∈ terraced.allTypes ∧ (Text.lines terrace.render).count [] = 7 := by
  have htexts : ∀ part ∈ terraced.texts, part.role ≠ .documentation →
      Text.Clean part.text.toList := by decide
  have hpath : Text.Clean terraced.path.toList := by decide
  have hpackage : ∀ name ∈ terraced.packageName, Text.Clean name.text.toList := by
    rintro name hname
    obtain rfl := Option.some.inj hname
    decide
  obtain ⟨-, hspaced, hcount⟩ := blank_lines_separate terraced htexts hpath hpackage
  have hmem : terrace ∈ terraced.allTypes := by
    simp [allTypes, terraced, TypeDecl.flattenAll, TypeDecl.flatten_eq]
  exact ⟨htexts, hpath, hpackage, hspaced (by decide), hmem, (hcount terrace hmem).trans (by decide)⟩

end SchemaFile

end WireSchema
