/-
  WireSchema/Proofs/Undocumented.lean
  ===================================
  **Documentation is only ever comment text.**  A file without its documentation is
  written as the file is, with comment lines left out and nothing else changed.  So the
  code lines of a file do not depend on its documentation, whatever characters are in
  it, and whatever characters are in names, tokens and option values.

  Every declaration is related to itself without documentation by `Text.Annotates`, and
  a declaration that holds others is put together from parts that are so related.  No
  declaration is written as nothing at all; this is why a section with documentation is
  empty only if the section without it is.
-/
import WireSchema.Proofs.CodeLines

namespace WireSchema

open Text (Annotates)

/-! ### Declarations without documentation -/

def EnumValue.undocumented (value : EnumValue) : EnumValue := { value with documentation := "" }

def EnumDecl.undocumented (decl : EnumDecl) : EnumDecl :=
  { decl with documentation := "", values := decl.values.map EnumValue.undocumented }

def Field.undocumented (field : Field) : Field := { field with documentation := "" }

def Oneof.undocumented (oneof : Oneof) : Oneof :=
  { oneof with documentation := "", fields := oneof.fields.map Field.undocumented }

def ExtensionRange.undocumented (range : ExtensionRange) : ExtensionRange :=
  { range with documentation := "" }

def ExtendBlock.undocumented (extend : ExtendBlock) : ExtendBlock :=
  { extend with documentation := "", fields := extend.fields.map Field.undocumented }

def MessageCore.undocumented (core : MessageCore) : MessageCore :=
  { core with
    documentation := ""
    fields := core.fields.map Field.undocumented
    oneofs := core.oneofs.map Oneof.undocumented
    extensionRanges := core.extensionRanges.map ExtensionRange.undocumented }

namespace TypeDecl

mutual

/-- The type without its documentation and that of everything declared inside it. -/
def undocumented : TypeDecl → TypeDecl
  | .enum decl => .enum decl.undocumented
  | .message core nested => .message core.undocumented (undocumentedEach nested)

def undocumentedEach : List TypeDecl → List TypeDecl
  | [] => []
  | t :: ts => undocumented t :: undocumentedEach ts

end

end TypeDecl

def Rpc.undocumented (rpc : Rpc) : Rpc := { rpc with documentation := "" }

def Service.undocumented (service : Service) : Service :=
  { service with documentation := "", rpcs := service.rpcs.map Rpc.undocumented }

/-- The file without the documentation of its declarations.  The comment with the path
    of the file is no documentation. -/
def SchemaFile.undocumented (file : SchemaFile) : SchemaFile :=
  { file with
    types := file.types.map TypeDecl.undocumented
    services := file.services.map Service.undocumented
    extendBlocks := file.extendBlocks.map ExtendBlock.undocumented }

/-! ### Statements and members -/

namespace Text.Annotates

/-- A statement that ends in a semicolon and a line feed. -/
theorem statement (text : Text) : Annotates (text ++ [';', '\n']) (text ++ [';', '\n']) := by
  have hall := ended (text ++ [';'])
  rwa [List.append_assoc] at hall

/-- A member stays a statement when its documentation is left out. -/
theorem member (documentation : String) (text : Text) :
    Annotates (Text.comment documentation ++ (text ++ [';', '\n'])) (text ++ [';', '\n']) :=
  comment (by simp) (statement text)

/-- A block stays a block when its documentation is left out, and the documentation
    inside it. -/
theorem documentedBlock (documentation : String) (header : Text) {sections bares : List Text}
    (h : List.Forall₂ Annotates sections bares) :
    Annotates (Text.comment documentation ++ Text.block header sections)
      (Text.block header bares) :=
  comment (block_ne_nil header bares) (block header h)

/-- Declarations of one kind, one after the other. -/
theorem flatMap_map {α : Type} {entries : List α} {render : α → Text} {bare : α → α}
    (h : ∀ entry ∈ entries, Annotates (render entry) (render (bare entry))) :
    Annotates (entries.flatMap render) ((entries.map bare).flatMap render) := by
  rw [List.flatMap_map]
  exact flatMap h

theorem forall₂_map {α : Type} {entries : List α} {render : α → Text} {bare : α → α}
    (h : ∀ entry ∈ entries, Annotates (render entry) (render (bare entry))) :
    List.Forall₂ Annotates (entries.map render) ((entries.map bare).map render) := by
  rw [List.map_map, List.forall₂_map_left_iff, List.forall₂_map_right_iff]
  exact List.forall₂_same.mpr h

end Text.Annotates

/-- A declaration with a body is written, even if it is empty. -/
theorem Text.documented_ne_nil (documentation : String) (header : Text) (sections : List Text) :
    comment documentation ++ block header sections ≠ [] :=
  List.append_ne_nil_of_right_ne_nil _ (Annotates.block_ne_nil header sections)

theorem TypeDecl.render_ne_nil (t : TypeDecl) : t.render ≠ [] := by
  cases t with
  | enum decl =>
    rw [render]
    exact Text.documented_ne_nil _ _ _
  | message core nested =>
    rw [render]
    exact Text.documented_ne_nil _ _ _

theorem Setting.annotates_statements (settings : List Setting) :
    Annotates (statements settings) (statements settings) :=
  Annotates.flatMap fun setting _ => Annotates.statement ("option ".toList ++ setting.render)

/-! ### Declarations -/

theorem EnumValue.annotates (value : EnumValue) :
    Annotates value.render value.undocumented.render := by
  have hall := Annotates.member value.documentation
    (value.name.text.toList ++ " = ".toList ++ Text.ofInt value.tag.toInt ++
      Setting.inline value.settings)
  simpa [render, undocumented] using hall

theorem EnumDecl.annotates (decl : EnumDecl) :
    Annotates decl.render decl.undocumented.render := by
  have hvalues : Annotates (decl.values.flatMap EnumValue.render)
      (decl.undocumented.values.flatMap EnumValue.render) :=
    Annotates.flatMap_map fun value _ => value.annotates
  have hsections := Annotates.documentedBlock decl.documentation
    ("enum ".toList ++ decl.name.text.toList)
    (.cons (Setting.annotates_statements decl.settings) (.cons hvalues .nil))
  simpa [render, undocumented] using hsections

theorem Field.annotates (field : Field) : Annotates field.render field.undocumented.render := by
  have hall := Annotates.member field.documentation
    (field.label.lead ++ field.typeRef.text.toList ++ ' ' :: field.name.text.toList ++
      " = ".toList ++ Text.ofInt field.tag.toInt ++ Setting.inline field.settings)
  simpa [render, undocumented] using hall

theorem Field.annotates_flatMap (fields : List Field) :
    Annotates (fields.flatMap render) ((fields.map undocumented).flatMap render) :=
  Annotates.flatMap_map fun field _ => field.annotates

theorem Oneof.annotates (oneof : Oneof) : Annotates oneof.render oneof.undocumented.render := by
  have hsections := Annotates.documentedBlock oneof.documentation
    ("oneof ".toList ++ oneof.name.text.toList)
    (.cons (Field.annotates_flatMap oneof.fields) .nil)
  simpa [render, undocumented] using hsections

theorem ExtensionRange.annotates (range : ExtensionRange) :
    Annotates range.render range.undocumented.render := by
  have htail : range.undocumented.tail = range.tail := rfl
  have hall := Annotates.member range.documentation
    ("extensions ".toList ++ Text.ofInt range.first.toInt ++ range.tail)
  rw [render, render, htail]
  simpa [undocumented] using hall

theorem ExtendBlock.annotates (extend : ExtendBlock) :
    Annotates extend.render extend.undocumented.render := by
  have hsections := Annotates.documentedBlock extend.documentation
    ("extend ".toList ++ extend.name.text.toList)
    (.cons (Field.annotates_flatMap extend.fields) .nil)
  simpa [render, undocumented] using hsections

/-- A message, given what its nested types are written as with and without their
    documentation. -/
theorem MessageCore.annotates (core : MessageCore) {nested bares : List Text}
    (hnested : List.Forall₂ Annotates nested bares) :
    Annotates (core.renderWith nested) (core.undocumented.renderWith bares) := by
  have honeofs : Annotates (Text.paragraphs (core.oneofs.map Oneof.render))
      (Text.paragraphs (core.undocumented.oneofs.map Oneof.render)) :=
    Annotates.paragraphs (Annotates.forall₂_map fun oneof _ => oneof.annotates)
  have hranges : Annotates (core.extensionRanges.flatMap ExtensionRange.render)
      (core.undocumented.extensionRanges.flatMap ExtensionRange.render) :=
    Annotates.flatMap_map fun range _ => range.annotates
  have hsections := Annotates.documentedBlock core.documentation
    ("message ".toList ++ core.name.text.toList)
    (.cons (Setting.annotates_statements core.settings)
      (.cons (Field.annotates_flatMap core.fields)
        (.cons honeofs (.cons hranges (.cons (Annotates.paragraphs hnested) .nil)))))
  simpa [renderWith, undocumented] using hsections

namespace TypeDecl

mutual

theorem annotates : ∀ t : TypeDecl, Annotates t.render t.undocumented.render
  | .enum decl => by
    rw [undocumented, render, render]
    exact decl.annotates
  | .message core nested => by
    rw [undocumented, render, render]
    exact core.annotates (annotatesEach nested)

theorem annotatesEach : ∀ ts : List TypeDecl,
    List.Forall₂ Annotates (renderEach ts) (renderEach (undocumentedEach ts))
  | [] => .nil
  | t :: ts => .cons (annotates t) (annotatesEach ts)

end

end TypeDecl

theorem Rpc.annotates (rpc : Rpc) : Annotates rpc.render rpc.undocumented.render := by
  have hsignature : rpc.undocumented.signature = rpc.signature := rfl
  have hsettings : rpc.undocumented.settings = rpc.settings := rfl
  rw [render, render, hsignature, hsettings]
  cases rpc.settings with
  | nil => simpa [undocumented] using Annotates.member rpc.documentation rpc.signature
  | cons setting settings =>
    have hsections := Annotates.documentedBlock rpc.documentation rpc.signature
      (.cons (Setting.annotates_statements (setting :: settings)) .nil)
    simpa [undocumented] using hsections

theorem Service.annotates (service : Service) :
    Annotates service.render service.undocumented.render := by
  have hrpcs : Annotates (service.rpcs.flatMap Rpc.render)
      (service.undocumented.rpcs.flatMap Rpc.render) :=
    Annotates.flatMap_map fun rpc _ => rpc.annotates
  have hsections := Annotates.documentedBlock service.documentation
    ("service ".toList ++ service.name.text.toList)
    (.cons (Setting.annotates_statements service.settings) (.cons hrpcs .nil))
  simpa [render, undocumented] using hsections

/-! ### Files -/

namespace SchemaFile

/-- The header of a file has no documentation, but it may hold anything else. -/
theorem annotates_header (file : SchemaFile) :
    Annotates (file.pathLine ++ file.dialectLine ++ file.packageLine)
      (file.pathLine ++ file.dialectLine ++ file.packageLine) := by
  have hpath : Annotates file.pathLine file.pathLine := by
    unfold pathLine
    split
    · exact .nil
    · exact Annotates.ended ("// ".toList ++ file.path.toList)
  have hdialect : Annotates file.dialectLine file.dialectLine := by
    unfold dialectLine
    cases file.dialect with
    | none => exact .nil
    | some dialect =>
      have hall :=
        Annotates.statement ("syntax = \"".toList ++ dialect.text.toList ++ "\"".toList)
      rwa [List.append_assoc] at hall
  have hpackage : Annotates file.packageLine file.packageLine := by
    unfold packageLine
    cases file.packageName with
    | none => exact .nil
    | some name => exact Annotates.statement ("package ".toList ++ name.text.toList)
  exact (hpath.append hdialect).append hpackage

theorem annotates_imports (file : SchemaFile) :
    Annotates file.importLines file.importLines := by
  apply Annotates.append
  · exact Annotates.flatMap fun path _ => Annotates.statement ("import ".toList ++ Text.quoted path)
  · exact Annotates.flatMap fun path _ =>
      Annotates.statement ("import public ".toList ++ Text.quoted path)

theorem annotates (file : SchemaFile) : Annotates file.render file.undocumented.render := by
  have htypes := @Annotates.forall₂_map _ file.types TypeDecl.render TypeDecl.undocumented
    fun t _ => t.annotates
  have hextends := @Annotates.forall₂_map _ file.extendBlocks ExtendBlock.render
    ExtendBlock.undocumented fun extend _ => extend.annotates
  have hservices := @Annotates.forall₂_map _ file.services Service.render Service.undocumented
    fun service _ => service.annotates
  apply Annotates.paragraphs
  refine .cons file.annotates_header (.cons file.annotates_imports
    (.cons (Setting.annotates_statements file.settings) ?_))
  exact List.rel_append (List.rel_append htypes hextends) hservices

/-- **Documentation is only ever comment text.**  Leaving out all documentation does not
    change the code lines of a file, and so two files that differ in documentation only
    have the same code lines. -/
theorem codeLines_render_undocumented (file : SchemaFile) :
    Text.codeLines file.render = Text.codeLines file.undocumented.render ∧
      ∀ other : SchemaFile, other.undocumented = file.undocumented →
        Text.codeLines other.render = Text.codeLines file.render := by
  refine ⟨file.annotates.codeLines_eq, ?_⟩
  intro other hsame
  rw [other.annotates.codeLines_eq, hsame, file.annotates.codeLines_eq]

/-- A file with the given documentation on a message, on a type inside it and on a field
    there.  The name of the field has a line in it that looks like a comment. -/
def commented (outer inner field : String) : SchemaFile where
  path := "a.proto"
  types :=
    [.message
      { name := ⟨"Parcel", by decide⟩
        qualifiedName := ""
        documentation := outer
        settings := []
        fields := []
        oneofs := []
        extensionRanges := [] }
      [.message
        { name := ⟨"Sticker", by decide⟩
          qualifiedName := ""
          documentation := inner
          settings := [⟨⟨"note", by decide⟩, false, .string "// kept"⟩]
          fields := [⟨.singular, ⟨"sint64", by decide⟩, ⟨"x\n// y\r", by decide⟩, 1, field, []⟩]
          oneofs := []
          extensionRanges := [] }
        []]]

theorem codeLines_commented :
    (commented "\x7d\r\nmessage M \x7b\r" "// \n\n" "*/ z = 1;").undocumented =
      (commented "" "" "").undocumented ∧
    Text.codeLines (commented "\x7d\r\nmessage M \x7b\r" "// \n\n" "*/ z = 1;").render =
      Text.codeLines (commented "" "" "").render :=
  ⟨rfl, (codeLines_render_undocumented (commented "" "" "")).2 _ rfl⟩

end SchemaFile

end WireSchema
