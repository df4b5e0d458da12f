/-
  WireSchema/Proofs/Layout.lean
  =============================
  **Layout at a depth.**  The renderer writes a nested declaration as if it stood
  alone and then shifts the finished text, once for every block around it.  The
  layout of this module does not do that.  It is computed in one pass:

    * the depth is handed down, and a line is made at the depth where it stands;
    * a line is either blank or a depth with its content, and is written once,
      as two spaces for each level and the content;
    * a value that spans lines is told what stands before it on its first line
      (`lead`) and what follows it on its last one (`trail`).

  `writeAll` puts the lines on paper; nothing ever reads what was written.
-/
import WireSchema.Render.File

namespace WireSchema

/-- A line of a laid out text.  A blank line separates two parts. -/
inductive Line
  | blank
  | text (depth : Nat) (content : Text)
  deriving DecidableEq, Repr

namespace Line

/-! ### Writing lines -/

/-- What stands before the content of a line: two spaces for each level. -/
def margin (depth : Nat) : Text := List.replicate (2 * depth) ' '

def body : Line → Text
  | .blank => []
  | .text depth content => margin depth ++ content

def write (line : Line) : Text := line.body ++ ['\n']

/-- Lines as they are written. -/
def writeAll (lines : List Line) : Text := lines.flatMap write

/-! ### Lines of parts -/

/-- A line for a content; without content there is no line. -/
def filled (depth : Nat) (content : Text) : List Line :=
  if content.isEmpty then [] else [.text depth content]

def remark : Text → Text
  | [] => "//".toList
  | c :: cs => "// ".toList ++ c :: cs

/-- The comment lines of a documentation. -/
def comment (depth : Nat) (documentation : String) : List Line :=
  (Text.lines documentation.toList).map fun line => .text depth (remark line)

/-- Parts with one blank line between each two. -/
def joinBlank : List (List Line) → List Line
  | [] => []
  | [part] => part
  | part :: parts => part ++ .blank :: joinBlank parts

def paragraphs (parts : List (List Line)) : List Line :=
  joinBlank (parts.filter fun part => !part.isEmpty)

/-- A block: its header, its sections, which are laid out one level deeper, and
    its closing brace.  Without any section it is one line. -/
def block (depth : Nat) (header : Text) (sections : List (List Line)) : List Line :=
  match sections.filter fun part => !part.isEmpty with
  | [] => [.text depth (header ++ " \x7b\x7d".toList)]
  | parts =>
    .text depth (header ++ " \x7b".toList) :: joinBlank parts ++ [.text depth "\x7d".toList]

end Line

/-! ### Options -/

namespace SettingValue

mutual

/-- The lines of an option value that stands after `lead` and before `trail`. -/
def layout (depth : Nat) (lead trail : Text) : SettingValue → List Line
  | .string text => Line.filled depth (lead ++ Text.quoted text ++ trail)
  | .identifier text => Line.filled depth (lead ++ text.toList ++ trail)
  | .integer value => Line.filled depth (lead ++ Text.ofInt value.toInt ++ trail)
  | .float text => Line.filled depth (lead ++ text.toList ++ trail)
  | .boolean true => Line.filled depth (lead ++ "true".toList ++ trail)
  | .boolean false => Line.filled depth (lead ++ "false".toList ++ trail)
  | .nested name custom value =>
    layout depth (lead ++ heading name custom ++ joint value) trail value
  | .map entries =>
    if entries.isEmpty then [.text depth (lead ++ "\x7b\x7d".toList ++ trail)]
    else
      .text depth (lead ++ "\x7b".toList) :: layoutEntries (depth + 1) entries ++
        [.text depth ("\x7d".toList ++ trail)]
  | .list values =>
    if values.isEmpty then [.text depth (lead ++ "[]".toList ++ trail)]
    else
      .text depth (lead ++ "[".toList) :: layoutEach (depth + 1) values ++
        [.text depth ("]".toList ++ trail)]

def layoutEntries (depth : Nat) : List (String × SettingValue) → List Line
  | [] => []
  | (key, value) :: entries =>
    layout depth (key.toList ++ ": ".toList) (if entries.isEmpty then [] else [',']) value ++
      layoutEntries depth entries

def layoutEach (depth : Nat) : List SettingValue → List Line
  | [] => []
  | value :: values =>
    layout depth [] (if values.isEmpty then [] else [',']) value ++ layoutEach depth values

end

end SettingValue

namespace Setting

/-- The lines of a setting between `lead` and `trail`. -/
def layout (depth : Nat) (lead trail : Text) (setting : Setting) : List Line :=
  setting.toValue.layout depth lead trail

def layoutStatements (depth : Nat) (settings : List Setting) : List Line :=
  settings.flatMap (layout depth "option ".toList ";".toList)

def layoutItems (depth : Nat) : List Setting → List Line
  | [] => []
  | setting :: settings =>
    setting.layout depth [] (if settings.isEmpty then [] else [',']) ++ layoutItems depth settings

/-- The lines of a member, such as a field: what it declares, its settings, and a
    semicolon. -/
def layoutMember (depth : Nat) (declared : Text) (settings : List Setting) : List Line :=
  if settings.isEmpty then [.text depth (declared ++ ";".toList)]
  else
    .text depth (declared ++ " [".toList) :: layoutItems (depth + 1) settings ++
      [.text depth "];".toList]

end Setting

/-! ### Enums, fields and extensions -/

def EnumValue.layout (depth : Nat) (value : EnumValue) : List Line :=
  Line.comment depth value.documentation ++
    Setting.layoutMember depth
      (value.name.text.toList ++ " = ".toList ++ Text.ofInt value.tag.toInt) value.settings

def EnumDecl.layout (depth : Nat) (decl : EnumDecl) : List Line :=
  Line.comment depth decl.documentation ++
    Line.block depth ("enum ".toList ++ decl.name.text.toList)
      [ Setting.layoutStatements (depth + 1) decl.settings,
        decl.values.flatMap (EnumValue.layout (depth + 1)) ]

def Field.declared (field : Field) : Text :=
  field.label.lead ++ field.typeRef.text.toList ++ " ".toList ++ field.name.text.toList ++
    " = ".toList ++ Text.ofInt field.tag.toInt

def Field.layout (depth : Nat) (field : Field) : List Line :=
  Line.comment depth field.documentation ++
    Setting.layoutMember depth field.declared field.settings

def Oneof.layout (depth : Nat) (oneof : Oneof) : List Line :=
  Line.comment depth oneof.documentation ++
    Line.block depth ("oneof ".toList ++ oneof.name.text.toList)
      [oneof.fields.flatMap (Field.layout (depth + 1))]

def ExtensionRange.layout (depth : Nat) (range : ExtensionRange) : List Line :=
  Line.comment depth range.documentation ++
    [.text depth
      ("extensions ".toList ++ Text.ofInt range.first.toInt ++ range.tail ++ ";".toList)]

def ExtendBlock.layout (depth : Nat) (extend : ExtendBlock) : List Line :=
  Line.comment depth extend.documentation ++
    Line.block depth ("extend ".toList ++ extend.name.text.toList)
      [extend.fields.flatMap (Field.layout (depth + 1))]

/-! ### Types -/

/-- The lines of a message whose nested types have been laid out already. -/
def MessageCore.layoutWith (depth : Nat) (core : MessageCore) (nested : List (List Line)) :
    List Line :=
  Line.comment depth core.documentation ++
    Line.block depth ("message ".toList ++ core.name.text.toList)
      [ Setting.layoutStatements (depth + 1) core.settings,
        core.fields.flatMap (Field.layout (depth + 1)),
        Line.paragraphs (core.oneofs.map (Oneof.layout (depth + 1))),
        core.extensionRanges.flatMap (ExtensionRange.layout (depth + 1)),
        Line.paragraphs nested ]

namespace TypeDecl

mutual

/-- The lines of a type. -/
def layout (depth : Nat) : TypeDecl → List Line
  | .enum decl => decl.layout depth
  | .message core nested => core.layoutWith depth (layoutEach (depth + 1) nested)

def layoutEach (depth : Nat) : List TypeDecl → List (List Line)
  | [] => []
  | t :: ts => layout depth t :: layoutEach depth ts

end

end TypeDecl

/-! ### Services and files -/

/-- The lines of an rpc: one statement, or a block if it has settings. -/
def Rpc.layout (depth : Nat) (rpc : Rpc) : List Line :=
  Line.comment depth rpc.documentation ++
    if rpc.settings.isEmpty then [.text depth (rpc.signature ++ ";".toList)]
    else Line.block depth rpc.signature [Setting.layoutStatements (depth + 1) rpc.settings]

def Service.layout (depth : Nat) (service : Service) : List Line :=
  Line.comment depth service.documentation ++
    Line.block depth ("service ".toList ++ service.name.text.toList)
      [ Setting.layoutStatements (depth + 1) service.settings,
        service.rpcs.flatMap (Rpc.layout (depth + 1)) ]

namespace SchemaFile

def pathLayout (file : SchemaFile) : List Line :=
  if file.path = "" then [] else [.text 0 ("// ".toList ++ file.path.toList)]

def dialectLayout (file : SchemaFile) : List Line :=
  match file.dialect with
  | some dialect => [.text 0 ("syntax = \"".toList ++ dialect.text.toList ++ "\";".toList)]
  | none => []

def packageLayout (file : SchemaFile) : List Line :=
  match file.packageName with
  | some name => [.text 0 ("package ".toList ++ name.text.toList ++ ";".toList)]
  | none => []

def importLayout (file : SchemaFile) : List Line :=
  (file.imports.map fun path => .text 0 ("import ".toList ++ Text.quoted path ++ ";".toList)) ++
    file.publicImports.map fun path =>
      .text 0 ("import public ".toList ++ Text.quoted path ++ ";".toList)

/-- The lines of a file. -/
def layout (file : SchemaFile) : List Line :=
  Line.paragraphs
    ((file.pathLayout ++ file.dialectLayout ++ file.packageLayout) :: file.importLayout ::
      Setting.layoutStatements 0 file.settings ::
      (file.types.map (TypeDecl.layout 0) ++ file.extendBlocks.map (ExtendBlock.layout 0) ++
        file.services.map (Service.layout 0)))

end SchemaFile

end WireSchema
