/-
  WireSchema/Render/File.lean
  ===========================
  **How services and files are written.**  A file has a header (its path as a
  comment, the dialect, the package), its imports and its options; then each
  type, each extend block and each service.  A blank line stands between each
  two of these parts.
-/
import WireSchema.Render.TypeDecl
import WireSchema.File

namespace WireSchema

/-! ### Services -/

/-- One side of an rpc in parentheses, marked if it is a stream. -/
def TypeRef.parameter (reference : TypeRef) (streaming : Bool) : Text :=
  '(' :: (if streaming then "stream ".toList else []) ++ reference.text.toList ++ [')']

def Rpc.signature (rpc : Rpc) : Text :=
  "rpc ".toList ++ rpc.name.text.toList ++ ' ' ::
    rpc.requestType.parameter rpc.clientStreaming ++ " returns ".toList ++
    rpc.responseType.parameter rpc.serverStreaming

/-- An rpc: a statement, or a block if it has options. -/
def Rpc.render (rpc : Rpc) : Text :=
  Text.comment rpc.documentation ++
    match rpc.settings with
    | [] => rpc.signature ++ [';', '\n']
    | settings => Text.block rpc.signature [Setting.statements settings]

/-- A service: options, then rpcs. -/
def Service.render (service : Service) : Text :=
  Text.comment service.documentation ++
    Text.block ("service ".toList ++ service.name.text.toList)
      [Setting.statements service.settings, service.rpcs.flatMap Rpc.render]

/-! ### Files -/

namespace SchemaFile

/-- The path of the file as a comment; nothing if the path is not known. -/
def pathLine (file : SchemaFile) : Text :=
  if file.path = "" then [] else "// ".toList ++ file.path.toList ++ ['\n']

def dialectLine (file : SchemaFile) : Text :=
  match file.dialect with
  | some dialect => "syntax = \"".toList ++ dialect.text.toList ++ "\";\n".toList
  | none => []

def packageLine (file : SchemaFile) : Text :=
  match file.packageName with
  | some name => "package ".toList ++ name.text.toList ++ [';', '\n']
  | none => []

/-- The imports of the file: the plain ones, then the public ones. -/
def importLines (file : SchemaFile) : Text :=
  (file.imports.flatMap fun path => "import ".toList ++ Text.quoted path ++ [';', '\n']) ++
    file.publicImports.flatMap fun path =>
      "import public ".toList ++ Text.quoted path ++ [';', '\n']

/-- The parts of the file between which blank lines stand. -/
def parts (file : SchemaFile) : List Text :=
  (file.pathLine ++ file.dialectLine ++ file.packageLine) :: file.importLines ::
    Setting.statements file.settings ::
    (file.types.map TypeDecl.render ++ file.extendBlocks.map ExtendBlock.render ++
      file.services.map Service.render)

def render (file : SchemaFile) : Text := Text.paragraphs file.parts

end SchemaFile

end WireSchema
