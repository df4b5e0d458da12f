/-
  WireSchema/Outline.lean
  =======================
  **Assembling declarations.**  An outline is a JSON tree of the same form as
  the codec's, in which every text, list and flag may be left out or be `null`.
  A declaration is assembled from an outline with the checked builders, its
  parts before the declaration itself, and the first refusal is the answer.

  In contrast to reading, all parts are built before the name is looked at, an
  empty package means no package, and a plain string stands for a string value.
-/
import WireSchema.Codec.File

namespace WireSchema

open Json (Members member?)

/-- Why no declaration could be assembled: the tree has not the form of an outline, or
    a builder refused a declaration. -/
inductive OutlineError
  | malformed
  | rejected (cause : SchemaError)
  deriving DecidableEq, Repr

/-! ### The parts of an outline -/

namespace Outline

/-- The result of a builder, as a result of assembling. -/
def checked {α : Type} : Except SchemaError α → Except OutlineError α
  | .ok value => .ok value
  | .error cause => .error (.rejected cause)

/-- The part of an outline under a key; what is left out is `null`. -/
def part (members : Members) (key : String) : Json := (member? key members).getD .null

/-- A text, empty if it is left out. -/
def asText : Json → Except OutlineError String
  | .null => .ok ""
  | .str text => .ok text
  | _ => .error .malformed

/-- A flag, off if it is left out. -/
def asFlag : Json → Except OutlineError Bool
  | .null => .ok false
  | .bool value => .ok value
  | _ => .error .malformed

/-- A list of outlines, each assembled by `build`; empty if it is left out. -/
def asList {α : Type} (build : Json → Except OutlineError α) :
    Json → Except OutlineError (List α)
  | .null => .ok []
  | .arr items => items.mapM build
  | _ => .error .malformed

def text (members : Members) (key : String) : Except OutlineError String :=
  asText (part members key)

def flag (members : Members) (key : String) : Except OutlineError Bool :=
  asFlag (part members key)

def list {α : Type} (members : Members) (key : String) (build : Json → Except OutlineError α) :
    Except OutlineError (List α) :=
  asList build (part members key)

/-- What the codec's reader gives; whatever it refuses is malformed. -/
def plain {α : Type} (read : Json → Except DecodeError α) (json : Json) : Except OutlineError α :=
  match read json with
  | .ok value => .ok value
  | .error _ => .error .malformed

/-- A value that cannot be left out, read by the codec's reader. -/
def value {α : Type} (members : Members) (key : String) (read : Json → Except DecodeError α) :
    Except OutlineError α :=
  plain read (part members key)

/-- A value that may be left out, read by the codec's reader. -/
def optional {α : Type} (members : Members) (key : String) (read : Json → Except DecodeError α) :
    Except OutlineError (Option α) :=
  match part members key with
  | .null => .ok none
  | json => some <$> plain read json

/-- Assembles from the members of an object. -/
def record {α : Type} (build : Members → Except OutlineError α) : Json → Except OutlineError α
  | .obj members => build members
  | _ => .error .malformed

end Outline

/-! ### Names and options -/

def Name.assemble (json : Json) : Except OutlineError Name := do
  let text ← Outline.asText json
  Outline.checked (Name.make text)

/-- Assembles a setting from its members, given its value. -/
def Setting.assembleWith (members : Members) (value : SettingValue) :
    Except OutlineError Setting := do
  let name ← Outline.text members "name"
  let custom ← Outline.flag members "parenthesized"
  Outline.checked (Setting.make name custom value)

namespace SettingValue

/-- The option value of a kind whose content is left out. -/
def withoutContent : SettingKind → Except OutlineError SettingValue
  | .string => .ok (.string "")
  | .identifier => .ok (.identifier "")
  | .float => .ok (.float "")
  | .boolean => .ok (.boolean false)
  | .map => .ok (.map [])
  | .list => .ok (.list [])
  | .integer => .error .malformed
  | .nested => .error .malformed

mutual

/-- Assembles an option value; a plain string stands for a string value. -/
def assemble : Json → Except OutlineError SettingValue
  | .str text => .ok (.string text)
  | .obj members => do
    let kind ← Outline.value members "kind" (Json.readChoice .outside SettingKind.choices)
    assembleContent kind members
  | _ => .error .malformed

/-- Finds the content among the members of a value and assembles it by its
    kind. -/
def assembleContent (kind : SettingKind) : Members → Except OutlineError SettingValue
  | [] => withoutContent kind
  | (key, json) :: members =>
    if key = "value" then assembleAs kind json else assembleContent kind members

def assembleAs : SettingKind → Json → Except OutlineError SettingValue
  | kind, .null => withoutContent kind
  | .string, json => .string <$> Outline.plain Json.readString json
  | .identifier, json => .identifier <$> Outline.plain Json.readString json
  | .integer, json => .integer <$> Outline.plain Json.readInt64 json
  | .float, json => .float <$> Outline.plain Json.readString json
  | .boolean, json => .boolean <$> Outline.plain Json.readBool json
  | .nested, .obj members => do
    let value ← assembleMember members
    Setting.toValue <$> Setting.assembleWith members value
  | .map, .arr items => .map <$> assembleEntries items
  | .list, .arr items => .list <$> assembleEach items
  | _, _ => .error .malformed

def assembleMember : Members → Except OutlineError SettingValue
  | [] => .error .malformed
  | (key, json) :: members =>
    if key = "value" then assemble json else assembleMember members

def assembleEntries : List Json → Except OutlineError (List (String × SettingValue))
  | [] => .ok []
  | .arr [key, json] :: items => do
    let key ← Outline.asText key
    let value ← assemble json
    let entries ← assembleEntries items
    return (key, value) :: entries
  | _ => .error .malformed

def assembleEach : List Json → Except OutlineError (List SettingValue)
  | [] => .ok []
  | json :: items => do
    let value ← assemble json
    let values ← assembleEach items
    return value :: values

end

end SettingValue

namespace Setting

/-- Assembles a setting: its value, then the setting. -/
def assemble : Json → Except OutlineError Setting :=
  Outline.record fun members => do
    let value ← SettingValue.assembleMember members
    assembleWith members value

def assembleList (members : Members) : Except OutlineError (List Setting) :=
  Outline.list members "options" assemble

end Setting

/-! ### Enums -/

/-- Assembles an enum value: its options, then the value. -/
def EnumValue.assemble : Json → Except OutlineError EnumValue :=
  Outline.record fun members => do
    let settings ← Setting.assembleList members
    let name ← Outline.text members "name"
    let tag ← Outline.value members "tag" Json.readInt32
    let documentation ← Outline.text members "documentation"
    Outline.checked (EnumValue.make name tag documentation settings)

/-- Assembles an enum from its members: options and values, then the enum. -/
def EnumDecl.assembleMembers (members : Members) : Except OutlineError EnumDecl := do
  let settings ← Setting.assembleList members
  let values ← Outline.list members "values" EnumValue.assemble
  let name ← Outline.text members "name"
  let qualifiedName ← Outline.text members "qualified_name"
  let documentation ← Outline.text members "documentation"
  Outline.checked (EnumDecl.make name qualifiedName documentation settings values)

def EnumDecl.assemble : Json → Except OutlineError EnumDecl :=
  Outline.record EnumDecl.assembleMembers

/-! ### Fields and extensions -/

/-- Assembles a field: its options, then the field. -/
def Field.assemble : Json → Except OutlineError Field :=
  Outline.record fun members => do
    let settings ← Setting.assembleList members
    let label ← Outline.value members "label" Label.decode
    let typeRef ← Outline.text members "type_name"
    let name ← Outline.text members "name"
    let tag ← Outline.value members "tag" Json.readInt32
    let documentation ← Outline.text members "documentation"
    Outline.checked (Field.make label typeRef name tag documentation settings)

/-- Assembles a oneof: its fields, then the oneof. -/
def Oneof.assemble : Json → Except OutlineError Oneof :=
  Outline.record fun members => do
    let fields ← Outline.list members "fields" Field.assemble
    let name ← Outline.text members "name"
    let documentation ← Outline.text members "documentation"
    Outline.checked (Oneof.make name documentation fields)

/-- How extension ranges are assembled.  What holds them is assembled in the same way
    whichever form they have. -/
abbrev RangeForm := Json → Except OutlineError ExtensionRange

/-- Assembles an extension range from its two ends. -/
def ExtensionRange.assembleEnds : RangeForm :=
  Outline.record fun members => do
    let documentation ← Outline.text members "documentation"
    let first ← Outline.value members "start" Json.readInt32
    let last ← Outline.value members "end" Json.readInt32
    Outline.checked (ExtensionRange.make documentation first last)

/-- Assembles an extension range from a single tag or, if none is given, from its
    two ends. -/
def ExtensionRange.assemble : RangeForm :=
  Outline.record fun members => do
    match ← Outline.optional members "single" Json.readInt32 with
    | some tag =>
      let documentation ← Outline.text members "documentation"
      return ExtensionRange.single documentation tag
    | none => assembleEnds (.obj members)

/-- Assembles an extend block: its fields, then the block. -/
def ExtendBlock.assemble : Json → Except OutlineError ExtendBlock :=
  Outline.record fun members => do
    let fields ← Outline.list members "fields" Field.assemble
    let name ← Outline.text members "name"
    let qualifiedName ← Outline.text members "qualified_name"
    let documentation ← Outline.text members "documentation"
    Outline.checked (ExtendBlock.make name qualifiedName documentation fields)

/-! ### Types -/

/-- Assembles a message from its members, given what assembling its nested types
    gave: options, fields, oneofs, extension ranges, nested types, and then the
    message. -/
def Message.assembleParts (range : RangeForm) (members : Members)
    (nested : Except OutlineError (List TypeDecl)) : Except OutlineError Message := do
  let settings ← Setting.assembleList members
  let fields ← Outline.list members "fields" Field.assemble
  let oneofs ← Outline.list members "one_ofs" Oneof.assemble
  let extensionRanges ← Outline.list members "extensions" range
  let nested ← nested
  let name ← Outline.text members "name"
  let qualifiedName ← Outline.text members "qualified_name"
  let documentation ← Outline.text members "documentation"
  let message ←
    Outline.checked (Message.make name qualifiedName documentation settings fields nested)
  return (message.withOneofs oneofs).withExtensionRanges extensionRanges

namespace TypeDecl

mutual

def assembleWith (range : RangeForm) : Json → Except OutlineError TypeDecl
  | .obj members => do
    match ← Outline.value members "type" (TypeKind.read .outside) with
    | .enum => .enum <$> EnumDecl.assembleMembers members
    | .message =>
      Message.toType <$> Message.assembleParts range members (assembleNested range members)
  | _ => .error .malformed

/-- Assembles the nested types of a message; without the member there are none. -/
def assembleNested (range : RangeForm) : Members → Except OutlineError (List TypeDecl)
  | [] => .ok []
  | (key, json) :: members =>
    if key = "nested_types" then assembleList range json else assembleNested range members

/-- Assembles an array of types, empty if it is `null`. -/
def assembleList (range : RangeForm) : Json → Except OutlineError (List TypeDecl)
  | .null => .ok []
  | .arr items => assembleEach range items
  | _ => .error .malformed

def assembleEach (range : RangeForm) : List Json → Except OutlineError (List TypeDecl)
  | [] => .ok []
  | json :: items => do
    let t ← assembleWith range json
    let ts ← assembleEach range items
    return t :: ts

end

theorem assembleEach_eq_mapM (range : RangeForm) (items : List Json) :
    assembleEach range items = items.mapM (assembleWith range) := by
  induction items with
  | nil => rfl
  | cons json items ih => simp [assembleEach, ih]

theorem assembleList_eq (range : RangeForm) (json : Json) :
    assembleList range json = Outline.asList (assembleWith range) json := by
  cases json <;> simp [assembleList, Outline.asList, assembleEach_eq_mapM]

theorem assembleNested_eq (range : RangeForm) (members : Members) :
    assembleNested range members =
      Outline.list members "nested_types" (assembleWith range) := by
  induction members with
  | nil => rfl
  | cons entry members ih =>
    obtain ⟨key, json⟩ := entry
    by_cases h : key = "nested_types"
    · simp [assembleNested, Outline.list, Outline.part, member?, h, assembleList_eq]
    · simp [assembleNested, Outline.list, Outline.part, member?, h, ih]

def assemble : Json → Except OutlineError TypeDecl := assembleWith ExtensionRange.assemble

end TypeDecl

def Message.assembleWith (range : RangeForm) : Json → Except OutlineError Message :=
  Outline.record fun members =>
    assembleParts range members (TypeDecl.assembleNested range members)

def Message.assemble : Json → Except OutlineError Message :=
  assembleWith ExtensionRange.assemble

/-! ### Services and files -/

/-- Assembles an rpc: its options, then the rpc, then its streams. -/
def Rpc.assemble : Json → Except OutlineError Rpc :=
  Outline.record fun members => do
    let settings ← Setting.assembleList members
    let name ← Outline.text members "name"
    let documentation ← Outline.text members "documentation"
    let requestType ← Outline.text members "request_type"
    let responseType ← Outline.text members "response_type"
    let rpc ← Outline.checked (Rpc.make name documentation requestType responseType settings)
    let clientStreaming ← Outline.flag members "client_streaming"
    let serverStreaming ← Outline.flag members "server_streaming"
    return rpc.withStreaming clientStreaming serverStreaming

/-- Assembles a service: options and rpcs, then the service. -/
def Service.assemble : Json → Except OutlineError Service :=
  Outline.record fun members => do
    let settings ← Setting.assembleList members
    let rpcs ← Outline.list members "rpcs" Rpc.assemble
    let name ← Outline.text members "name"
    let qualifiedName ← Outline.text members "qualified_name"
    let documentation ← Outline.text members "documentation"
    Outline.checked (Service.make name qualifiedName documentation settings rpcs)

/-- Assembles a file: types, services, extend blocks and options, then the file.
    An empty package is no package. -/
def SchemaFile.assembleWith (range : RangeForm) : Json → Except OutlineError SchemaFile :=
  Outline.record fun members => do
    let types ← Outline.list members "types" (TypeDecl.assembleWith range)
    let services ← Outline.list members "services" Service.assemble
    let extendBlocks ← Outline.list members "extend_declarations" ExtendBlock.assemble
    let settings ← Setting.assembleList members
    let path ← Outline.text members "file_name"
    let packageName ← Outline.text members "package_name"
    let dialect ← Outline.optional members "syntax" Dialect.decode
    let imports ← Outline.list members "dependencies" Outline.asText
    let publicImports ← Outline.list members "public_dependencies" Outline.asText
    return { SchemaFile.empty with
      path, dialect, imports, publicImports, types, services, extendBlocks, settings
    }.withPackage packageName

def SchemaFile.assemble : Json → Except OutlineError SchemaFile :=
  assembleWith ExtensionRange.assemble

end WireSchema
