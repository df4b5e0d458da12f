/-
  WireSchema/Codec/Member.lean
  ============================
  **Fields, enums and extensions as JSON.**  Each declaration is written as an
  object, whose members come in the order of the record; empty texts and lists
  are left out.

  A declaration has two readers.  `decodeMembers` reads the members of an object
  and `decodeElements` the elements of an array; they find the same values under
  the same keys, and differ in the order in which they look for them and in what
  they say of a required member that is missing.
-/
import WireSchema.Codec.Setting
import WireSchema.Enum
import WireSchema.Extension

namespace WireSchema

open Json (Record Members readMember readText readItems readInt32 require textMember listMember
  ofTag)

/-! ### Enums -/

namespace EnumValue

def record : Record where
  title := "EnumValue"
  keys := ["name", "tag", "documentation", "options"]

/-- An enum value as JSON. -/
def encode (value : EnumValue) : Json :=
  .obj ([("name", value.name.encode), ("tag", ofTag value.tag)] ++
    textMember "documentation" value.documentation ++ Setting.listMember value.settings)

def decodeMembers (position : Position) (members : Members) : Except DecodeError EnumValue := do
  let documentation ← readText members "documentation"
  let name ← readMember members "name" Name.decode
  let settings ← Setting.decodeList position members
  let tag ← readMember members "tag" readInt32
  let name ← require "name" name
  let tag ← require "tag" tag
  return { name, tag, documentation, settings }

def decodeElements (position : Position) (members : Members) : Except DecodeError EnumValue := do
  let name ← readMember members "name" Name.decode
  let name ← record.require "name" name
  let tag ← readMember members "tag" readInt32
  let tag ← record.require "tag" tag
  let documentation ← readText members "documentation"
  let settings ← Setting.decodeList position members
  return { name, tag, documentation, settings }

/-- Reads an enum value. -/
def decode (position : Position) : Json → Except DecodeError EnumValue :=
  record.read position (decodeMembers position) (decodeElements position)

end EnumValue

namespace EnumDecl

def record : Record where
  title := "EnumType"
  keys := ["name", "qualified_name", "documentation", "options", "values"]

/-- The members of an enum.  They are also those of a type that is an enum. -/
def encodeMembers (decl : EnumDecl) : Members :=
  [("name", decl.name.encode)] ++ textMember "qualified_name" decl.qualifiedName ++
    textMember "documentation" decl.documentation ++ Setting.listMember decl.settings ++
    listMember "values" (decl.values.map EnumValue.encode)

/-- An enum as JSON. -/
def encode (decl : EnumDecl) : Json := .obj decl.encodeMembers

def decodeMembers (position : Position) (members : Members) : Except DecodeError EnumDecl := do
  let documentation ← readText members "documentation"
  let name ← readMember members "name" Name.decode
  let settings ← Setting.decodeList position members
  let qualifiedName ← readText members "qualified_name"
  let values ← readItems members "values" (EnumValue.decode position)
  let name ← require "name" name
  return { name, qualifiedName, documentation, settings, values }

def decodeElements (position : Position) (members : Members) : Except DecodeError EnumDecl := do
  let name ← readMember members "name" Name.decode
  let name ← record.require "name" name
  let qualifiedName ← readText members "qualified_name"
  let documentation ← readText members "documentation"
  let settings ← Setting.decodeList position members
  let values ← readItems members "values" (EnumValue.decode position)
  return { name, qualifiedName, documentation, settings, values }

/-- Reads an enum that stands by itself, or the elements of one inside a type. -/
def decode (position : Position) : Json → Except DecodeError EnumDecl :=
  record.read position (decodeMembers position) (decodeElements position)

end EnumDecl

/-! ### Fields and oneofs -/

namespace Label

/-- The word for a label, which is not the keyword it is rendered as. -/
def word : Label → String
  | .required => "Required"
  | .optional => "Optional"
  | .repeated => "Repeated"
  | .singular => "Singular"

def choices : List (String × Label) :=
  [.required, .optional, .repeated, .singular].map fun label : Label => (label.word, label)

def encode (label : Label) : Json := .str label.word

/-- Reads a label where it stands. -/
def decodeAt (position : Position) : Json → Except DecodeError Label :=
  Json.readChoice position choices

/-- Reads a label by itself. -/
def decode : Json → Except DecodeError Label := decodeAt .outside

@[simp] theorem decodeAt_encode (position : Position) (label : Label) :
    decodeAt position label.encode = .ok label := by
  cases label <;> rfl

end Label

namespace Field

def record : Record where
  title := "Field"
  keys := ["label", "type_name", "name", "tag", "documentation", "options"]

/-- A field as JSON. -/
def encode (field : Field) : Json :=
  .obj ([("label", field.label.encode), ("type_name", field.typeRef.encode),
      ("name", field.name.encode), ("tag", ofTag field.tag)] ++
    textMember "documentation" field.documentation ++ Setting.listMember field.settings)

def decodeMembers (position : Position) (members : Members) : Except DecodeError Field := do
  let documentation ← readText members "documentation"
  let label ← readMember members "label" (Label.decodeAt position)
  let name ← readMember members "name" Name.decode
  let settings ← Setting.decodeList position members
  let tag ← readMember members "tag" readInt32
  let typeRef ← readMember members "type_name" TypeRef.decode
  let label ← require "label" label
  let typeRef ← require "type_name" typeRef
  let name ← require "name" name
  let tag ← require "tag" tag
  return { label, typeRef, name, tag, documentation, settings }

def decodeElements (position : Position) (members : Members) : Except DecodeError Field := do
  let label ← readMember members "label" (Label.decodeAt position)
  let label ← record.require "label" label
  let typeRef ← readMember members "type_name" TypeRef.decode
  let typeRef ← record.require "type_name" typeRef
  let name ← readMember members "name" Name.decode
  let name ← record.require "name" name
  let tag ← readMember members "tag" readInt32
  let tag ← record.require "tag" tag
  let documentation ← readText members "documentation"
  let settings ← Setting.decodeList position members
  return { label, typeRef, name, tag, documentation, settings }

/-- Reads a field. -/
def decode (position : Position) : Json → Except DecodeError Field :=
  record.read position (decodeMembers position) (decodeElements position)

end Field

namespace Oneof

def record : Record where
  title := "OneOf"
  keys := ["name", "documentation", "fields"]

/-- A oneof as JSON, with its fields inside. -/
def encode (oneof : Oneof) : Json :=
  .obj ([("name", oneof.name.encode)] ++ textMember "documentation" oneof.documentation ++
    listMember "fields" (oneof.fields.map Field.encode))

def decodeMembers (position : Position) (members : Members) : Except DecodeError Oneof := do
  let documentation ← readText members "documentation"
  let fields ← readItems members "fields" (Field.decode position)
  let name ← readMember members "name" Name.decode
  let name ← require "name" name
  return { name, documentation, fields }

def decodeElements (position : Position) (members : Members) : Except DecodeError Oneof := do
  let name ← readMember members "name" Name.decode
  let name ← record.require "name" name
  let documentation ← readText members "documentation"
  let fields ← readItems members "fields" (Field.decode position)
  return { name, documentation, fields }

/-- Reads a oneof and the fields inside. -/
def decode (position : Position) : Json → Except DecodeError Oneof :=
  record.read position (decodeMembers position) (decodeElements position)

end Oneof

/-! ### Extensions -/

/-- An extension range as it is read, before its two ends are compared. -/
structure RawRange where
  documentation : String
  first : Int32
  last : Int32

namespace RawRange

def record : Record where
  title := "Raw"
  keys := ["documentation", "start", "end"]

def decodeMembers (members : Members) : Except DecodeError RawRange := do
  let documentation ← readText members "documentation"
  let last ← readMember members "end" readInt32
  let first ← readMember members "start" readInt32
  let first ← require "start" first
  let last ← require "end" last
  return { documentation, first, last }

def decodeElements (members : Members) : Except DecodeError RawRange := do
  let documentation ← readText members "documentation"
  let first ← readMember members "start" readInt32
  let first ← record.require "start" first
  let last ← readMember members "end" readInt32
  let last ← record.require "end" last
  return { documentation, first, last }

/-- Builds the range that was read, which compares its ends. -/
def build (raw : RawRange) : Except DecodeError ExtensionRange :=
  Json.checked (ExtensionRange.make raw.documentation raw.first raw.last)

end RawRange

namespace ExtensionRange

/-- An extension range as JSON: its documentation first, and then its ends. -/
def encode (range : ExtensionRange) : Json :=
  .obj (textMember "documentation" range.documentation ++
    [("start", ofTag range.first), ("end", ofTag range.last)])

/-- Reads an extension range where it stands; the two ends are compared when
    everything has been read. -/
def decodeAt (position : Position) (json : Json) : Except DecodeError ExtensionRange := do
  let raw ← RawRange.record.read position RawRange.decodeMembers RawRange.decodeElements json
  raw.build

/-- Reads an extension range by itself. -/
def decode : Json → Except DecodeError ExtensionRange := decodeAt .outside

end ExtensionRange

namespace ExtendBlock

def record : Record where
  title := "ExtendDeclaration"
  keys := ["name", "qualified_name", "documentation", "fields"]

/-- An extend block as JSON, with its fields inside. -/
def encode (extend : ExtendBlock) : Json :=
  .obj ([("name", extend.name.encode)] ++ textMember "qualified_name" extend.qualifiedName ++
    textMember "documentation" extend.documentation ++
    listMember "fields" (extend.fields.map Field.encode))

def decodeMembers (members : Members) : Except DecodeError ExtendBlock := do
  let documentation ← readText members "documentation"
  let fields ← readItems members "fields" (Field.decode .outside)
  let name ← readMember members "name" Name.decode
  let qualifiedName ← readText members "qualified_name"
  let name ← require "name" name
  return { name, qualifiedName, documentation, fields }

def decodeElements (members : Members) : Except DecodeError ExtendBlock := do
  let name ← readMember members "name" Name.decode
  let name ← record.require "name" name
  let qualifiedName ← readText members "qualified_name"
  let documentation ← readText members "documentation"
  let fields ← readItems members "fields" (Field.decode .outside)
  return { name, qualifiedName, documentation, fields }

/-- Reads an extend block, which never stands inside a type. -/
def decode : Json → Except DecodeError ExtendBlock :=
  record.read .outside decodeMembers decodeElements

end ExtendBlock

end WireSchema
