/-
  WireSchema/Render/Member.lean
  =============================
  **How fields, enums and extensions are written.**  Every declaration starts
  with its documentation as comment lines.  A declaration without a body ends
  with a semicolon; one with a body is a block.
-/
import WireSchema.Render.Setting
import WireSchema.Enum
import WireSchema.Extension

namespace WireSchema

/-! ### Enums -/

/-- An enum value: its documentation, and one statement with its options. -/
def EnumValue.render (value : EnumValue) : Text :=
  Text.comment value.documentation ++ value.name.text.toList ++ " = ".toList ++
    Text.ofInt value.tag.toInt ++ Setting.inline value.settings ++ [';', '\n']

/-- An enum: options, then values. -/
def EnumDecl.render (decl : EnumDecl) : Text :=
  Text.comment decl.documentation ++
    Text.block ("enum ".toList ++ decl.name.text.toList)
      [Setting.statements decl.settings, decl.values.flatMap EnumValue.render]

/-! ### Fields and oneofs -/

/-- The label of a field and the space after it; nothing for a singular field. -/
def Label.lead (label : Label) : Text :=
  match label.keyword with
  | some keyword => keyword.toList ++ [' ']
  | none => []

/-- A field: its documentation, and one statement with its options. -/
def Field.render (field : Field) : Text :=
  Text.comment field.documentation ++ field.label.lead ++ field.typeRef.text.toList ++ ' ' ::
    field.name.text.toList ++ " = ".toList ++ Text.ofInt field.tag.toInt ++
    Setting.inline field.settings ++ [';', '\n']

def Oneof.render (oneof : Oneof) : Text :=
  Text.comment oneof.documentation ++
    Text.block ("oneof ".toList ++ oneof.name.text.toList) [oneof.fields.flatMap Field.render]

/-! ### Extensions -/

/-- The end of an extension range: nothing if it is the start, and `max` if it
    is the largest tag. -/
def ExtensionRange.tail (range : ExtensionRange) : Text :=
  if range.last = maxTag then " to max".toList
  else if range.last = range.first then []
  else " to ".toList ++ Text.ofInt range.last.toInt

/-- An extension range: its documentation, and one statement. -/
def ExtensionRange.render (range : ExtensionRange) : Text :=
  Text.comment range.documentation ++ "extensions ".toList ++ Text.ofInt range.first.toInt ++
    range.tail ++ [';', '\n']

def ExtendBlock.render (extend : ExtendBlock) : Text :=
  Text.comment extend.documentation ++
    Text.block ("extend ".toList ++ extend.name.text.toList)
      [extend.fields.flatMap Field.render]

end WireSchema
