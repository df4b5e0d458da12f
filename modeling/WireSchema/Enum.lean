/-
  WireSchema/Enum.lean
  ====================
  **Enums.**  An enum declares named values with tags.  Two values may share a
  tag only if the enum's `allow_alias` option is switched on.
-/
import WireSchema.Setting

namespace WireSchema

/-! ### Enum values -/

structure EnumValue where
  name : Name
  tag : Int32
  documentation : String
  settings : List Setting
  deriving DecidableEq, Repr

def EnumValue.make (name : String) (tag : Int32) (documentation : String)
    (settings : List Setting) : Except SchemaError EnumValue := do
  let name ← Name.make name
  return { name, tag, documentation, settings }

/-! ### Enum declarations -/

structure EnumDecl where
  name : Name
  qualifiedName : String
  documentation : String
  settings : List Setting
  values : List EnumValue
  deriving DecidableEq, Repr

namespace EnumDecl

def make (name qualifiedName documentation : String) (settings : List Setting)
    (values : List EnumValue) : Except SchemaError EnumDecl := do
  let name ← Name.make name
  return { name, qualifiedName, documentation, settings, values }

/-- Whether the enum's `allow_alias` option is switched on. -/
def allowsAlias (decl : EnumDecl) : Bool := Setting.isOn decl.settings "allow_alias"

def value? (decl : EnumDecl) (name : String) : Option EnumValue :=
  decl.values.find? fun value => value.name.text == name

end EnumDecl

end WireSchema
