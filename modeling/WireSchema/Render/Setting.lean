/-
  WireSchema/Render/Setting.lean
  ==============================
  **How options are written.**  A setting is `name = value`; a setting nested in
  it continues the name after a dot.  Maps and lists take one indented line per
  item.  On a declaration with a body each setting is a statement of its own; on
  a field or an enum value all of them stand in one bracketed list.
-/
import WireSchema.Render.Layout
import WireSchema.Text.Quoted
import WireSchema.Setting

namespace WireSchema

/-! ### Values -/

namespace SettingValue

/-- The name of a setting; a custom one stands in parentheses. -/
def heading (name : Name) (custom : Bool) : Text :=
  if custom then '(' :: name.text.toList ++ [')'] else name.text.toList

/-- What stands between a setting's name and its value: a dot before a nested
    setting, and an equals sign before anything else. -/
def joint : SettingValue → Text
  | .nested _ _ _ => ['.']
  | _ => [' ', '=', ' ']

mutual

def render : SettingValue → Text
  | .string text => Text.quoted text
  | .identifier text => text.toList
  | .integer value => Text.ofInt value.toInt
  | .float text => text.toList
  | .boolean true => "true".toList
  | .boolean false => "false".toList
  | .nested name custom value => heading name custom ++ joint value ++ render value
  | .map entries => Text.enclosed '\x7b' '\x7d' (renderEntries entries)
  | .list values => Text.enclosed '[' ']' (renderEach values)

/-- The entries of a map, each with its key. -/
def renderEntries : List (String × SettingValue) → List Text
  | [] => []
  | (key, value) :: entries =>
    (key.toList ++ ':' :: ' ' :: render value) :: renderEntries entries

def renderEach : List SettingValue → List Text
  | [] => []
  | value :: values => render value :: renderEach values

end

theorem renderEach_eq_map (values : List SettingValue) :
    renderEach values = values.map render := by
  induction values with
  | nil => rfl
  | cons value values ih => simp [renderEach, ih]

theorem renderEntries_eq_map (entries : List (String × SettingValue)) :
    renderEntries entries =
      entries.map fun entry => entry.1.toList ++ ':' :: ' ' :: render entry.2 := by
  induction entries with
  | nil => rfl
  | cons entry entries ih => simp [renderEntries, ih]

end SettingValue

/-! ### Settings -/

namespace Setting

/-- A setting as it is written, without anything that ends it. -/
def render (setting : Setting) : Text :=
  SettingValue.heading setting.name setting.custom ++ setting.value.joint ++ setting.value.render

/-- The settings of a declaration with a body: one statement each. -/
def statements (settings : List Setting) : Text :=
  settings.flatMap fun setting => "option ".toList ++ setting.render ++ [';', '\n']

/-- The settings of a field or an enum value: one bracketed list after a space,
    and nothing at all without settings. -/
def inline : List Setting → Text
  | [] => []
  | settings => " [\n".toList ++ Text.itemLines (settings.map render) ++ [']']

theorem render_toValue (setting : Setting) : setting.toValue.render = setting.render := by
  simp [toValue, SettingValue.render, render]

end Setting

end WireSchema
