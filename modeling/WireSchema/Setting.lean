/-
  WireSchema/Setting.lean
  =======================
  **Options.**  A `Setting` is one `name = value` annotation on a declaration.
  Its value is a scalar, a map or list of values, or another setting, which is
  how a sub-field of a structured option is written (`(limits).upper = 5`).

  A value by itself may hold any tokens.  `Setting.make` is where they are
  checked: no identifier, float literal or map key may be empty.  A setting
  inside the value has been through `Setting.make` before, so the check stops
  at it.
-/
import WireSchema.Name

namespace WireSchema

/-! ### Values -/

/-- The value of an option.  An identifier is written bare, as an enum constant is, and a
    float literal is kept as it was written.  A nested value is a setting of its own, with its
    name, whether it is custom, and its value; a map is a set of options in text form. -/
inductive SettingValue
  | string (text : String)
  | identifier (text : String)
  | integer (value : Int64)
  | float (text : String)
  | boolean (value : Bool)
  | nested (name : Name) (custom : Bool) (value : SettingValue)
  | map (entries : List (String × SettingValue))
  | list (values : List SettingValue)
  deriving Repr

namespace SettingValue

mutual

def same : SettingValue → SettingValue → Bool
  | .string s, .string t => s == t
  | .identifier s, .identifier t => s == t
  | .integer m, .integer n => m == n
  | .float s, .float t => s == t
  | .boolean a, .boolean b => a == b
  | .nested m c v, .nested n d w => decide (m = n) && c == d && same v w
  | .map es, .map fs => sameEntries es fs
  | .list vs, .list ws => sameAll vs ws
  | _, _ => false

def sameEntries : List (String × SettingValue) → List (String × SettingValue) → Bool
  | [], [] => true
  | (k, v) :: es, (l, w) :: fs => k == l && same v w && sameEntries es fs
  | _, _ => false

def sameAll : List SettingValue → List SettingValue → Bool
  | [], [] => true
  | v :: vs, w :: ws => same v w && sameAll vs ws
  | _, _ => false

end

mutual

theorem same_iff : ∀ a b : SettingValue, same a b = true ↔ a = b
  | .string _, b => by cases b <;> simp [same]
  | .identifier _, b => by cases b <;> simp [same]
  | .integer _, b => by cases b <;> simp [same]
  | .float _, b => by cases b <;> simp [same]
  | .boolean _, b => by cases b <;> simp [same]
  | .nested _ _ v, b => by
    cases b with
    | nested n d w => simp [same, same_iff v w, and_assoc]
    | _ => simp [same]
  | .map es, b => by
    cases b with
    | map fs => simp [same, sameEntries_iff es fs]
    | _ => simp [same]
  | .list vs, b => by
    cases b with
    | list ws => simp [same, sameAll_iff vs ws]
    | _ => simp [same]

theorem sameEntries_iff :
    ∀ es fs : List (String × SettingValue), sameEntries es fs = true ↔ es = fs
  | [], fs => by cases fs <;> simp [sameEntries]
  | (k, v) :: es, fs => by
    cases fs with
    | nil => simp [sameEntries]
    | cons f fs =>
      obtain ⟨l, w⟩ := f
      simp [sameEntries, same_iff v w, sameEntries_iff es fs]

theorem sameAll_iff : ∀ vs ws : List SettingValue, sameAll vs ws = true ↔ vs = ws
  | [], ws => by cases ws <;> simp [sameAll]
  | v :: vs, ws => by
    cases ws with
    | nil => simp [sameAll]
    | cons w ws => simp [sameAll, same_iff v w, sameAll_iff vs ws]

end

instance : DecidableEq SettingValue := fun a b => decidable_of_iff _ (same_iff a b)

/-! ### The token check -/

mutual

/-- The first token of a value that is empty and must not be, in the order in
    which the tokens are written.  A map entry's key comes before its value; a
    nested setting counts as checked already. -/
def emptyToken? : SettingValue → Option RequiredText
  | .identifier text => if text = "" then some .identifier else none
  | .float text => if text = "" then some .float else none
  | .map entries => emptyTokenInEntries? entries
  | .list values => emptyTokenInList? values
  | _ => none

def emptyTokenInEntries? : List (String × SettingValue) → Option RequiredText
  | [] => none
  | (key, value) :: entries =>
    if key = "" then some .mapKey
    else (emptyToken? value).or (emptyTokenInEntries? entries)

def emptyTokenInList? : List SettingValue → Option RequiredText
  | [] => none
  | value :: values => (emptyToken? value).or (emptyTokenInList? values)

end

end SettingValue

/-! ### Settings -/

/-- One `name = value` annotation.  The name of a custom setting stands in
    parentheses. -/
structure Setting where
  name : Name
  custom : Bool
  value : SettingValue
  deriving DecidableEq, Repr

namespace Setting

/-- Builds a setting from a name and a value, both checked: first that the name
    is not empty, then that no token of the value is. -/
def make (name : String) (custom : Bool) (value : SettingValue) : Except SchemaError Setting := do
  let name ← Name.make name
  match value.emptyToken? with
  | some part => .error (.emptyText part)
  | none => .ok { name, custom, value }

/-- The setting as a value, to be nested in another setting. -/
def toValue (setting : Setting) : SettingValue :=
  .nested setting.name setting.custom setting.value

/-- The first setting of the given name, custom or not. -/
def find? (settings : List Setting) (name : String) : Option Setting :=
  settings.find? fun setting => setting.name.text == name

/-- Whether the first setting of the given name is switched on, that is, has the
    value `true`. -/
def isOn (settings : List Setting) (name : String) : Bool :=
  match find? settings name with
  | some setting => decide (setting.value = .boolean true)
  | none => false

/-- A built setting is what it was built from. -/
theorem make_eq_ok_iff {name : String} {custom : Bool} {value : SettingValue} {setting : Setting} :
    make name custom value = .ok setting ↔
      setting.name.text = name ∧ setting.custom = custom ∧ setting.value = value ∧
        value.emptyToken? = none := by
  obtain ⟨⟨text, nonempty⟩, custom', value'⟩ := setting
  by_cases h : name = ""
  · subst h
    simp [make, bind, Except.bind, nonempty]
  · cases ht : value.emptyToken? with
    | some part =>
      simp only [make, Name.make, h, dite_false, bind, Except.bind, ht]
      simp
    | none =>
      simp only [make, Name.make, h, dite_false, bind, Except.bind, ht]
      simp [eq_comm]

end Setting

end WireSchema
