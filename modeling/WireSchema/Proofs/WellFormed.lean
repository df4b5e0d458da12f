/-
  WireSchema/Proofs/WellFormed.lean
  =================================
  **Whatever can be obtained is well formed.**  A declaration of any kind that comes
  from builders, changes to what was built, and readers, in any combination, satisfies
  at every depth:

    * no name, type reference, option name, map key, identifier or float literal is
      empty;
    * no extension range starts after its end;
    * a package, if there is one, is not empty.

  For names and ranges the builders are what refuses the rest.  For options it is the
  token check, and that check stops at the settings nested in a value: that nothing is
  empty below them holds because they went through the check themselves.  A value that
  no setting holds yet has not been checked, so only the settings in it are spoken of.
-/
import WireSchema.Proofs.Decoded

namespace WireSchema

/-! ### The settings inside a value -/

namespace SettingValue

mutual

/-- The settings that stand in a value, directly or in its maps and lists. -/
def settings : SettingValue → List Setting
  | .nested name custom value => [⟨name, custom, value⟩]
  | .map entries => settingsOfEntries entries
  | .list values => settingsOfEach values
  | _ => []

def settingsOfEntries : List (String × SettingValue) → List Setting
  | [] => []
  | (_, value) :: entries => settings value ++ settingsOfEntries entries

def settingsOfEach : List SettingValue → List Setting
  | [] => []
  | value :: values => settings value ++ settingsOfEach values

end

theorem settingsOfEntries_eq_flatMap (entries : List (String × SettingValue)) :
    settingsOfEntries entries = entries.flatMap fun entry => entry.2.settings := by
  induction entries with
  | nil => rfl
  | cons entry entries ih => simp [settingsOfEntries, ih]

theorem settingsOfEach_eq_flatMap (values : List SettingValue) :
    settingsOfEach values = values.flatMap settings := by
  induction values with
  | nil => rfl
  | cons value values ih => simp [settingsOfEach, ih]

mutual

/-- Every setting in a checked value is complete. -/
theorem complete_settings : ∀ (value : SettingValue), value.Checked →
    ∀ setting ∈ value.settings, Complete setting.texts
  | .string _, _ => by simp [settings]
  | .identifier _, _ => by simp [settings]
  | .integer _, _ => by simp [settings]
  | .float _, _ => by simp [settings]
  | .boolean _, _ => by simp [settings]
  | .nested name custom value, h => by
    rw [settings, List.forall_mem_singleton]
    exact List.forall_mem_cons.mpr ⟨present_name (.settingName custom) name, h⟩
  | .map entries, h => by
    rw [settings]
    exact complete_settingsOfEntries entries h
  | .list values, h => by
    rw [settings]
    exact complete_settingsOfEach values h

theorem complete_settingsOfEntries : ∀ (entries : List (String × SettingValue)),
    CheckedEntries entries → ∀ setting ∈ settingsOfEntries entries, Complete setting.texts
  | [], _ => by simp [settingsOfEntries]
  | (_, value) :: entries, h => by
    rw [settingsOfEntries]
    exact List.forall_mem_append.mpr
      ⟨complete_settings value h.1, complete_settingsOfEntries entries h.2⟩

theorem complete_settingsOfEach : ∀ (values : List SettingValue), CheckedEach values →
    ∀ setting ∈ settingsOfEach values, Complete setting.texts
  | [], _ => by simp [settingsOfEach]
  | value :: values, h => by
    rw [settingsOfEach]
    exact List.forall_mem_append.mpr
      ⟨complete_settings value h.1, complete_settingsOfEach values h.2⟩

end

end SettingValue

/-! ### Names and ranges -/

inductive Name.Obtainable : Name → Prop
  | made {text : String} {name : Name} (h : Name.make text = .ok name) : Obtainable name
  | decoded {json : Json} {name : Name} (h : Name.decode json = .ok name) : Obtainable name

inductive ExtensionRange.Obtainable : ExtensionRange → Prop
  | made {documentation : String} {first last : Int32} {range : ExtensionRange}
    (h : ExtensionRange.make documentation first last = .ok range) : Obtainable range
  | single (documentation : String) (tag : Int32) :
    Obtainable (ExtensionRange.single documentation tag)
  | decoded {position : Position} {json : Json} {range : ExtensionRange}
    (h : ExtensionRange.decodeAt position json = .ok range) : Obtainable range

/-- The first and the last tag of a range. -/
def ExtensionRange.bounds (range : ExtensionRange) : Int32 × Int32 := (range.first, range.last)

/-- The bounds of the extension ranges of a type, and of every type inside it. -/
def TypeDecl.bounds (t : TypeDecl) : List (Int32 × Int32) :=
  t.flatten.flatMap fun
    | .enum _ => []
    | .message core _ => core.extensionRanges.map ExtensionRange.bounds

/-! ### Declarations of any kind -/

inductive Declaration
  | name (name : Name)
  | value (value : SettingValue)
  | setting (setting : Setting)
  | enumValue (value : EnumValue)
  | enum (decl : EnumDecl)
  | field (field : Field)
  | oneof (oneof : Oneof)
  | range (range : ExtensionRange)
  | extend (extend : ExtendBlock)
  | message (message : Message)
  | type (t : TypeDecl)
  | rpc (rpc : Rpc)
  | service (service : Service)
  | file (file : SchemaFile)

namespace Declaration

def Obtainable : Declaration → Prop
  | .name decl => decl.Obtainable
  | .value decl => decl.Obtainable
  | .setting decl => decl.Obtainable
  | .enumValue decl => decl.Obtainable
  | .enum decl => decl.Obtainable
  | .field decl => decl.Obtainable
  | .oneof decl => decl.Obtainable
  | .range decl => decl.Obtainable
  | .extend decl => decl.Obtainable
  | .message decl => decl.Obtainable
  | .type decl => decl.Obtainable
  | .rpc decl => decl.Obtainable
  | .service decl => decl.Obtainable
  | .file decl => decl.Obtainable

/-- The texts of a declaration at every depth.  Of a value by itself, these are the texts
    of the settings in it. -/
def texts : Declaration → List TextPart
  | .name decl => [⟨.name, decl.text⟩]
  | .value decl => decl.settings.flatMap Setting.texts
  | .setting decl => decl.texts
  | .enumValue decl => decl.texts
  | .enum decl => decl.texts
  | .field decl => decl.texts
  | .oneof decl => decl.texts
  | .range decl => decl.texts
  | .extend decl => decl.texts
  | .message decl => decl.toType.texts
  | .type decl => decl.texts
  | .rpc decl => decl.texts
  | .service decl => decl.texts
  | .file decl => decl.texts

/-- The bounds of the extension ranges in a declaration, at every depth. -/
def bounds : Declaration → List (Int32 × Int32)
  | .range decl => [decl.bounds]
  | .message decl => decl.toType.bounds
  | .type decl => decl.bounds
  | .file decl => decl.types.flatMap TypeDecl.bounds
  | _ => []

/-- The text of the package, if the declaration is a file that has one. -/
def packageText : Declaration → Option String
  | .file decl => decl.packageName.map Name.text
  | _ => none

structure WellFormed (declaration : Declaration) : Prop where
  texts : ∀ part ∈ declaration.texts, part.role ≠ .documentation → part.text ≠ ""
  bounds : ∀ range ∈ declaration.bounds, range.1 ≤ range.2
  package : declaration.packageText ≠ some ""

/-- What can be obtained is complete, whichever way it was obtained. -/
theorem Obtainable.complete {declaration : Declaration} (h : declaration.Obtainable) :
    Complete declaration.texts := by
  cases declaration with
  | name name => exact List.forall_mem_singleton.mpr (present_name .name name)
  | value value =>
    rw [texts, complete_flatMap]
    exact value.complete_settings (SettingValue.Obtainable.checked h)
  | setting setting => exact Setting.Obtainable.complete h
  | enumValue value => exact EnumValue.Obtainable.complete h
  | enum decl => exact EnumDecl.Obtainable.complete h
  | field field => exact Field.Obtainable.complete h
  | oneof oneof => exact Oneof.Obtainable.complete h
  | range range => simp [texts, ExtensionRange.texts]
  | extend extend => exact ExtendBlock.Obtainable.complete h
  | message message => exact Message.Obtainable.complete h
  | type t => exact TypeDecl.Obtainable.complete h
  | rpc rpc => exact Rpc.Obtainable.complete h
  | service service => exact Service.Obtainable.complete h
  | file file => exact SchemaFile.Obtainable.complete h

theorem le_of_mem_typeBounds {t : TypeDecl} : ∀ range ∈ t.bounds, range.1 ≤ range.2 := by
  intro range hrange
  obtain ⟨inner, -, hinner⟩ := List.mem_flatMap.mp hrange
  cases inner with
  | enum decl => exact absurd hinner List.not_mem_nil
  | message core nested =>
    obtain ⟨declared, -, rfl⟩ := List.mem_map.mp hinner
    exact declared.first_le_last

theorem le_of_mem_bounds (declaration : Declaration) :
    ∀ range ∈ declaration.bounds, range.1 ≤ range.2 := by
  intro range hrange
  cases declaration with
  | range declared =>
    obtain rfl := List.mem_singleton.mp hrange
    exact declared.first_le_last
  | message message => exact le_of_mem_typeBounds range hrange
  | type t => exact le_of_mem_typeBounds range hrange
  | file file =>
    obtain ⟨t, -, ht⟩ := List.mem_flatMap.mp hrange
    exact le_of_mem_typeBounds range ht
  | _ => exact absurd hrange List.not_mem_nil

/-- **Whatever can be obtained is well formed.** -/
theorem wellFormed_of_obtainable (declaration : Declaration) (h : declaration.Obtainable) :
    declaration.WellFormed := by
  refine ⟨?_, declaration.le_of_mem_bounds, ?_⟩
  · intro part hpart hrole
    rcases h.complete part hpart with hdocumentation | hpresent
    · exact absurd hdocumentation hrole
    · exact hpresent
  · cases declaration with
    | file file =>
      intro hempty
      obtain ⟨name, -, hname⟩ := Option.map_eq_some_iff.mp hempty
      exact name.nonempty hname
    | _ => exact nofun

/-- A setting whose value holds a map, a list in it, and a setting in the list.  The token
    check of the outer one does not look into the inner one. -/
def quota : Setting :=
  ⟨⟨"quota", by decide⟩, true,
    .map [("a", .list [.nested ⟨"peak", by decide⟩ false (.identifier "B")])]⟩

theorem obtainable_quota : quota.Obtainable := by
  have hinner : (⟨⟨"peak", by decide⟩, false, .identifier "B"⟩ : Setting).Obtainable :=
    .made (.identifier "B") (Setting.make_eq_ok_iff.mpr ⟨rfl, rfl, rfl, by decide⟩)
  refine .made (.map ?_) (Setting.make_eq_ok_iff.mpr ⟨rfl, rfl, rfl, by decide⟩)
  exact List.forall_mem_singleton.mpr (.list (List.forall_mem_singleton.mpr (.nested hinner)))

/-- A file with a package and with that setting. -/
def limited : SchemaFile := SchemaFile.withPackage { settings := [quota] } "a.v1"

theorem wellFormed_limited : (file limited).Obtainable ∧ (file limited).WellFormed := by
  have hfile : (file limited).Obtainable :=
    .withPackage "a.v1" (.withSettings (.new "")
      (List.forall_mem_singleton.mpr obtainable_quota))
  exact ⟨hfile, wellFormed_of_obtainable (file limited) hfile⟩

end Declaration

end WireSchema
