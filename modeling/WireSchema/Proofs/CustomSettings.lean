/-
  WireSchema/Proofs/CustomSettings.lean
  =====================================
  **Custom settings and the built-in ones.**  Whether an enum allows aliases and whether
  a field is deprecated is asked by the name of a setting, and the first setting of that
  name answers.  Custom settings of other names may be put in or taken out anywhere:
  neither answer changes, and no tag check of a file does, at whatever depth the enums
  stand.

  A custom setting of the very name that is asked for does count.  It answers in the
  place of a built-in one, so `(allow_alias) = true` switches off the tag check of an
  enum, and as the first of two it hides the built-in setting.  `Setting.isOn_insert`
  says exactly when a setting that is put in changes the answer.
-/
import WireSchema.Tags

namespace WireSchema

/-! ### One list of settings -/

namespace Setting

/-- Whether the setting is a built-in one. -/
def isBuiltIn (setting : Setting) : Bool := !setting.custom

/-- Whether the setting is built in or has the given name: all but custom settings of other
    names. -/
def bearsOn (name : String) (setting : Setting) : Bool :=
  setting.isBuiltIn || setting.name.text == name

/-- A setting is found without the custom settings of other names. -/
theorem find?_filter_bearsOn (settings : List Setting) (name : String) :
    find? (settings.filter (bearsOn name)) name = find? settings name := by
  rw [find?, find?, List.find?_filter]
  congr 1
  funext setting
  cases hname : setting.name.text == name <;> simp [bearsOn, hname]

theorem isOn_eq_of_filter_eq {settings others : List Setting} {name : String}
    (h : settings.filter (bearsOn name) = others.filter (bearsOn name)) :
    isOn settings name = isOn others name := by
  have hfind : find? settings name = find? others name := by
    rw [← find?_filter_bearsOn settings, h, find?_filter_bearsOn others]
  rw [isOn, isOn, hfind]

/-- A setting that is put in answers for its name, custom or not, unless one of that name
    stands before it. -/
theorem isOn_insert (before after : List Setting) (extra : Setting) (name : String) :
    isOn (before ++ extra :: after) name =
      if extra.name.text = name ∧ find? before name = none then
        decide (extra.value = .boolean true)
      else isOn (before ++ after) name := by
  have happend : ∀ settings : List Setting,
      find? (before ++ settings) name = (find? before name).or (find? settings name) :=
    fun settings => List.find?_append
  rw [isOn, isOn, happend, happend]
  cases hbefore : find? before name with
  | some held => simp
  | none =>
    by_cases hname : extra.name.text = name
    · have hextra : find? (extra :: after) name = some extra :=
        List.find?_cons_of_pos (by simpa using hname)
      simp [hname, hextra]
    · have hextra : find? (extra :: after) name = find? after name :=
        List.find?_cons_of_neg (by simpa using hname)
      simp [hname, hextra]

end Setting

/-! ### Enums at every depth -/

/-- The enum with some of its settings only. -/
def EnumDecl.keepSettings (keep : Setting → Bool) (decl : EnumDecl) : EnumDecl :=
  { decl with settings := decl.settings.filter keep }

namespace TypeDecl

mutual

/-- The type with some settings only on every enum in it. -/
def keepEnumSettings (keep : Setting → Bool) : TypeDecl → TypeDecl
  | .enum decl => .enum (decl.keepSettings keep)
  | .message core nested => .message core (keepEnumSettingsEach keep nested)

def keepEnumSettingsEach (keep : Setting → Bool) : List TypeDecl → List TypeDecl
  | [] => []
  | t :: ts => keepEnumSettings keep t :: keepEnumSettingsEach keep ts

end

variable (keep : Setting → Bool)

mutual

theorem flatten_keepEnumSettings : ∀ t : TypeDecl,
    (t.keepEnumSettings keep).flatten = t.flatten.map (keepEnumSettings keep)
  | .enum decl => by simp [keepEnumSettings, flatten]
  | .message core nested => by
    simp [keepEnumSettings, flatten, flattenAll_keepEnumSettingsEach nested]

theorem flattenAll_keepEnumSettingsEach : ∀ ts : List TypeDecl,
    flattenAll (keepEnumSettingsEach keep ts) = (flattenAll ts).map (keepEnumSettings keep)
  | [] => rfl
  | t :: ts => by
    rw [keepEnumSettingsEach, flattenAll, flattenAll, List.map_append,
      flatten_keepEnumSettings t, flattenAll_keepEnumSettingsEach ts]

end

/-- The check of one type looks at the settings of an enum only to see whether it allows
    aliases. -/
theorem checkTags_keepEnumSettings (extendBlocks : List ExtendBlock) (t : TypeDecl) :
    (t.keepEnumSettings (Setting.bearsOn "allow_alias")).checkTags extendBlocks =
      t.checkTags extendBlocks := by
  cases t with
  | message core nested => rfl
  | enum decl =>
    have halias : (decl.keepSettings (Setting.bearsOn "allow_alias")).allowsAlias =
        decl.allowsAlias := by
      apply Setting.isOn_eq_of_filter_eq
      rw [EnumDecl.keepSettings, List.filter_filter]
      simp
    simp only [keepEnumSettings, checkTags, halias]
    rfl

end TypeDecl

namespace SchemaFile

/-- The file with some settings only on the enums in it, at every depth. -/
def keepEnumSettings (keep : Setting → Bool) (file : SchemaFile) : SchemaFile :=
  { file with types := TypeDecl.keepEnumSettingsEach keep file.types }

theorem checkTags_keepEnumSettings (file : SchemaFile) :
    (file.keepEnumSettings (Setting.bearsOn "allow_alias")).checkTags = file.checkTags := by
  have htypes : ∀ ts : List TypeDecl,
      checkTypes file.extendBlocks
          (ts.map (TypeDecl.keepEnumSettings (Setting.bearsOn "allow_alias"))) =
        checkTypes file.extendBlocks ts := by
    intro ts
    induction ts with
    | nil => rfl
    | cons t ts ih => rw [List.map_cons, checkTypes, checkTypes, ih, t.checkTags_keepEnumSettings]
  rw [checkTags, allTypes, keepEnumSettings, TypeDecl.flattenAll_keepEnumSettingsEach]
  exact htypes file.allTypes

end SchemaFile

/-! ### What custom settings can and cannot do -/

/-- **Custom settings of other names have no influence.**  Lists that agree but for custom
    settings not called by the name that is asked for give the same answers, and files that
    agree but for such settings on their enums give the same report.  What a setting of that
    name does when it is put in does not depend on whether it is custom. -/
theorem custom_settings_without_influence (decl : EnumDecl) (field : Field)
    (file other : SchemaFile) (before after others : List Setting) (extra : Setting)
    (name : String) :
    (others.filter (Setting.bearsOn "allow_alias") =
        decl.settings.filter (Setting.bearsOn "allow_alias") →
      ({ decl with settings := others } : EnumDecl).allowsAlias = decl.allowsAlias) ∧
    (others.filter (Setting.bearsOn "deprecated") =
        field.settings.filter (Setting.bearsOn "deprecated") →
      ({ field with settings := others } : Field).isDeprecated = field.isDeprecated) ∧
    (other.keepEnumSettings (Setting.bearsOn "allow_alias") =
        file.keepEnumSettings (Setting.bearsOn "allow_alias") →
      other.checkTags = file.checkTags) ∧
    Setting.isOn (before ++ extra :: after) name =
      if extra.name.text = name ∧ Setting.find? before name = none then
        decide (extra.value = .boolean true)
      else Setting.isOn (before ++ after) name := by
  refine ⟨?_, ?_, ?_, Setting.isOn_insert before after extra name⟩
  · intro h
    exact Setting.isOn_eq_of_filter_eq h
  · intro h
    exact Setting.isOn_eq_of_filter_eq h
  · intro h
    rw [← other.checkTags_keepEnumSettings, h, file.checkTags_keepEnumSettings]

/-- A file with an enum inside a message.  Two values of the enum hold one tag, and the
    enum has the given settings. -/
def doubled (settings : List Setting) : SchemaFile where
  types :=
    [.message
      { name := ⟨"Job", by decide⟩
        qualifiedName := ""
        documentation := ""
        settings := []
        fields := []
        oneofs := []
        extensionRanges := [] }
      [.enum
        { name := ⟨"State", by decide⟩
          qualifiedName := ""
          documentation := ""
          settings
          values := [⟨⟨"STARTED", by decide⟩, 1, "", []⟩, ⟨⟨"RUNNING", by decide⟩, 1, "", []⟩] }]]

/-- A custom setting of another name leaves an enum, a field and a clash as they are. -/
theorem checkTags_doubled_custom :
    (doubled [⟨⟨"alias", by decide⟩, true, .boolean true⟩]).keepEnumSettings
        (Setting.bearsOn "allow_alias") =
      (doubled []).keepEnumSettings (Setting.bearsOn "allow_alias") ∧
    (doubled [⟨⟨"alias", by decide⟩, true, .boolean true⟩]).checkTags = (doubled []).checkTags ∧
    EnumDecl.allowsAlias ⟨⟨"State", by decide⟩, "", "",
      [⟨⟨"alias", by decide⟩, true, .boolean true⟩], []⟩ = false ∧
    Field.isDeprecated ⟨.singular, ⟨"int32", by decide⟩, ⟨"size", by decide⟩, 1, "",
      [⟨⟨"alias", by decide⟩, true, .boolean true⟩]⟩ = false := by
  obtain ⟨halias, hdeprecated, hreport, -⟩ := custom_settings_without_influence
    ⟨⟨"State", by decide⟩, "", "", [], []⟩
    ⟨.singular, ⟨"int32", by decide⟩, ⟨"size", by decide⟩, 1, "", []⟩
    (doubled []) (doubled [⟨⟨"alias", by decide⟩, true, .boolean true⟩]) [] []
    [⟨⟨"alias", by decide⟩, true, .boolean true⟩] ⟨⟨"alias", by decide⟩, true, .boolean true⟩ ""
  exact ⟨by decide, hreport (by decide), halias (by decide), hdeprecated (by decide)⟩

/-- **A custom setting answers for the built-in one of its name.**  Custom settings can make
    an enum allow aliases, hide that a field is deprecated, and hide the clash of a file. -/
theorem custom_settings_with_influence :
    ¬ (∀ (decl : EnumDecl) (others : List Setting),
      others.filter Setting.isBuiltIn = decl.settings.filter Setting.isBuiltIn →
      ({ decl with settings := others } : EnumDecl).allowsAlias = decl.allowsAlias) ∧
    ¬ (∀ (field : Field) (others : List Setting),
      others.filter Setting.isBuiltIn = field.settings.filter Setting.isBuiltIn →
      ({ field with settings := others } : Field).isDeprecated = field.isDeprecated) ∧
    ¬ (∀ file other : SchemaFile,
      other.keepEnumSettings Setting.isBuiltIn = file.keepEnumSettings Setting.isBuiltIn →
      other.checkTags.fault = file.checkTags.fault) := by
  refine ⟨?_, ?_, ?_⟩
  · intro hall
    have hsame := hall ⟨⟨"State", by decide⟩, "", "", [], []⟩
      [⟨⟨"allow_alias", by decide⟩, true, .boolean true⟩] (by decide)
    exact absurd hsame (by decide)
  · -- the custom setting stands before the built-in one and answers first
    intro hall
    have hsame := hall ⟨.singular, ⟨"int32", by decide⟩, ⟨"size", by decide⟩, 1, "",
        [⟨⟨"deprecated", by decide⟩, false, .boolean true⟩]⟩
      [⟨⟨"deprecated", by decide⟩, true, .string "soon"⟩,
        ⟨⟨"deprecated", by decide⟩, false, .boolean true⟩] (by decide)
    exact absurd hsame (by decide)
  · intro hall
    have hsame := hall (doubled []) (doubled [⟨⟨"allow_alias", by decide⟩, true, .boolean true⟩])
      (by decide)
    exact absurd hsame (by decide)

end WireSchema
