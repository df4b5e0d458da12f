/-
  WireSchema/Proofs/Obtainable.lean
  =================================
  **What declarations can be obtained.**  A declaration comes from one of the
  checked builders, applied to parts that were obtained before, or from reading a
  JSON tree.  The types of names, type references and extension ranges rule out
  what the builders refuse; the type of settings does not, since a value by itself
  may hold any tokens.  `Obtainable` says for every kind of declaration which of
  its values there can be.

  The invariant of all of them is that every text which must not be empty is not
  empty (`TextPart.Present`), at every depth.  A value that no setting holds yet is
  the one exception: only the settings nested in it have been checked
  (`SettingValue.Checked`).
-/
import WireSchema.Proofs.Texts
import WireSchema.Codec.File

namespace WireSchema

/-! ### Options -/

mutual

/-- The option values that can be obtained: any scalar, a setting that was
    obtained, maps and lists of such values, and what is read from JSON. -/
inductive SettingValue.Obtainable : SettingValue → Prop
  | string (text : String) : SettingValue.Obtainable (.string text)
  | identifier (text : String) : SettingValue.Obtainable (.identifier text)
  | integer (value : Int64) : SettingValue.Obtainable (.integer value)
  | float (text : String) : SettingValue.Obtainable (.float text)
  | boolean (value : Bool) : SettingValue.Obtainable (.boolean value)
  | nested {setting : Setting} (h : Setting.Obtainable setting) :
    SettingValue.Obtainable setting.toValue
  | map {entries : List (String × SettingValue)}
    (h : ∀ entry ∈ entries, SettingValue.Obtainable entry.2) :
    SettingValue.Obtainable (.map entries)
  | list {values : List SettingValue} (h : ∀ value ∈ values, SettingValue.Obtainable value) :
    SettingValue.Obtainable (.list values)
  | decoded {position : Position} {json : Json} {value : SettingValue}
    (h : SettingValue.decode position json = .ok value) : SettingValue.Obtainable value

/-- The settings that can be obtained: built from such a value, or read from
    JSON. -/
inductive Setting.Obtainable : Setting → Prop
  | made {name : String} {custom : Bool} {value : SettingValue} {setting : Setting}
    (hvalue : SettingValue.Obtainable value) (h : Setting.make name custom value = .ok setting) :
    Setting.Obtainable setting
  | decoded {position : Position} {json : Json} {setting : Setting}
    (h : Setting.decode position json = .ok setting) : Setting.Obtainable setting

end

/-! ### Enums, fields and extensions -/

inductive EnumValue.Obtainable : EnumValue → Prop
  | made {name : String} {tag : Int32} {documentation : String} {settings : List Setting}
    {value : EnumValue} (hsettings : ∀ setting ∈ settings, setting.Obtainable)
    (h : EnumValue.make name tag documentation settings = .ok value) : Obtainable value
  | decoded {position : Position} {json : Json} {value : EnumValue}
    (h : EnumValue.decode position json = .ok value) : Obtainable value

inductive EnumDecl.Obtainable : EnumDecl → Prop
  | made {name qualifiedName documentation : String} {settings : List Setting}
    {values : List EnumValue} {decl : EnumDecl}
    (hsettings : ∀ setting ∈ settings, setting.Obtainable)
    (hvalues : ∀ value ∈ values, value.Obtainable)
    (h : EnumDecl.make name qualifiedName documentation settings values = .ok decl) :
    Obtainable decl
  | decoded {position : Position} {json : Json} {decl : EnumDecl}
    (h : EnumDecl.decode position json = .ok decl) : Obtainable decl

inductive Field.Obtainable : Field → Prop
  | made {label : Label} {typeRef name : String} {tag : Int32} {documentation : String}
    {settings : List Setting} {field : Field}
    (hsettings : ∀ setting ∈ settings, setting.Obtainable)
    (h : Field.make label typeRef name tag documentation settings = .ok field) : Obtainable field
  | decoded {position : Position} {json : Json} {field : Field}
    (h : Field.decode position json = .ok field) : Obtainable field

inductive Oneof.Obtainable : Oneof → Prop
  | made {name documentation : String} {fields : List Field} {oneof : Oneof}
    (hfields : ∀ field ∈ fields, field.Obtainable)
    (h : Oneof.make name documentation fields = .ok oneof) : Obtainable oneof
  | decoded {position : Position} {json : Json} {oneof : Oneof}
    (h : Oneof.decode position json = .ok oneof) : Obtainable oneof

inductive ExtendBlock.Obtainable : ExtendBlock → Prop
  | made {name qualifiedName documentation : String} {fields : List Field} {extend : ExtendBlock}
    (hfields : ∀ field ∈ fields, field.Obtainable)
    (h : ExtendBlock.make name qualifiedName documentation fields = .ok extend) :
    Obtainable extend
  | decoded {json : Json} {extend : ExtendBlock} (h : ExtendBlock.decode json = .ok extend) :
    Obtainable extend

/-! ### Types -/

mutual

/-- The messages that can be obtained: built, changed by one of the two ways to
    change a message, or read from JSON. -/
inductive Message.Obtainable : Message → Prop
  | made {name qualifiedName documentation : String} {settings : List Setting}
    {fields : List Field} {nested : List TypeDecl} {message : Message}
    (hsettings : ∀ setting ∈ settings, setting.Obtainable)
    (hfields : ∀ field ∈ fields, field.Obtainable)
    (hnested : ∀ t ∈ nested, TypeDecl.Obtainable t)
    (h : Message.make name qualifiedName documentation settings fields nested = .ok message) :
    Message.Obtainable message
  | withOneofs {message : Message} {oneofs : List Oneof} (h : Message.Obtainable message)
    (honeofs : ∀ oneof ∈ oneofs, oneof.Obtainable) : Message.Obtainable (message.withOneofs oneofs)
  | withExtensionRanges {message : Message} (ranges : List ExtensionRange)
    (h : Message.Obtainable message) : Message.Obtainable (message.withExtensionRanges ranges)
  | decoded {position : Position} {json : Json} {message : Message}
    (h : Message.decodeAt position json = .ok message) :
    Message.Obtainable message

/-- The types that can be obtained: enums and messages that were, and what is
    read from JSON. -/
inductive TypeDecl.Obtainable : TypeDecl → Prop
  | enum {decl : EnumDecl} (h : decl.Obtainable) : TypeDecl.Obtainable (.enum decl)
  | message {message : Message} (h : Message.Obtainable message) :
    TypeDecl.Obtainable message.toType
  | decoded {position : Position} {json : Json} {t : TypeDecl}
    (h : TypeDecl.decode position json = .ok t) : TypeDecl.Obtainable t

end

/-! ### Services and files -/

inductive Rpc.Obtainable : Rpc → Prop
  | made {name documentation requestType responseType : String} {settings : List Setting}
    {rpc : Rpc} (hsettings : ∀ setting ∈ settings, setting.Obtainable)
    (h : Rpc.make name documentation requestType responseType settings = .ok rpc) :
    Obtainable rpc
  | withStreaming {rpc : Rpc} (client server : Bool) (h : Obtainable rpc) :
    Obtainable (rpc.withStreaming client server)
  | decoded {json : Json} {rpc : Rpc} (h : Rpc.decode json = .ok rpc) : Obtainable rpc

inductive Service.Obtainable : Service → Prop
  | made {name qualifiedName documentation : String} {settings : List Setting} {rpcs : List Rpc}
    {service : Service} (hsettings : ∀ setting ∈ settings, setting.Obtainable)
    (hrpcs : ∀ rpc ∈ rpcs, rpc.Obtainable)
    (h : Service.make name qualifiedName documentation settings rpcs = .ok service) :
    Obtainable service
  | decoded {json : Json} {service : Service} (h : Service.decode json = .ok service) :
    Obtainable service

/-- The files that can be obtained: the empty file of a path, changed part by
    part, and what is read from JSON. -/
inductive SchemaFile.Obtainable : SchemaFile → Prop
  | new (path : String) : Obtainable { path }
  | withPackage {file : SchemaFile} (name : String) (h : Obtainable file) :
    Obtainable (file.withPackage name)
  | withDialect {file : SchemaFile} (dialect : Dialect) (h : Obtainable file) :
    Obtainable { file with dialect := some dialect }
  | withImports {file : SchemaFile} (imports publicImports : List String) (h : Obtainable file) :
    Obtainable { file with imports, publicImports }
  | withTypes {file : SchemaFile} {types : List TypeDecl} (h : Obtainable file)
    (htypes : ∀ t ∈ types, t.Obtainable) : Obtainable { file with types }
  | withServices {file : SchemaFile} {services : List Service} (h : Obtainable file)
    (hservices : ∀ service ∈ services, service.Obtainable) : Obtainable { file with services }
  | withExtendBlocks {file : SchemaFile} {extendBlocks : List ExtendBlock} (h : Obtainable file)
    (hextends : ∀ extend ∈ extendBlocks, extend.Obtainable) :
    Obtainable { file with extendBlocks }
  | withSettings {file : SchemaFile} {settings : List Setting} (h : Obtainable file)
    (hsettings : ∀ setting ∈ settings, setting.Obtainable) : Obtainable { file with settings }
  | decoded {json : Json} {file : SchemaFile} (h : SchemaFile.decode json = .ok file) :
    Obtainable file

/-! ### No required text is empty -/

/-- A text that may stand where it stands: only documentation may be empty. -/
def TextPart.Present (part : TextPart) : Prop := part.role = .documentation ∨ part.text ≠ ""

def Complete (texts : List TextPart) : Prop := ∀ part ∈ texts, part.Present

@[simp] theorem present_documentation (text : String) :
    (⟨.documentation, text⟩ : TextPart).Present :=
  Or.inl rfl

@[simp] theorem present_name (role : TextRole) (name : Name) :
    (⟨role, name.text⟩ : TextPart).Present :=
  Or.inr name.nonempty

@[simp] theorem present_typeRef (role : TextRole) (reference : TypeRef) :
    (⟨role, reference.text⟩ : TextPart).Present :=
  Or.inr reference.nonempty

@[simp] theorem complete_nil : Complete [] := by simp [Complete]

@[simp] theorem complete_cons {part : TextPart} {texts : List TextPart} :
    Complete (part :: texts) ↔ part.Present ∧ Complete texts :=
  List.forall_mem_cons

@[simp] theorem complete_append {left right : List TextPart} :
    Complete (left ++ right) ↔ Complete left ∧ Complete right :=
  List.forall_mem_append

@[simp] theorem complete_flatMap {α : Type} {entries : List α} {texts : α → List TextPart} :
    Complete (entries.flatMap texts) ↔ ∀ entry ∈ entries, Complete (texts entry) :=
  List.forall_mem_flatMap

namespace SettingValue

mutual

/-- Every setting nested in the value is complete: the texts of its value are all
    there.  Of the value itself nothing is said. -/
def Checked : SettingValue → Prop
  | .nested _ _ value => Complete value.texts
  | .map entries => CheckedEntries entries
  | .list values => CheckedEach values
  | _ => True

def CheckedEntries : List (String × SettingValue) → Prop
  | [] => True
  | (_, value) :: entries => Checked value ∧ CheckedEntries entries

def CheckedEach : List SettingValue → Prop
  | [] => True
  | value :: values => Checked value ∧ CheckedEach values

end

theorem checkedEntries_iff {entries : List (String × SettingValue)} :
    CheckedEntries entries ↔ ∀ entry ∈ entries, entry.2.Checked := by
  induction entries with
  | nil => simp [CheckedEntries]
  | cons entry entries ih => simp only [CheckedEntries, ih, List.forall_mem_cons]

theorem checkedEach_iff {values : List SettingValue} :
    CheckedEach values ↔ ∀ value ∈ values, value.Checked := by
  induction values with
  | nil => simp [CheckedEach]
  | cons value values ih => simp only [CheckedEach, ih, List.forall_mem_cons]

mutual

/-- A checked value whose own tokens are not empty is complete at every depth:
    the token check may stop at nested settings. -/
theorem complete_of_checked : ∀ (value : SettingValue), value.Checked → value.emptyToken? = none →
    Complete value.texts
  | .string _, _, _ => by simp [texts]
  | .integer _, _, _ => by simp [texts]
  | .boolean _, _, _ => by simp [texts]
  | .identifier text, _, h => by
    have hne : text ≠ "" := by simpa [emptyToken?] using h
    simpa [texts, TextPart.Present] using hne
  | .float text, _, h => by
    have hne : text ≠ "" := by simpa [emptyToken?] using h
    simpa [texts, TextPart.Present] using hne
  | .nested name custom value, hchecked, _ => by
    simp only [texts, complete_cons]
    exact ⟨Or.inr name.nonempty, hchecked⟩
  | .map entries, hchecked, h => by
    simp only [texts]
    exact complete_of_checkedEntries entries hchecked h
  | .list values, hchecked, h => by
    simp only [texts]
    exact complete_of_checkedEach values hchecked h

theorem complete_of_checkedEntries : ∀ (entries : List (String × SettingValue)),
    CheckedEntries entries → emptyTokenInEntries? entries = none →
      Complete (textsOfEntries entries)
  | [], _, _ => by simp [textsOfEntries]
  | (key, value) :: entries, hchecked, h => by
    simp only [emptyTokenInEntries?] at h
    split at h
    · exact nomatch h
    · rename_i hkey
      rw [Option.or_eq_none_iff] at h
      simp only [textsOfEntries, List.cons_append, complete_cons, complete_append]
      exact ⟨Or.inr hkey, complete_of_checked value hchecked.1 h.1,
        complete_of_checkedEntries entries hchecked.2 h.2⟩

theorem complete_of_checkedEach : ∀ (values : List SettingValue),
    CheckedEach values → emptyTokenInList? values = none →
      Complete (textsOfEach values)
  | [], _, _ => by simp [textsOfEach]
  | value :: values, hchecked, h => by
    simp only [emptyTokenInList?, Option.or_eq_none_iff] at h
    simp only [textsOfEach, complete_append]
    exact ⟨complete_of_checked value hchecked.1 h.1,
      complete_of_checkedEach values hchecked.2 h.2⟩

end

mutual

/-- A complete value passes the token check, and so does every setting in it. -/
theorem checked_of_complete : ∀ (value : SettingValue), Complete value.texts →
    value.Checked ∧ value.emptyToken? = none
  | .string _, _ => ⟨trivial, rfl⟩
  | .integer _, _ => ⟨trivial, rfl⟩
  | .boolean _, _ => ⟨trivial, rfl⟩
  | .identifier text, h => by
    have hne : text ≠ "" := by simpa [texts, TextPart.Present] using h
    exact ⟨trivial, by simp [emptyToken?, hne]⟩
  | .float text, h => by
    have hne : text ≠ "" := by simpa [texts, TextPart.Present] using h
    exact ⟨trivial, by simp [emptyToken?, hne]⟩
  | .nested name custom value, h => by
    simp only [texts, complete_cons] at h
    exact ⟨h.2, rfl⟩
  | .map entries, h => by
    simp only [texts] at h
    exact checkedEntries_of_complete entries h
  | .list values, h => by
    simp only [texts] at h
    exact checkedEach_of_complete values h

theorem checkedEntries_of_complete : ∀ (entries : List (String × SettingValue)),
    Complete (textsOfEntries entries) →
      CheckedEntries entries ∧ emptyTokenInEntries? entries = none
  | [], _ => ⟨trivial, rfl⟩
  | (key, value) :: entries, h => by
    simp only [textsOfEntries, List.cons_append, complete_cons, complete_append] at h
    obtain ⟨hkey, hvalue, hentries⟩ := h
    have hne : key ≠ "" := by simpa [TextPart.Present] using hkey
    have hhead := checked_of_complete value hvalue
    have htail := checkedEntries_of_complete entries hentries
    exact ⟨⟨hhead.1, htail.1⟩, by simp [emptyTokenInEntries?, hne, hhead.2, htail.2]⟩

theorem checkedEach_of_complete : ∀ (values : List SettingValue),
    Complete (textsOfEach values) →
      CheckedEach values ∧ emptyTokenInList? values = none
  | [], _ => ⟨trivial, rfl⟩
  | value :: values, h => by
    simp only [textsOfEach, complete_append] at h
    have hhead := checked_of_complete value h.1
    have htail := checkedEach_of_complete values h.2
    exact ⟨⟨hhead.1, htail.1⟩, by simp [emptyTokenInList?, hhead.2, htail.2]⟩

end

end SettingValue

end WireSchema
