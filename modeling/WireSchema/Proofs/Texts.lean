/-
  WireSchema/Proofs/Texts.lean
  ============================
  **The texts of a declaration.**  Much of what is said about declarations is
  said about the texts they are made of: that no name has a line break in it,
  that every map key is an identifier, that no token is empty.  `texts` lists
  these texts, each with the role it plays, for every kind of declaration and at
  every depth, so that such a condition is one statement over one list.

  String values are not listed: they are written as literals and may be
  anything.
-/
import WireSchema.File

namespace WireSchema

/-- The role that a text plays in a declaration.  The names of options, custom or not, are told
    from the names of declarations, and the last three stand in the values of options. -/
inductive TextRole
  | name
  | typeRef
  | documentation
  | settingName (custom : Bool)
  | identifier
  | float
  | mapKey
  deriving DecidableEq, Repr

structure TextPart where
  role : TextRole
  text : String
  deriving DecidableEq, Repr

/-! ### Options -/

namespace SettingValue

mutual

/-- The texts of an option value, those of nested settings included. -/
def texts : SettingValue → List TextPart
  | .identifier text => [⟨.identifier, text⟩]
  | .float text => [⟨.float, text⟩]
  | .nested name custom value => ⟨.settingName custom, name.text⟩ :: texts value
  | .map entries => textsOfEntries entries
  | .list values => textsOfEach values
  | _ => []

def textsOfEntries : List (String × SettingValue) → List TextPart
  | [] => []
  | (key, value) :: entries => ⟨.mapKey, key⟩ :: texts value ++ textsOfEntries entries

def textsOfEach : List SettingValue → List TextPart
  | [] => []
  | value :: values => texts value ++ textsOfEach values

end

theorem textsOfEntries_eq_flatMap (entries : List (String × SettingValue)) :
    textsOfEntries entries = entries.flatMap fun entry => ⟨.mapKey, entry.1⟩ :: entry.2.texts := by
  induction entries with
  | nil => rfl
  | cons entry entries ih => simp [textsOfEntries, ih]

theorem textsOfEach_eq_flatMap (values : List SettingValue) :
    textsOfEach values = values.flatMap texts := by
  induction values with
  | nil => rfl
  | cons value values ih => simp [textsOfEach, ih]

/-- Induction over option values.  At a map or list the hypothesis holds for every item. -/
@[elab_as_elim]
theorem inductionOnItems {motive : SettingValue → Prop}
    (string : ∀ text, motive (.string text)) (identifier : ∀ text, motive (.identifier text))
    (integer : ∀ value, motive (.integer value)) (float : ∀ text, motive (.float text))
    (boolean : ∀ value, motive (.boolean value))
    (nested : ∀ name custom value, motive value → motive (.nested name custom value))
    (map : ∀ entries : List (String × SettingValue), (∀ entry ∈ entries, motive entry.2) →
      motive (.map entries))
    (list : ∀ values : List SettingValue, (∀ value ∈ values, motive value) →
      motive (.list values))
    (value : SettingValue) : motive value := by
  refine @SettingValue.rec motive (fun entries => ∀ entry ∈ entries, motive entry.2)
    (fun values => ∀ value ∈ values, motive value) (fun entry => motive entry.2)
    string identifier integer float boolean nested map list ?_ ?_ ?_ ?_ ?_ value
  · exact fun entry hentry => absurd hentry List.not_mem_nil
  · exact fun entry entries hhead htail => List.forall_mem_cons.mpr ⟨hhead, htail⟩
  · exact fun value hvalue => absurd hvalue List.not_mem_nil
  · exact fun value values hhead htail => List.forall_mem_cons.mpr ⟨hhead, htail⟩
  · exact fun key value hvalue => hvalue

end SettingValue

/-- The texts of a setting: those of the value that it is when it is nested. -/
def Setting.texts (setting : Setting) : List TextPart := setting.toValue.texts

/-! ### Enums, fields and extensions -/

def EnumValue.texts (value : EnumValue) : List TextPart :=
  ⟨.documentation, value.documentation⟩ :: ⟨.name, value.name.text⟩ ::
    value.settings.flatMap Setting.texts

def EnumDecl.texts (decl : EnumDecl) : List TextPart :=
  ⟨.documentation, decl.documentation⟩ :: ⟨.name, decl.name.text⟩ ::
    (decl.settings.flatMap Setting.texts ++ decl.values.flatMap EnumValue.texts)

def Field.texts (field : Field) : List TextPart :=
  ⟨.documentation, field.documentation⟩ :: ⟨.typeRef, field.typeRef.text⟩ ::
    ⟨.name, field.name.text⟩ :: field.settings.flatMap Setting.texts

def Oneof.texts (oneof : Oneof) : List TextPart :=
  ⟨.documentation, oneof.documentation⟩ :: ⟨.name, oneof.name.text⟩ ::
    oneof.fields.flatMap Field.texts

def ExtensionRange.texts (range : ExtensionRange) : List TextPart :=
  [⟨.documentation, range.documentation⟩]

def ExtendBlock.texts (extend : ExtendBlock) : List TextPart :=
  ⟨.documentation, extend.documentation⟩ :: ⟨.name, extend.name.text⟩ ::
    extend.fields.flatMap Field.texts

/-! ### Types -/

def MessageCore.texts (core : MessageCore) : List TextPart :=
  ⟨.documentation, core.documentation⟩ :: ⟨.name, core.name.text⟩ ::
    (core.settings.flatMap Setting.texts ++ core.fields.flatMap Field.texts ++
      core.oneofs.flatMap Oneof.texts ++ core.extensionRanges.flatMap ExtensionRange.texts)

namespace TypeDecl

mutual

/-- The texts of a type and of every type declared inside it. -/
def texts : TypeDecl → List TextPart
  | .enum decl => decl.texts
  | .message core nested => core.texts ++ textsOfEach nested

def textsOfEach : List TypeDecl → List TextPart
  | [] => []
  | t :: ts => texts t ++ textsOfEach ts

end

theorem textsOfEach_eq_flatMap (ts : List TypeDecl) : textsOfEach ts = ts.flatMap texts := by
  induction ts with
  | nil => rfl
  | cons t ts ih => simp [textsOfEach, ih]

end TypeDecl

/-! ### Services and files -/

def Rpc.texts (rpc : Rpc) : List TextPart :=
  ⟨.documentation, rpc.documentation⟩ :: ⟨.name, rpc.name.text⟩ ::
    ⟨.typeRef, rpc.requestType.text⟩ :: ⟨.typeRef, rpc.responseType.text⟩ ::
    rpc.settings.flatMap Setting.texts

def Service.texts (service : Service) : List TextPart :=
  ⟨.documentation, service.documentation⟩ :: ⟨.name, service.name.text⟩ ::
    (service.settings.flatMap Setting.texts ++ service.rpcs.flatMap Rpc.texts)

/-- The texts of all declarations of a file.  Its path and its package are not
    among them: they are parts of the file, not of a declaration in it. -/
def SchemaFile.texts (file : SchemaFile) : List TextPart :=
  file.settings.flatMap Setting.texts ++ file.types.flatMap TypeDecl.texts ++
    file.extendBlocks.flatMap ExtendBlock.texts ++ file.services.flatMap Service.texts

end WireSchema
