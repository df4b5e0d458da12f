/-
  WireSchema/Proofs/RoundTrip.lean
  ================================
  **What is written reads back.**  Each declaration is read from the members it was
  written to: a look-up lemma finds every member under its own key, and a skipped
  member is found missing, which is read as its default.  Settings are built again
  by `Setting.make`, which accepts them because they are complete.

  A type is its enum or message with one member more, so the readers of those two
  are shown to read back from any members that agree outside that key.
-/
import Mathlib.Control.Monad.Basic
import WireSchema.Proofs.Decoded

namespace WireSchema

open Json (Members readMember readText readItems readNullable readFlag member? require textMember
  listMember optionMember ofTag)

/-! ### Members that read back -/

@[simp] theorem ok_bind {ε α β : Type} (a : α) (f : α → Except ε β) :
    (Except.ok a >>= f) = f a := rfl

namespace Json

attribute [simp] member?_append member?_textMember member?_listMember member?_optionMember

@[simp] theorem require_some {α : Type} (key : String) (value : α) :
    require key (some value) = .ok value := rfl

theorem readMember_of_member? {α : Type} {members : Members} {key : String} {json : Json}
    {read : Json → Except DecodeError α} {value : α} (hmember : member? key members = some json)
    (h : read json = .ok value) : readMember members key read = .ok (some value) := by
  simp [readMember, hmember, h]

end Json

/-! ### Options -/

namespace SettingValue

theorem decode_tagged (position : Position) (kind : SettingKind) (content : Json) :
    decode position (tagged kind content) = decodeAs position kind content := by
  have hkind : SettingKind.decode position [("kind", .str kind.word), ("value", content)] =
      .ok kind := by
    simp [SettingKind.decode, readMember]
  simp [tagged, decode, hkind, decodeContent]

theorem ofMembers_settingJson {name : Name} {custom : Bool} {value : SettingValue}
    {json : Json} (hvalue : value.emptyToken? = none) :
    (RawSetting.ofMembers
        [("name", name.encode), ("value", json), ("parenthesized", .bool custom)]
        (.ok (some value)) >>= RawSetting.build) =
      .ok ⟨name, custom, value⟩ := by
  have hmake : Setting.make name.text custom value = .ok ⟨name, custom, value⟩ :=
    Setting.make_eq_ok_iff.mpr ⟨rfl, rfl, rfl, hvalue⟩
  simp [RawSetting.ofMembers, RawSetting.build, readMember, readFlag, Name.encode, member?, hmake,
    Json.checked]

mutual

/-- A value reads back if every setting nested in it is complete. -/
theorem decode_encode (position : Position) : ∀ (value : SettingValue), value.Checked →
    decode position value.encode = .ok value
  | .string text, _ => by
    rw [encode, decode_tagged]
    rfl
  | .identifier text, _ => by
    rw [encode, decode_tagged]
    rfl
  | .integer value, _ => by
    rw [encode, decode_tagged, decodeAs, Json.readInt64_toInt]
    rfl
  | .float text, _ => by
    rw [encode, decode_tagged]
    rfl
  | .boolean value, _ => by
    rw [encode, decode_tagged]
    rfl
  | .nested name custom value, h => by
    -- reading builds the setting anew, so its value must pass the token check once more
    obtain ⟨hchecked, htokens⟩ := checked_of_complete value h
    have hvalue := decode_encode position value hchecked
    have hmember : decodeMember position [("name", name.encode), ("value", value.encode),
        ("parenthesized", .bool custom)] = .ok (some value) := by
      simp [decodeMember, hvalue]
    rw [encode, decode_tagged, settingJson, decodeAs, hmember, ← map_bind,
      ofMembers_settingJson htokens]
    rfl
  | .map entries, h => by
    rw [encode, decode_tagged, decodeAs, decodeEntries_encodeEntries position entries h]
    rfl
  | .list values, h => by
    rw [encode, decode_tagged, decodeAs, decodeEach_encodeEach position values h]
    rfl

theorem decodeEntries_encodeEntries (position : Position) :
    ∀ (entries : List (String × SettingValue)), CheckedEntries entries →
      decodeEntries position (encodeEntries entries) = .ok entries
  | [], _ => rfl
  | (key, value) :: entries, h => by
    have hentry : decodeEntry position [.str key, value.encode] = .ok (key, value) := by
      simp [decodeEntry, decode_encode position value h.1, Json.endArray]
    have hentries := decodeEntries_encodeEntries position entries h.2
    rw [encodeEntries, decodeEntries, hentry, hentries]
    rfl

theorem decodeEach_encodeEach (position : Position) :
    ∀ (values : List SettingValue), CheckedEach values →
      decodeEach position (encodeEach values) = .ok values
  | [], _ => rfl
  | value :: values, h => by
    rw [encodeEach, decodeEach, decode_encode position value h.1,
      decodeEach_encodeEach position values h.2]
    rfl

end

end SettingValue

namespace Setting

theorem decode_encode (position : Position) {setting : Setting} (h : Complete setting.texts) :
    decode position setting.encode = .ok setting := by
  obtain ⟨hchecked, htokens⟩ :=
    SettingValue.checked_of_complete setting.value (complete_cons.mp h).2
  have hvalue : readMember [("name", setting.name.encode), ("value", setting.value.encode),
      ("parenthesized", .bool setting.custom)] "value" (SettingValue.decode position) =
        .ok (some setting.value) := by
    simp [readMember, member?, SettingValue.decode_encode position setting.value hchecked]
  rw [encode, SettingValue.settingJson, decode, Json.Record.read, RawSetting.decodeMembers, hvalue]
  exact SettingValue.ofMembers_settingJson htokens

/-- The settings of a declaration read back from any members that hold them. -/
theorem decodeList_of_member? {position : Position} {members : Members} {settings : List Setting}
    (hmember : member? "options" members =
      if settings.map encode ≠ [] then some (.arr (settings.map encode)) else none)
    (h : ∀ setting ∈ settings, Complete setting.texts) :
    decodeList position members = .ok settings :=
  Json.readItems_of_member? hmember fun setting hsetting =>
    decode_encode position (h setting hsetting)

end Setting

/-! ### Enums, fields and extensions -/

theorem EnumValue.decode_encode (position : Position) {value : EnumValue}
    (h : Complete value.texts) : decode position value.encode = .ok value := by
  obtain ⟨members, hencode⟩ : ∃ members, value.encode = .obj members := ⟨_, rfl⟩
  have hmembers := Json.obj.inj hencode
  have hdocumentation : readText members "documentation" = .ok value.documentation :=
    Json.readText_of_member? (by simp [← hmembers, Setting.listMember, member?])
  have hname : readMember members "name" Name.decode = .ok (some value.name) :=
    Json.readMember_of_member? (by simp [← hmembers]) value.name.decode_encode
  have htag : readMember members "tag" Json.readInt32 = .ok (some value.tag) :=
    Json.readMember_of_member? (by simp [← hmembers, member?]) (Json.readInt32_ofTag value.tag)
  have hsettings : Setting.decodeList position members = .ok value.settings :=
    Setting.decodeList_of_member? (by simp [← hmembers, Setting.listMember, member?])
      (complete_iff.mp h)
  rw [hencode]
  simp [decode, Json.Record.read, decodeMembers, hdocumentation, hname, htag, hsettings]

/-- An enum reads back from its members also when the kind of the type stands
    among them. -/
theorem EnumDecl.decodeMembers_of_member? {position : Position} {decl : EnumDecl}
    {members : Members}
    (hmembers : ∀ key, key ≠ "type" → member? key members = member? key decl.encodeMembers)
    (h : Complete decl.texts) : decodeMembers position members = .ok decl := by
  obtain ⟨hsettings, hvalues⟩ := complete_iff.mp h
  have hdocumentation : readText members "documentation" = .ok decl.documentation := by
    refine Json.readText_of_member? ((hmembers _ (by decide)).trans ?_)
    simp [encodeMembers, Setting.listMember, member?]
  have hqualified : readText members "qualified_name" = .ok decl.qualifiedName := by
    refine Json.readText_of_member? ((hmembers _ (by decide)).trans ?_)
    simp [encodeMembers, Setting.listMember, member?]
  have hname : readMember members "name" Name.decode = .ok (some decl.name) := by
    refine Json.readMember_of_member? ((hmembers _ (by decide)).trans ?_) decl.name.decode_encode
    simp [encodeMembers]
  have hsettings : Setting.decodeList position members = .ok decl.settings := by
    refine Setting.decodeList_of_member? ((hmembers _ (by decide)).trans ?_) hsettings
    simp [encodeMembers, Setting.listMember, member?]
  have hvalues : readItems members "values" (EnumValue.decode position) = .ok decl.values := by
    refine Json.readItems_of_member? ((hmembers _ (by decide)).trans ?_)
      fun value hvalue => EnumValue.decode_encode position (hvalues value hvalue)
    simp [encodeMembers, Setting.listMember, member?]
  simp [decodeMembers, hdocumentation, hqualified, hname, hsettings, hvalues]

theorem EnumDecl.decode_encode (position : Position) {decl : EnumDecl}
    (h : Complete decl.texts) : decode position decl.encode = .ok decl :=
  decodeMembers_of_member? (fun _ _ => rfl) h

theorem Field.decode_encode (position : Position) {field : Field}
    (h : Complete field.texts) : decode position field.encode = .ok field := by
  obtain ⟨members, hencode⟩ : ∃ members, field.encode = .obj members := ⟨_, rfl⟩
  have hmembers := Json.obj.inj hencode
  have hdocumentation : readText members "documentation" = .ok field.documentation :=
    Json.readText_of_member? (by simp [← hmembers, Setting.listMember, member?])
  have hlabel : readMember members "label" (Label.decodeAt position) =
      .ok (some field.label) :=
    Json.readMember_of_member? (by simp [← hmembers]) (field.label.decodeAt_encode position)
  have hname : readMember members "name" Name.decode = .ok (some field.name) :=
    Json.readMember_of_member? (by simp [← hmembers, member?]) field.name.decode_encode
  have htag : readMember members "tag" Json.readInt32 = .ok (some field.tag) :=
    Json.readMember_of_member? (by simp [← hmembers, member?]) (Json.readInt32_ofTag field.tag)
  have htypeRef : readMember members "type_name" TypeRef.decode = .ok (some field.typeRef) :=
    Json.readMember_of_member? (by simp [← hmembers, member?]) field.typeRef.decode_encode
  have hsettings : Setting.decodeList position members = .ok field.settings :=
    Setting.decodeList_of_member? (by simp [← hmembers, Setting.listMember, member?])
      (complete_iff.mp h)
  rw [hencode]
  simp [decode, Json.Record.read, decodeMembers, hdocumentation, hlabel, hname, htag, htypeRef,
    hsettings]

theorem Oneof.decode_encode (position : Position) {oneof : Oneof}
    (h : Complete oneof.texts) : decode position oneof.encode = .ok oneof := by
  obtain ⟨members, hencode⟩ : ∃ members, oneof.encode = .obj members := ⟨_, rfl⟩
  have hmembers := Json.obj.inj hencode
  have hdocumentation : readText members "documentation" = .ok oneof.documentation :=
    Json.readText_of_member? (by simp [← hmembers, member?])
  have hname : readMember members "name" Name.decode = .ok (some oneof.name) :=
    Json.readMember_of_member? (by simp [← hmembers]) oneof.name.decode_encode
  have hfields : readItems members "fields" (Field.decode position) = .ok oneof.fields :=
    Json.readItems_of_member? (by simp [← hmembers, member?])
      fun field hfield => Field.decode_encode position (complete_iff.mp h field hfield)
  rw [hencode]
  simp [decode, Json.Record.read, decodeMembers, hdocumentation, hname, hfields]

theorem ExtensionRange.decodeAt_encode (position : Position) (range : ExtensionRange) :
    decodeAt position range.encode = .ok range := by
  obtain ⟨members, hencode⟩ : ∃ members, range.encode = .obj members := ⟨_, rfl⟩
  have hmembers := Json.obj.inj hencode
  have hdocumentation : readText members "documentation" = .ok range.documentation :=
    Json.readText_of_member? (by simp [← hmembers, member?])
  have hfirst : readMember members "start" Json.readInt32 = .ok (some range.first) :=
    Json.readMember_of_member? (by simp [← hmembers]) (Json.readInt32_ofTag range.first)
  have hlast : readMember members "end" Json.readInt32 = .ok (some range.last) :=
    Json.readMember_of_member? (by simp [← hmembers, member?]) (Json.readInt32_ofTag range.last)
  rw [hencode]
  simp [decodeAt, Json.Record.read, RawRange.decodeMembers, RawRange.build, hdocumentation, hfirst,
    hlast, Json.checked]

theorem ExtensionRange.decode_encode (range : ExtensionRange) :
    decode range.encode = .ok range :=
  range.decodeAt_encode .outside

theorem ExtendBlock.decode_encode {extend : ExtendBlock} (h : Complete extend.texts) :
    decode extend.encode = .ok extend := by
  obtain ⟨members, hencode⟩ : ∃ members, extend.encode = .obj members := ⟨_, rfl⟩
  have hmembers := Json.obj.inj hencode
  have hdocumentation : readText members "documentation" = .ok extend.documentation :=
    Json.readText_of_member? (by simp [← hmembers, member?])
  have hqualified : readText members "qualified_name" = .ok extend.qualifiedName :=
    Json.readText_of_member? (by simp [← hmembers, member?])
  have hname : readMember members "name" Name.decode = .ok (some extend.name) :=
    Json.readMember_of_member? (by simp [← hmembers]) extend.name.decode_encode
  have hfields : readItems members "fields" (Field.decode .outside) = .ok extend.fields :=
    Json.readItems_of_member? (by simp [← hmembers, member?])
      fun field hfield => Field.decode_encode .outside (complete_iff.mp h field hfield)
  rw [hencode]
  simp [decode, Json.Record.read, decodeMembers, hdocumentation, hqualified, hname, hfields]

/-! ### Types -/

/-- A message reads back from its members also when the kind of the type stands
    among them, given that its nested types read back. -/
theorem Message.ofMembers_of_member? {position : Position} {core : MessageCore}
    {nested : List TypeDecl} {members : Members} {items : List Json}
    (hmembers : ∀ key, key ≠ "type" → member? key members = member? key (core.encodeMembers items))
    (h : Complete core.texts) :
    ofMembers position members (.ok nested) = .ok { toMessageCore := core, nested } := by
  obtain ⟨hsettings, hfields, honeofs⟩ := MessageCore.complete_iff.mp h
  have hdocumentation : readText members "documentation" = .ok core.documentation := by
    refine Json.readText_of_member? ((hmembers _ (by decide)).trans ?_)
    simp [MessageCore.encodeMembers, Setting.listMember, member?]
  have hqualified : readText members "qualified_name" = .ok core.qualifiedName := by
    refine Json.readText_of_member? ((hmembers _ (by decide)).trans ?_)
    simp [MessageCore.encodeMembers, Setting.listMember, member?]
  have hname : readMember members "name" Name.decode = .ok (some core.name) := by
    refine Json.readMember_of_member? ((hmembers _ (by decide)).trans ?_) core.name.decode_encode
    simp [MessageCore.encodeMembers]
  have hsettings : Setting.decodeList position members = .ok core.settings := by
    refine Setting.decodeList_of_member? ((hmembers _ (by decide)).trans ?_) hsettings
    simp [MessageCore.encodeMembers, Setting.listMember, member?]
  have hfields : readItems members "fields" (Field.decode position) = .ok core.fields := by
    refine Json.readItems_of_member? ((hmembers _ (by decide)).trans ?_)
      fun field hfield => Field.decode_encode position (hfields field hfield)
    simp [MessageCore.encodeMembers, Setting.listMember, member?]
  have honeofs : readItems members "one_ofs" (Oneof.decode position) = .ok core.oneofs := by
    refine Json.readItems_of_member? ((hmembers _ (by decide)).trans ?_)
      fun oneof honeof => Oneof.decode_encode position (honeofs oneof honeof)
    simp [MessageCore.encodeMembers, Setting.listMember, member?]
  have hranges : readItems members "extensions" (ExtensionRange.decodeAt position) =
      .ok core.extensionRanges := by
    refine Json.readItems_of_member? ((hmembers _ (by decide)).trans ?_)
      fun range _ => range.decodeAt_encode position
    simp [MessageCore.encodeMembers, Setting.listMember, member?]
  simp [ofMembers, hdocumentation, hqualified, hname, hsettings, hfields, honeofs, hranges]

/-- The nested types of a message stand under their own key. -/
theorem MessageCore.member?_nested (core : MessageCore) (items : List Json) :
    member? "nested_types" (core.encodeMembers items) =
      if items ≠ [] then some (.arr items) else none := by
  simp [encodeMembers, Setting.listMember, member?]

namespace TypeDecl

theorem decodeKind (position : Position) (kind : TypeKind) (members : Members) :
    TypeKind.decode position (("type", .str kind.word) :: members) = .ok kind := by
  simp [TypeKind.decode, readMember]

mutual

theorem decode_encode (position : Position) : ∀ (t : TypeDecl), Complete t.texts →
    decode position t.encode = .ok t
  | .enum decl, h => by
    have hdecl : EnumDecl.decodeMembers .insideType
        (("type", .str TypeKind.enum.word) :: decl.encodeMembers) = .ok decl :=
      EnumDecl.decodeMembers_of_member? (fun key hkey => Json.member?_cons_of_ne hkey.symm _ _) h
    simp [encode, decode, decodeKind, hdecl]
  | .message core nested, h => by
    obtain ⟨hcore, hcomplete⟩ := complete_message_iff.mp h
    have hnested : decodeNested .insideType
        (("type", .str TypeKind.message.word) :: core.encodeMembers (encodeEach nested)) =
          .ok nested := by
      rw [decodeNested_eq]
      refine Json.readItems_of_member? ?_ (decode_encode_each .insideType nested hcomplete)
      rw [Json.member?_cons_of_ne (by decide), core.member?_nested, encodeEach_eq_map]
    have hmessage : Message.ofMembers .insideType
        (("type", .str TypeKind.message.word) :: core.encodeMembers (encodeEach nested))
        (.ok nested) = .ok { toMessageCore := core, nested } :=
      Message.ofMembers_of_member? (fun key hkey => Json.member?_cons_of_ne hkey.symm _ _) hcore
    simp [encode, decode, decodeKind, hnested, hmessage, Message.toType]

theorem decode_encode_each (position : Position) : ∀ (ts : List TypeDecl),
    (∀ t ∈ ts, Complete t.texts) → ∀ t ∈ ts, decode position t.encode = .ok t
  | [], _ => by simp
  | t :: ts, h => by
    obtain ⟨ht, hts⟩ := List.forall_mem_cons.mp h
    exact List.forall_mem_cons.mpr ⟨decode_encode position t ht, decode_encode_each position ts hts⟩

end

end TypeDecl

theorem Message.decodeAt_encode (position : Position) {message : Message}
    (h : Complete message.toType.texts) : decodeAt position message.encode = .ok message := by
  obtain ⟨hcore, hcomplete⟩ := TypeDecl.complete_message_iff.mp h
  have hnested : readItems (message.toMessageCore.encodeMembers
       (message.nested.map TypeDecl.encode)) "nested_types" (TypeDecl.decode position) =
        .ok message.nested :=
    Json.readItems_of_member? (message.member?_nested _)
      (TypeDecl.decode_encode_each position message.nested hcomplete)
  rw [encode, decodeAt, Json.Record.read, decodeMembers, hnested]
  exact ofMembers_of_member? (fun _ _ => rfl) hcore

/-! ### Services and files -/

theorem Json.readFlag_of_member? {members : Members} {key : String} {value : Bool}
    (hmember : member? key members = some (.bool value)) : readFlag members key = .ok value := by
  simp [readFlag, hmember]

theorem Json.readNullable_of_member? {α : Type} {encode : α → Json}
    {read : Json → Except DecodeError α} {members : Members} {key : String} {value : Option α}
    (hmember : member? key members = value.map encode)
    (h : ∀ a, read (encode a) = .ok a ∧ encode a ≠ .null) :
    readNullable members key read = .ok value := by
  cases value with
  | none => simp [readNullable, hmember]
  | some a =>
    obtain ⟨hread, hnull⟩ := h a
    simp only [readNullable, hmember, Option.map_some]
    rw [hread, Except.map_ok]

theorem Rpc.decode_encode {rpc : Rpc} (h : Complete rpc.texts) : decode rpc.encode = .ok rpc := by
  obtain ⟨members, hencode⟩ : ∃ members, rpc.encode = .obj members := ⟨_, rfl⟩
  have hmembers := Json.obj.inj hencode
  have hclient : readFlag members "client_streaming" = .ok rpc.clientStreaming :=
    Json.readFlag_of_member? (by simp [← hmembers, member?])
  have hserver : readFlag members "server_streaming" = .ok rpc.serverStreaming :=
    Json.readFlag_of_member? (by simp [← hmembers, member?])
  have hdocumentation : readText members "documentation" = .ok rpc.documentation :=
    Json.readText_of_member? (by simp [← hmembers, Setting.listMember, member?])
  have hname : readMember members "name" Name.decode = .ok (some rpc.name) :=
    Json.readMember_of_member? (by simp [← hmembers]) rpc.name.decode_encode
  have hrequest : readMember members "request_type" TypeRef.decode = .ok (some rpc.requestType) :=
    Json.readMember_of_member? (by simp [← hmembers, member?]) rpc.requestType.decode_encode
  have hresponse : readMember members "response_type" TypeRef.decode =
      .ok (some rpc.responseType) :=
    Json.readMember_of_member? (by simp [← hmembers, member?]) rpc.responseType.decode_encode
  have hsettings : Setting.decodeList .outside members = .ok rpc.settings :=
    Setting.decodeList_of_member? (by simp [← hmembers, Setting.listMember, member?])
      (complete_iff.mp h)
  rw [hencode]
  simp [decode, Json.Record.read, decodeMembers, hclient, hserver, hdocumentation, hname, hrequest,
    hresponse, hsettings]

theorem Service.decode_encode {service : Service} (h : Complete service.texts) :
    decode service.encode = .ok service := by
  obtain ⟨members, hencode⟩ : ∃ members, service.encode = .obj members := ⟨_, rfl⟩
  have hmembers := Json.obj.inj hencode
  obtain ⟨hsettings, hrpcs⟩ := complete_iff.mp h
  have hdocumentation : readText members "documentation" = .ok service.documentation :=
    Json.readText_of_member? (by simp [← hmembers, Setting.listMember, member?])
  have hqualified : readText members "qualified_name" = .ok service.qualifiedName :=
    Json.readText_of_member? (by simp [← hmembers, Setting.listMember, member?])
  have hname : readMember members "name" Name.decode = .ok (some service.name) :=
    Json.readMember_of_member? (by simp [← hmembers]) service.name.decode_encode
  have hsettings : Setting.decodeList .outside members = .ok service.settings :=
    Setting.decodeList_of_member? (by simp [← hmembers, Setting.listMember, member?]) hsettings
  have hrpcs : readItems members "rpcs" Rpc.decode = .ok service.rpcs :=
    Json.readItems_of_member? (by simp [← hmembers, Setting.listMember, member?])
      fun rpc hrpc => Rpc.decode_encode (hrpcs rpc hrpc)
  rw [hencode]
  simp [decode, Json.Record.read, decodeMembers, hdocumentation, hqualified, hname, hsettings,
    hrpcs]

theorem SchemaFile.decode_encode {file : SchemaFile} (h : Complete file.texts) :
    decode file.encode = .ok file := by
  obtain ⟨members, hencode⟩ : ∃ members, file.encode = .obj members := ⟨_, rfl⟩
  have hmembers := Json.obj.inj hencode
  obtain ⟨hsettings, htypes, hextends, hservices⟩ := complete_iff.mp h
  have hpath : readText members "file_name" = .ok file.path :=
    Json.readText_of_member? (by simp [← hmembers, Setting.listMember])
  have hpackage : readNullable members "package_name" Name.decode = .ok file.packageName :=
    Json.readNullable_of_member? (by simp [← hmembers, Setting.listMember])
      fun name => ⟨Name.decode_encode name, nofun⟩
  have hdialect : readNullable members "syntax" Dialect.decode = .ok file.dialect :=
    Json.readNullable_of_member? (by simp [← hmembers, Setting.listMember])
      fun dialect => ⟨Dialect.decode_encode dialect, nofun⟩
  have himports : readItems members "dependencies" Json.readString = .ok file.imports :=
    Json.readItems_of_member? (by simp [← hmembers, Setting.listMember])
      fun text _ => Json.readString_str text
  have hpublic : readItems members "public_dependencies" Json.readString =
      .ok file.publicImports :=
    Json.readItems_of_member? (by simp [← hmembers, Setting.listMember])
      fun text _ => Json.readString_str text
  have htypes : readItems members "types" (TypeDecl.decode .outside) = .ok file.types :=
    Json.readItems_of_member? (by simp [← hmembers, Setting.listMember])
      fun t ht => TypeDecl.decode_encode .outside t (htypes t ht)
  have hservices : readItems members "services" Service.decode = .ok file.services :=
    Json.readItems_of_member? (by simp [← hmembers, Setting.listMember])
      fun service hservice => Service.decode_encode (hservices service hservice)
  have hextends : readItems members "extend_declarations" ExtendBlock.decode =
      .ok file.extendBlocks :=
    Json.readItems_of_member? (by simp [← hmembers, Setting.listMember])
      fun extend hextend => ExtendBlock.decode_encode (hextends extend hextend)
  have hsettings : Setting.decodeList .outside members = .ok file.settings :=
    Setting.decodeList_of_member? (by simp [← hmembers, Setting.listMember]) hsettings
  rw [hencode]
  simp [decode, Json.Record.read, decodeMembers, hpath, hpackage, hdialect, himports, hpublic,
    htypes, hservices, hextends, hsettings]

/-! ### Lossless codecs -/

/-- A codec that loses nothing of the values of a kind: they read back, no two of
    them are written alike, and a value that was read reads back. -/
structure Lossless {α : Type} (encode : α → Json) (decode : Json → Except DecodeError α)
    (Kind : α → Prop) : Prop where
  decode_encode : ∀ value, Kind value → decode (encode value) = .ok value
  encode_injective : ∀ value other, Kind value → Kind other → encode value = encode other →
    value = other
  decode_again : ∀ json value, decode json = .ok value → decode (encode value) = .ok value

/-- It is enough that the values of the kind read back and that only such values
    are read. -/
theorem Lossless.intro {α : Type} {encode : α → Json} {decode : Json → Except DecodeError α}
    {Kind : α → Prop} (hback : ∀ value, Kind value → decode (encode value) = .ok value)
    (hread : ∀ json value, decode json = .ok value → Kind value) :
    Lossless encode decode Kind := by
  refine ⟨hback, ?_, fun json value h => hback value (hread json value h)⟩
  intro value other hvalue hother hsame
  have hsecond : decode (encode value) = .ok other := hsame ▸ hback other hother
  exact Except.ok.inj ((hback value hvalue).symm.trans hsecond)

/-- Every declaration that can be obtained is written without loss, at every
    position and every depth. -/
theorem codec_lossless (position : Position) :
    Lossless Name.encode Name.decode (fun _ => True) ∧
    Lossless Label.encode (Label.decodeAt position) (fun _ => True) ∧
    Lossless Dialect.encode Dialect.decode (fun _ => True) ∧
    Lossless SettingValue.encode (SettingValue.decode position) SettingValue.Obtainable ∧
    Lossless Setting.encode (Setting.decode position) Setting.Obtainable ∧
    Lossless EnumValue.encode (EnumValue.decode position) EnumValue.Obtainable ∧
    Lossless EnumDecl.encode (EnumDecl.decode position) EnumDecl.Obtainable ∧
    Lossless Field.encode (Field.decode position) Field.Obtainable ∧
    Lossless Oneof.encode (Oneof.decode position) Oneof.Obtainable ∧
    Lossless ExtensionRange.encode (ExtensionRange.decodeAt position) (fun _ => True) ∧
    Lossless ExtendBlock.encode ExtendBlock.decode ExtendBlock.Obtainable ∧
    Lossless Message.encode (Message.decodeAt position) Message.Obtainable ∧
    Lossless TypeDecl.encode (TypeDecl.decode position) TypeDecl.Obtainable ∧
    Lossless Rpc.encode Rpc.decode Rpc.Obtainable ∧
    Lossless Service.encode Service.decode Service.Obtainable ∧
    Lossless SchemaFile.encode SchemaFile.decode SchemaFile.Obtainable := by
  -- names, labels, dialects and ranges read back by their types alone; the rest is complete
  refine ⟨?_, ?_, ?_, ?_, ?_, ?_, ?_, ?_, ?_, ?_, ?_, ?_, ?_, ?_, ?_, ?_⟩
  · exact .intro (fun name _ => name.decode_encode) fun _ _ _ => trivial
  · exact .intro (fun label _ => label.decodeAt_encode position) fun _ _ _ => trivial
  · exact .intro (fun dialect _ => dialect.decode_encode) fun _ _ _ => trivial
  · exact .intro (fun value h => value.decode_encode position h.checked) fun _ _ h => .decoded h
  · exact .intro (fun _ h => Setting.decode_encode position h.complete) fun _ _ h => .decoded h
  · exact .intro (fun _ h => EnumValue.decode_encode position h.complete) fun _ _ h => .decoded h
  · exact .intro (fun _ h => EnumDecl.decode_encode position h.complete) fun _ _ h => .decoded h
  · exact .intro (fun _ h => Field.decode_encode position h.complete) fun _ _ h => .decoded h
  · exact .intro (fun _ h => Oneof.decode_encode position h.complete) fun _ _ h => .decoded h
  · exact .intro (fun range _ => range.decodeAt_encode position) fun _ _ _ => trivial
  · exact .intro (fun _ h => ExtendBlock.decode_encode h.complete) fun _ _ h => .decoded h
  · exact .intro (fun _ h => Message.decodeAt_encode position h.complete) fun _ _ h => .decoded h
  · exact .intro (fun t h => t.decode_encode position h.complete) fun _ _ h => .decoded h
  · exact .intro (fun _ h => Rpc.decode_encode h.complete) fun _ _ h => .decoded h
  · exact .intro (fun _ h => Service.decode_encode h.complete) fun _ _ h => .decoded h
  · exact .intro (fun _ h => SchemaFile.decode_encode h.complete) fun _ _ h => .decoded h

end WireSchema
