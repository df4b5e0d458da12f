/-
  WireSchema/Proofs/Decoded.lean
  ==============================
  **Obtainable declarations are complete.**  One step for every way to obtain a
  declaration: what a builder accepts is complete if its parts are, and so is
  whatever a reader accepts, at every depth of the JSON tree.  Of the two readers of
  a declaration only that of members is looked into; what is read from elements is
  read by it as well.
-/
import WireSchema.Proofs.Elements
import WireSchema.Proofs.Obtainable

namespace WireSchema

/-! ### Options -/

theorem Setting.complete_of_make {name : String} {custom : Bool} {value : SettingValue}
    {setting : Setting} (hvalue : value.Checked) (h : make name custom value = .ok setting) :
    Complete setting.texts := by
  obtain ⟨-, -, rfl, htokens⟩ := make_eq_ok_iff.mp h
  exact List.forall_mem_cons.mpr
    ⟨Or.inr setting.name.nonempty, SettingValue.complete_of_checked _ hvalue htokens⟩

/-- A setting is complete if it was built from what was read, and its value was read right. -/
theorem RawSetting.complete_of_build {members : Json.Members}
    {result : Except DecodeError (Option SettingValue)} {raw : RawSetting} {setting : Setting}
    (hresult : ∀ value, result = .ok (some value) → value.Checked)
    (hread : ofMembers members result = .ok raw) (h : raw.build = .ok setting) :
    Complete setting.texts := by
  simp only [ofMembers, bind_eq_ok, Json.require_eq_ok, pure_eq_ok] at hread
  obtain ⟨_, -, custom, -, _, hfound, name, -, value, rfl, rfl⟩ := hread
  exact Setting.complete_of_make (hresult value hfound) (Json.checked_eq_ok.mp h)

namespace SettingValue

mutual

theorem checked_of_decode : ∀ (position : Position) (json : Json) {value : SettingValue},
    decode position json = .ok value → value.Checked
  | position, json, value, h => by
    cases json with
    | obj members =>
      simp only [decode, bind_eq_ok] at h
      obtain ⟨kind, -, h⟩ := h
      exact checked_of_decodeContent position kind members h
    | arr elements =>
      simp only [decode] at h
      exact checked_of_decodePair position elements h
    | _ => exact nomatch h

theorem checked_of_decodePair : ∀ (position : Position) (elements : List Json)
    {value : SettingValue}, decodePair position elements = .ok value → value.Checked
  | _, [], _, h => nomatch h
  | position, [kind], value, h => by
    simp only [decodePair, bind_eq_ok] at h
    obtain ⟨_, -, h⟩ := h
    exact nomatch h
  | position, kind :: content :: rest, value, h => by
    simp only [decodePair, bind_eq_ok] at h
    obtain ⟨kind, -, found, hfound, hend⟩ := h
    obtain rfl := Json.endArray_eq_ok hend
    exact checked_of_decodeAs position kind content hfound

theorem checked_of_decodeContent : ∀ (position : Position) (kind : SettingKind)
    (members : Json.Members) {value : SettingValue},
    decodeContent position kind members = .ok value → value.Checked
  | _, _, [], _, h => nomatch h
  | position, kind, (key, json) :: members, value, h => by
    simp only [decodeContent] at h
    split at h
    · exact checked_of_decodeAs position kind json h
    · exact checked_of_decodeContent position kind members h

theorem checked_of_decodeAs : ∀ (position : Position) (kind : SettingKind) (json : Json)
    {value : SettingValue}, decodeAs position kind json = .ok value → value.Checked
  | position, kind, json, value, h => by
    cases kind with
    | nested =>
      cases json with
      | obj members =>
        simp only [decodeAs, bind_eq_ok, map_eq_ok] at h
        obtain ⟨raw, hraw, setting, hsetting, rfl⟩ := h
        have hall := RawSetting.complete_of_build
          (fun found hfound => checked_of_decodeMember position members hfound) hraw hsetting
        exact (List.forall_mem_cons.mp hall).2
      | arr elements =>
        simp only [decodeAs, bind_eq_ok, map_eq_ok] at h
        obtain ⟨found, hfound, raw, hend, setting, hsetting, rfl⟩ := h
        obtain rfl := Json.endArray_eq_ok hend
        have hall := RawSetting.complete_of_build
          (fun found hfound => checked_of_decodeElement position 1 elements hfound)
          (RawSetting.ofMembers_of_ofElements hfound) hsetting
        exact (List.forall_mem_cons.mp hall).2
      | _ => exact nomatch h
    | map =>
      cases json with
      | arr items =>
        simp only [decodeAs, map_eq_ok] at h
        obtain ⟨entries, hentries, rfl⟩ := h
        exact checkedEntries_iff.mpr (checked_of_decodeEntries position items hentries)
      | _ => exact nomatch h
    | list =>
      cases json with
      | arr items =>
        simp only [decodeAs, map_eq_ok] at h
        obtain ⟨values, hvalues, rfl⟩ := h
        exact checkedEach_iff.mpr (checked_of_decodeEach position items hvalues)
      | _ => exact nomatch h
    | _ =>
      simp only [decodeAs, map_eq_ok] at h
      obtain ⟨_, -, rfl⟩ := h
      trivial

theorem checked_of_decodeMember : ∀ (position : Position) (members : Json.Members)
    {value : SettingValue}, decodeMember position members = .ok (some value) → value.Checked
  | _, [], _, h => nomatch h
  | position, (key, json) :: members, value, h => by
    simp only [decodeMember] at h
    split at h
    · exact checked_of_decode position json (map_some_eq_ok.mp h)
    · exact checked_of_decodeMember position members h

theorem checked_of_decodeElement : ∀ (position : Position) (place : Nat) (elements : List Json)
    {value : SettingValue}, decodeElement position place elements = .ok (some value) →
      value.Checked
  | _, _, [], _, h => nomatch h
  | position, 0, json :: _, _, h => checked_of_decode position json (map_some_eq_ok.mp h)
  | position, place + 1, _ :: elements, _, h =>
    checked_of_decodeElement position place elements h

theorem checked_of_decodeEntries : ∀ (position : Position) (items : List Json)
    {entries : List (String × SettingValue)}, decodeEntries position items = .ok entries →
      ∀ entry ∈ entries, entry.2.Checked
  | _, [], _, h => by
    obtain rfl := Except.ok.inj h
    simp
  | position, json :: items, entries, h => by
    cases json with
    | arr elements =>
      simp only [decodeEntries, bind_eq_ok, pure_eq_ok] at h
      obtain ⟨entry, hentry, rest, hrest, rfl⟩ := h
      exact List.forall_mem_cons.mpr ⟨checked_of_decodeEntry position elements hentry,
        checked_of_decodeEntries position items hrest⟩
    | _ => exact nomatch h

theorem checked_of_decodeEntry : ∀ (position : Position) (elements : List Json)
    {entry : String × SettingValue}, decodeEntry position elements = .ok entry →
      entry.2.Checked
  | _, [], _, h => nomatch h
  | position, [key], entry, h => by
    simp only [decodeEntry, bind_eq_ok] at h
    obtain ⟨_, -, h⟩ := h
    exact nomatch h
  | position, key :: value :: rest, entry, h => by
    simp only [decodeEntry, bind_eq_ok] at h
    obtain ⟨text, -, found, hfound, hend⟩ := h
    obtain rfl := Json.endArray_eq_ok hend
    exact checked_of_decode position value hfound

theorem checked_of_decodeEach : ∀ (position : Position) (items : List Json)
    {values : List SettingValue}, decodeEach position items = .ok values →
      ∀ value ∈ values, value.Checked
  | _, [], _, h => by
    obtain rfl := Except.ok.inj h
    simp
  | position, json :: items, values, h => by
    simp only [decodeEach, bind_eq_ok, pure_eq_ok] at h
    obtain ⟨value, hvalue, rest, hrest, rfl⟩ := h
    exact List.forall_mem_cons.mpr ⟨checked_of_decode position json hvalue,
      checked_of_decodeEach position items hrest⟩

end

end SettingValue

theorem Json.forall_of_readItems {α : Type} {members : Members} {key : String}
    {read : Json → Except DecodeError α} {values : List α} {P : α → Prop}
    (hread : ∀ {json value}, read json = .ok value → P value)
    (h : readItems members key read = .ok values) : ∀ value ∈ values, P value := by
  have hmapM : ∀ (items : List Json) {values : List α}, items.mapM read = .ok values →
      ∀ value ∈ values, P value := by
    intro items
    induction items with
    | nil =>
      intro values hitems
      obtain rfl := pure_eq_ok.mp hitems
      simp
    | cons json items ih =>
      intro values hitems
      rw [List.mapM_cons] at hitems
      simp only [bind_eq_ok, pure_eq_ok] at hitems
      obtain ⟨value, hvalue, rest, hrest, rfl⟩ := hitems
      exact List.forall_mem_cons.mpr ⟨hread hvalue, ih hrest⟩
  unfold readItems at h
  split at h
  · rename_i json _
    cases json with
    | arr items => exact hmapM items h
    | _ => exact nomatch h
  · obtain rfl := Except.ok.inj h
    simp

theorem Setting.complete_of_decode {position : Position} {json : Json} {setting : Setting}
    (h : decode position json = .ok setting) : Complete setting.texts := by
  obtain ⟨raw, hraw, hbuild⟩ := bind_eq_ok.mp h
  obtain ⟨members, hmembers⟩ := Json.Record.exists_of_read RawSetting.ofMembers_of_ofElements hraw
  refine RawSetting.complete_of_build (fun value hvalue => ?_) hmembers hbuild
  unfold Json.readMember at hvalue
  split at hvalue
  · exact SettingValue.checked_of_decode position _ (map_some_eq_ok.mp hvalue)
  · exact nomatch hvalue

mutual

theorem SettingValue.Obtainable.checked : ∀ {value : SettingValue}, value.Obtainable → value.Checked
  | _, .string _ => trivial
  | _, .identifier _ => trivial
  | _, .integer _ => trivial
  | _, .float _ => trivial
  | _, .boolean _ => trivial
  | _, .nested h => (List.forall_mem_cons.mp (Setting.Obtainable.complete h)).2
  | _, .map h => SettingValue.checkedEntries_iff.mpr fun entry hentry =>
    SettingValue.Obtainable.checked (h entry hentry)
  | _, .list h => SettingValue.checkedEach_iff.mpr fun value hvalue =>
    SettingValue.Obtainable.checked (h value hvalue)
  | _, .decoded h => SettingValue.checked_of_decode _ _ h

theorem Setting.Obtainable.complete : ∀ {setting : Setting}, setting.Obtainable →
    Complete setting.texts
  | _, .made hvalue h => Setting.complete_of_make (SettingValue.Obtainable.checked hvalue) h
  | _, .decoded h => Setting.complete_of_decode h

end

/-! ### Enums, fields and extensions -/

theorem Setting.complete_of_decodeList {position : Position} {members : Json.Members}
    {settings : List Setting} (h : decodeList position members = .ok settings) :
    ∀ setting ∈ settings, Complete setting.texts :=
  Json.forall_of_readItems complete_of_decode h

theorem EnumValue.complete_iff {value : EnumValue} :
    Complete value.texts ↔ ∀ setting ∈ value.settings, Complete setting.texts := by
  simp [texts]

theorem EnumValue.complete_of_decode {position : Position} {json : Json} {value : EnumValue}
    (h : decode position json = .ok value) : Complete value.texts := by
  obtain ⟨members, hmembers⟩ := Json.Record.exists_of_read decodeMembers_of_decodeElements h
  simp only [decodeMembers, bind_eq_ok, pure_eq_ok] at hmembers
  obtain ⟨documentation, -, _, -, settings, hsettings, _, -, name, -, tag, -, rfl⟩ := hmembers
  exact complete_iff.mpr (Setting.complete_of_decodeList hsettings)

theorem EnumValue.Obtainable.complete {value : EnumValue} (h : value.Obtainable) :
    Complete value.texts := by
  cases h with
  | made hsettings h =>
    simp only [make, bind_eq_ok, pure_eq_ok] at h
    obtain ⟨name, -, rfl⟩ := h
    exact complete_iff.mpr fun setting hsetting => (hsettings setting hsetting).complete
  | decoded h => exact complete_of_decode h

theorem EnumDecl.complete_iff {decl : EnumDecl} :
    Complete decl.texts ↔ (∀ setting ∈ decl.settings, Complete setting.texts) ∧
      ∀ value ∈ decl.values, Complete value.texts := by
  simp [texts]

theorem EnumDecl.complete_of_decodeMembers {position : Position} {members : Json.Members}
    {decl : EnumDecl} (h : decodeMembers position members = .ok decl) : Complete decl.texts := by
  simp only [decodeMembers, bind_eq_ok, pure_eq_ok] at h
  obtain ⟨documentation, -, _, -, settings, hsettings, qualifiedName, -, values, hvalues, name, -,
    rfl⟩ := h
  exact complete_iff.mpr ⟨Setting.complete_of_decodeList hsettings,
    Json.forall_of_readItems EnumValue.complete_of_decode hvalues⟩

theorem EnumDecl.complete_of_decode {position : Position} {json : Json} {decl : EnumDecl}
    (h : decode position json = .ok decl) : Complete decl.texts := by
  obtain ⟨members, hmembers⟩ := Json.Record.exists_of_read decodeMembers_of_decodeElements h
  exact complete_of_decodeMembers hmembers

theorem EnumDecl.Obtainable.complete {decl : EnumDecl} (h : decl.Obtainable) :
    Complete decl.texts := by
  cases h with
  | made hsettings hvalues h =>
    simp only [make, bind_eq_ok, pure_eq_ok] at h
    obtain ⟨name, -, rfl⟩ := h
    exact complete_iff.mpr ⟨fun setting hsetting => (hsettings setting hsetting).complete,
      fun value hvalue => (hvalues value hvalue).complete⟩
  | decoded h =>
    exact complete_of_decode h

theorem Field.complete_iff {field : Field} :
    Complete field.texts ↔ ∀ setting ∈ field.settings, Complete setting.texts := by
  simp [texts]

theorem Field.complete_of_decode {position : Position} {json : Json} {field : Field}
    (h : decode position json = .ok field) : Complete field.texts := by
  obtain ⟨members, hmembers⟩ := Json.Record.exists_of_read decodeMembers_of_decodeElements h
  simp only [decodeMembers, bind_eq_ok, pure_eq_ok] at hmembers
  obtain ⟨documentation, -, _, -, _, -, settings, hsettings, _, -, _, -, label, -, typeRef, -,
    name, -, tag, -, rfl⟩ := hmembers
  exact complete_iff.mpr (Setting.complete_of_decodeList hsettings)

theorem Field.Obtainable.complete {field : Field} (h : field.Obtainable) :
    Complete field.texts := by
  cases h with
  | made hsettings h =>
    simp only [make, bind_eq_ok, pure_eq_ok] at h
    obtain ⟨typeRef, -, name, -, rfl⟩ := h
    exact complete_iff.mpr fun setting hsetting => (hsettings setting hsetting).complete
  | decoded h => exact complete_of_decode h

theorem Oneof.complete_iff {oneof : Oneof} :
    Complete oneof.texts ↔ ∀ field ∈ oneof.fields, Complete field.texts := by
  simp [texts]

theorem Oneof.complete_of_decode {position : Position} {json : Json} {oneof : Oneof}
    (h : decode position json = .ok oneof) : Complete oneof.texts := by
  obtain ⟨members, hmembers⟩ := Json.Record.exists_of_read decodeMembers_of_decodeElements h
  simp only [decodeMembers, bind_eq_ok, pure_eq_ok] at hmembers
  obtain ⟨documentation, -, fields, hfields, _, -, name, -, rfl⟩ := hmembers
  exact complete_iff.mpr (Json.forall_of_readItems Field.complete_of_decode hfields)

theorem Oneof.Obtainable.complete {oneof : Oneof} (h : oneof.Obtainable) :
    Complete oneof.texts := by
  cases h with
  | made hfields h =>
    simp only [make, bind_eq_ok, pure_eq_ok] at h
    obtain ⟨name, -, rfl⟩ := h
    exact complete_iff.mpr fun field hfield => (hfields field hfield).complete
  | decoded h => exact complete_of_decode h

theorem ExtendBlock.complete_iff {extend : ExtendBlock} :
    Complete extend.texts ↔ ∀ field ∈ extend.fields, Complete field.texts := by
  simp [texts]

theorem ExtendBlock.complete_of_decode {json : Json} {extend : ExtendBlock}
    (h : decode json = .ok extend) : Complete extend.texts := by
  obtain ⟨members, hmembers⟩ := Json.Record.exists_of_read decodeMembers_of_decodeElements h
  simp only [decodeMembers, bind_eq_ok, pure_eq_ok] at hmembers
  obtain ⟨documentation, -, fields, hfields, _, -, qualifiedName, -, name, -, rfl⟩ := hmembers
  exact complete_iff.mpr (Json.forall_of_readItems Field.complete_of_decode hfields)

theorem ExtendBlock.Obtainable.complete {extend : ExtendBlock} (h : extend.Obtainable) :
    Complete extend.texts := by
  cases h with
  | made hfields h =>
    simp only [make, bind_eq_ok, pure_eq_ok] at h
    obtain ⟨name, -, rfl⟩ := h
    exact complete_iff.mpr fun field hfield => (hfields field hfield).complete
  | decoded h => exact complete_of_decode h

/-! ### Types -/

theorem MessageCore.complete_iff {core : MessageCore} :
    Complete core.texts ↔ (∀ setting ∈ core.settings, Complete setting.texts) ∧
      (∀ field ∈ core.fields, Complete field.texts) ∧
      ∀ oneof ∈ core.oneofs, Complete oneof.texts := by
  simp [texts, ExtensionRange.texts]

theorem TypeDecl.complete_message_iff {core : MessageCore} {nested : List TypeDecl} :
    Complete (texts (.message core nested)) ↔
      Complete core.texts ∧ ∀ t ∈ nested, Complete t.texts := by
  simp [texts, textsOfEach_eq_flatMap]

theorem Message.complete_of_ofMembers {position : Position} {members : Json.Members}
    {result : Except DecodeError (List TypeDecl)} {message : Message}
    (hresult : ∀ nested, result = .ok nested → ∀ t ∈ nested, Complete t.texts)
    (h : ofMembers position members result = .ok message) : Complete message.toType.texts := by
  simp only [ofMembers, bind_eq_ok, pure_eq_ok] at h
  obtain ⟨documentation, -, ranges, -, fields, hfields, _, -, nested, hnested, oneofs, honeofs,
    settings, hsettings, qualifiedName, -, name, -, rfl⟩ := h
  exact TypeDecl.complete_message_iff.mpr ⟨MessageCore.complete_iff.mpr
    ⟨Setting.complete_of_decodeList hsettings,
      Json.forall_of_readItems Field.complete_of_decode hfields,
      Json.forall_of_readItems Oneof.complete_of_decode honeofs⟩, hresult nested hnested⟩

namespace TypeDecl

mutual

theorem complete_of_decode : ∀ (position : Position) (json : Json) {t : TypeDecl},
    decode position json = .ok t → Complete t.texts
  | position, json, t, h => by
    cases json with
    | obj members =>
      simp only [decode, bind_eq_ok] at h
      obtain ⟨kind, -, h⟩ := h
      cases kind with
      | enum =>
        obtain ⟨decl, hdecl, rfl⟩ := map_eq_ok.mp h
        exact EnumDecl.complete_of_decodeMembers hdecl
      | message =>
        obtain ⟨message, hmessage, rfl⟩ := map_eq_ok.mp h
        exact Message.complete_of_ofMembers
          (fun nested hnested => complete_of_decodeNested .insideType members hnested) hmessage
    | arr elements =>
      cases elements with
      | nil => exact nomatch h
      | cons kind elements =>
        simp only [decode, bind_eq_ok] at h
        obtain ⟨kind, -, h⟩ := h
        cases kind with
        | enum =>
          obtain ⟨decl, hdecl, rfl⟩ := map_eq_ok.mp h
          exact EnumDecl.complete_of_decode hdecl
        | message =>
          simp only [bind_eq_ok, map_eq_ok] at h
          obtain ⟨found, hfound, message, hend, rfl⟩ := h
          obtain rfl := Json.endArray_eq_ok hend
          exact Message.complete_of_ofMembers
            (fun nested hnested => complete_of_decodeNestedAt .insideType 7 elements hnested)
            (Message.ofMembers_of_ofElements hfound)
    | _ => exact nomatch h

theorem complete_of_decodeNested : ∀ (position : Position) (members : Json.Members)
    {nested : List TypeDecl}, decodeNested position members = .ok nested →
      ∀ t ∈ nested, Complete t.texts
  | _, [], _, h => by
    obtain rfl := Except.ok.inj h
    simp
  | position, (key, json) :: members, nested, h => by
    simp only [decodeNested] at h
    split at h
    · exact complete_of_decodeList position json h
    · exact complete_of_decodeNested position members h

theorem complete_of_decodeNestedAt : ∀ (position : Position) (place : Nat) (elements : List Json)
    {nested : List TypeDecl}, decodeNestedAt position place elements = .ok nested →
      ∀ t ∈ nested, Complete t.texts
  | _, _, [], _, h => by
    obtain rfl := Except.ok.inj h
    simp
  | position, 0, json :: _, _, h => complete_of_decodeList position json h
  | position, place + 1, _ :: elements, _, h =>
    complete_of_decodeNestedAt position place elements h

theorem complete_of_decodeList : ∀ (position : Position) (json : Json) {ts : List TypeDecl},
    decodeList position json = .ok ts → ∀ t ∈ ts, Complete t.texts
  | position, json, ts, h => by
    cases json with
    | arr items => exact complete_of_decodeEach position items h
    | _ => exact nomatch h

theorem complete_of_decodeEach : ∀ (position : Position) (items : List Json) {ts : List TypeDecl},
    decodeEach position items = .ok ts → ∀ t ∈ ts, Complete t.texts
  | _, [], _, h => by
    obtain rfl := Except.ok.inj h
    simp
  | position, json :: items, ts, h => by
    simp only [decodeEach, bind_eq_ok, pure_eq_ok] at h
    obtain ⟨t, ht, rest, hrest, rfl⟩ := h
    exact List.forall_mem_cons.mpr ⟨complete_of_decode position json ht,
      complete_of_decodeEach position items hrest⟩

end

end TypeDecl

theorem Message.complete_of_decode {position : Position} {json : Json} {message : Message}
    (h : decodeAt position json = .ok message) : Complete message.toType.texts := by
  obtain ⟨members, hmembers⟩ := Json.Record.exists_of_read ofMembers_of_ofElements h
  refine complete_of_ofMembers (fun nested hnested => ?_) hmembers
  exact Json.forall_of_readItems (fun hjson => TypeDecl.complete_of_decode _ _ hjson) hnested

mutual

theorem Message.Obtainable.complete : ∀ {message : Message}, message.Obtainable →
    Complete message.toType.texts
  | _, .made hsettings hfields hnested h => by
    simp only [Message.make, bind_eq_ok, pure_eq_ok] at h
    obtain ⟨name, -, rfl⟩ := h
    refine TypeDecl.complete_message_iff.mpr ⟨MessageCore.complete_iff.mpr ⟨?_, ?_, by simp⟩, ?_⟩
    · exact fun setting hsetting => (hsettings setting hsetting).complete
    · exact fun field hfield => (hfields field hfield).complete
    · exact fun t ht => TypeDecl.Obtainable.complete (hnested t ht)
  | _, .withOneofs h honeofs => by
    obtain ⟨hcore, hnested⟩ := TypeDecl.complete_message_iff.mp (Message.Obtainable.complete h)
    obtain ⟨hsettings, hfields, -⟩ := MessageCore.complete_iff.mp hcore
    exact TypeDecl.complete_message_iff.mpr ⟨MessageCore.complete_iff.mpr
      ⟨hsettings, hfields, fun oneof honeof => (honeofs oneof honeof).complete⟩, hnested⟩
  | _, .withExtensionRanges ranges h => by
    obtain ⟨hcore, hnested⟩ := TypeDecl.complete_message_iff.mp (Message.Obtainable.complete h)
    obtain ⟨hsettings, hfields, honeofs⟩ := MessageCore.complete_iff.mp hcore
    exact TypeDecl.complete_message_iff.mpr
      ⟨MessageCore.complete_iff.mpr ⟨hsettings, hfields, honeofs⟩, hnested⟩
  | _, .decoded h => Message.complete_of_decode h

theorem TypeDecl.Obtainable.complete : ∀ {t : TypeDecl}, t.Obtainable → Complete t.texts
  | _, .enum h => h.complete
  | _, .message h => Message.Obtainable.complete h
  | _, .decoded h => TypeDecl.complete_of_decode _ _ h

end

/-! ### Services and files -/

theorem Rpc.complete_iff {rpc : Rpc} :
    Complete rpc.texts ↔ ∀ setting ∈ rpc.settings, Complete setting.texts := by
  simp [texts]

theorem Rpc.complete_of_decode {json : Json} {rpc : Rpc} (h : decode json = .ok rpc) :
    Complete rpc.texts := by
  obtain ⟨members, hmembers⟩ := Json.Record.exists_of_read decodeMembers_of_decodeElements h
  simp only [decodeMembers, bind_eq_ok, pure_eq_ok] at hmembers
  obtain ⟨client, -, documentation, -, _, -, settings, hsettings, _, -, _, -, server, -, name, -,
    request, -, response, -, rfl⟩ := hmembers
  exact complete_iff.mpr (Setting.complete_of_decodeList hsettings)

theorem Rpc.Obtainable.complete {rpc : Rpc} (h : rpc.Obtainable) : Complete rpc.texts := by
  induction h with
  | made hsettings h =>
    simp only [make, bind_eq_ok, pure_eq_ok] at h
    obtain ⟨name, -, request, -, response, -, rfl⟩ := h
    exact complete_iff.mpr fun setting hsetting => (hsettings setting hsetting).complete
  | withStreaming client server _ ih => exact complete_iff.mpr (complete_iff.mp ih)
  | decoded h => exact complete_of_decode h

theorem Service.complete_iff {service : Service} :
    Complete service.texts ↔ (∀ setting ∈ service.settings, Complete setting.texts) ∧
      ∀ rpc ∈ service.rpcs, Complete rpc.texts := by
  simp [texts]

theorem Service.complete_of_decode {json : Json} {service : Service}
    (h : decode json = .ok service) : Complete service.texts := by
  obtain ⟨members, hmembers⟩ := Json.Record.exists_of_read decodeMembers_of_decodeElements h
  simp only [decodeMembers, bind_eq_ok, pure_eq_ok] at hmembers
  obtain ⟨documentation, -, _, -, settings, hsettings, qualifiedName, -, rpcs, hrpcs, name, -,
    rfl⟩ := hmembers
  exact complete_iff.mpr ⟨Setting.complete_of_decodeList hsettings,
    Json.forall_of_readItems Rpc.complete_of_decode hrpcs⟩

theorem Service.Obtainable.complete {service : Service} (h : service.Obtainable) :
    Complete service.texts := by
  cases h with
  | made hsettings hrpcs h =>
    simp only [make, bind_eq_ok, pure_eq_ok] at h
    obtain ⟨name, -, rfl⟩ := h
    exact complete_iff.mpr ⟨fun setting hsetting => (hsettings setting hsetting).complete,
      fun rpc hrpc => (hrpcs rpc hrpc).complete⟩
  | decoded h => exact complete_of_decode h

theorem SchemaFile.complete_iff {file : SchemaFile} :
    Complete file.texts ↔ (∀ setting ∈ file.settings, Complete setting.texts) ∧
      (∀ t ∈ file.types, Complete t.texts) ∧
      (∀ extend ∈ file.extendBlocks, Complete extend.texts) ∧
      ∀ service ∈ file.services, Complete service.texts := by
  simp [texts]

theorem SchemaFile.complete_of_decode {json : Json} {file : SchemaFile}
    (h : decode json = .ok file) : Complete file.texts := by
  obtain ⟨members, hmembers⟩ := Json.Record.exists_of_read decodeMembers_of_decodeElements h
  simp only [decodeMembers, bind_eq_ok, pure_eq_ok] at hmembers
  obtain ⟨imports, -, extendBlocks, hextends, path, -, settings, hsettings, package, -,
    publicImports, -, services, hservices, dialect, -, types, htypes, rfl⟩ := hmembers
  exact complete_iff.mpr ⟨Setting.complete_of_decodeList hsettings,
    Json.forall_of_readItems (fun hjson => TypeDecl.complete_of_decode _ _ hjson) htypes,
    Json.forall_of_readItems ExtendBlock.complete_of_decode hextends,
    Json.forall_of_readItems Service.complete_of_decode hservices⟩

theorem SchemaFile.Obtainable.complete {file : SchemaFile} (h : file.Obtainable) :
    Complete file.texts := by
  induction h with
  | new path => simp [texts]
  | withPackage name _ ih => exact complete_iff.mpr (complete_iff.mp ih)
  | withDialect dialect _ ih => exact complete_iff.mpr (complete_iff.mp ih)
  | withImports imports publicImports _ ih => exact complete_iff.mpr (complete_iff.mp ih)
  | withTypes _ htypes ih =>
    obtain ⟨hsettings, -, hextends, hservices⟩ := complete_iff.mp ih
    exact complete_iff.mpr
      ⟨hsettings, fun t ht => (htypes t ht).complete, hextends, hservices⟩
  | withServices _ hservices ih =>
    obtain ⟨hsettings, htypes, hextends, -⟩ := complete_iff.mp ih
    exact complete_iff.mpr ⟨hsettings, htypes, hextends,
      fun service hservice => (hservices service hservice).complete⟩
  | withExtendBlocks _ hextends ih =>
    obtain ⟨hsettings, htypes, -, hservices⟩ := complete_iff.mp ih
    exact complete_iff.mpr ⟨hsettings, htypes,
      fun extend hextend => (hextends extend hextend).complete, hservices⟩
  | withSettings _ hsettings ih =>
    obtain ⟨-, htypes, hextends, hservices⟩ := complete_iff.mp ih
    exact complete_iff.mpr
      ⟨fun setting hsetting => (hsettings setting hsetting).complete, htypes, hextends, hservices⟩
  | decoded h => exact complete_of_decode h

end WireSchema
