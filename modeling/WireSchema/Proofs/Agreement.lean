/-
  WireSchema/Proofs/Agreement.lean
  ================================
  **Reading validates like building.**  A JSON tree of the right shape can be read by
  the codec, and it can be assembled with the checked builders, its parts first.  The
  two check different things in a different order: the codec checks names where they
  stand and builds records directly, while assembling passes everything through the
  builders.  They accept the same trees all the same, and give the same declarations.

  There is one exception.  A file whose package is the empty string cannot be read,
  and is assembled as a file without a package.
-/
import WireSchema.Proofs.Decoded
import WireSchema.Proofs.Shape

namespace WireSchema

open Json (Members member? readMember readText readFlag readItems readNullable readString readBool
  readInt32 readList require Has MayHave IsString IsFlag IsWord IsListOf IsObject IsNullOr)

/-! ### Agreement of two results -/

/-- One result is a value if the other is, and then it is the same value.  Nothing is
    said about the errors. -/
def Agree {ε δ α : Type} (x : Except ε α) (y : Except δ α) : Prop :=
  ∀ value, x = .ok value ↔ y = .ok value

namespace Agree

variable {ε δ α β : Type}

theorem ok (value : α) : Agree (.ok value : Except ε α) (.ok value : Except δ α) := by
  intro other
  simp

theorem map {x : Except ε α} {y : Except δ α} (h : Agree x y) (f : α → β) :
    Agree (f <$> x) (f <$> y) := by
  intro value
  simp only [map_eq_ok]
  constructor
  · rintro ⟨a, ha, rfl⟩
    exact ⟨a, (h a).mp ha, rfl⟩
  · rintro ⟨a, ha, rfl⟩
    exact ⟨a, (h a).mpr ha, rfl⟩

theorem mapM {f : β → Except ε α} {g : β → Except δ α} {items : List β}
    (h : ∀ item ∈ items, Agree (f item) (g item)) : Agree (items.mapM f) (items.mapM g) := by
  induction items with
  | nil => exact ok []
  | cons item items ih =>
    have hitem : Agree (f item) (g item) := h item (by simp)
    have hitems : Agree (items.mapM f) (items.mapM g) :=
      ih fun other hother => h other (by simp [hother])
    intro values
    simp only [List.mapM_cons, bind_eq_ok, pure_eq_ok]
    constructor
    · rintro ⟨a, ha, as, has, rfl⟩
      exact ⟨a, (hitem a).mp ha, as, (hitems as).mp has, rfl⟩
    · rintro ⟨a, ha, as, has, rfl⟩
      exact ⟨a, (hitem a).mpr ha, as, (hitems as).mpr has, rfl⟩

end Agree

/-! ### Members -/

theorem Outline.checked_eq_ok {α : Type} {x : Except SchemaError α} {value : α} :
    checked x = .ok value ↔ x = .ok value := by
  cases x <;> simp [checked]

theorem Outline.plain_eq_ok {α : Type} {read : Json → Except DecodeError α} {json : Json}
    {value : α} : plain read json = .ok value ↔ read json = .ok value := by
  unfold plain
  cases read json <;> simp

/-- Where assembling leaves a value to the codec's reader, the two agree. -/
theorem agree_plain {α : Type} (read : Json → Except DecodeError α) (json : Json) :
    Agree (read json) (Outline.plain read json) := by
  intro value
  exact Outline.plain_eq_ok.symm

theorem Outline.part_setMember {key other : String} (h : other ≠ key) (value : Json)
    (members : Members) : part (Json.setMember other value members) key = part members key := by
  rw [part, part, Json.member?_setMember_of_ne h]

/-- What a shaped text is read as, and what it is assembled as, is the text itself. -/
theorem agree_text {members : Members} {key : String} (h : MayHave members key IsString) :
    Agree (readText members key) (Outline.text members key) := by
  unfold readText Outline.text Outline.part
  cases hfound : member? key members with
  | none => exact .ok ""
  | some json =>
    obtain ⟨text, rfl⟩ := h json hfound
    exact .ok text

theorem agree_flag {members : Members} {key : String} (h : MayHave members key IsFlag) :
    Agree (readFlag members key) (Outline.flag members key) := by
  unfold readFlag Outline.flag Outline.part
  cases hfound : member? key members with
  | none => exact .ok false
  | some json =>
    obtain ⟨value, rfl⟩ := h json hfound
    exact .ok value

theorem agree_list {α : Type} {members : Members} {key : String} {P : Json → Prop}
    {read : Json → Except DecodeError α} {build : Json → Except OutlineError α}
    (h : MayHave members key (IsListOf P)) (each : ∀ json, P json → Agree (read json) (build json)) :
    Agree (readItems members key read) (Outline.list members key build) := by
  unfold readItems Outline.list Outline.part
  cases hfound : member? key members with
  | none => exact .ok []
  | some json =>
    obtain ⟨items, rfl, hitems⟩ := h json hfound
    exact .mapM fun item hitem => each item (hitems item hitem)

/-- A member that is there is assembled by the reader itself. -/
theorem readMember_iff_value {α : Type} {members : Members} {key : String} {P : Json → Prop}
    {read : Json → Except DecodeError α} (h : Has members key P) (value : α) :
    readMember members key read = .ok (some value) ↔ Outline.value members key read = .ok value := by
  obtain ⟨json, hfound, -⟩ := h
  simp [readMember, Outline.value, Outline.part, hfound, map_eq_ok, Outline.plain_eq_ok]

theorem readMember_iff_string {members : Members} {key : String} (h : Has members key IsString)
    (text : String) :
    readMember members key readString = .ok (some text) ↔
      Outline.text members key = .ok text := by
  obtain ⟨json, hfound, found, rfl⟩ := h
  simp only [readMember, Outline.text, Outline.part, Outline.asText, hfound, map_eq_ok,
    Option.getD_some, Json.readString_str, Except.ok.injEq, Option.some.injEq, exists_eq_left']

/-- A name is checked where it is read, but assembled as a plain text first. -/
theorem readMember_iff_name {members : Members} {key : String} (h : Has members key IsString)
    (name : Name) :
    readMember members key Name.decode = .ok (some name) ↔
      Outline.text members key = .ok name.text := by
  obtain ⟨json, hfound, text, rfl⟩ := h
  simp [readMember, Outline.text, Outline.part, Outline.asText, hfound, map_eq_ok, Name.decode,
    bind_eq_ok, Json.checked_eq_ok, Name.make_eq_ok_iff]

theorem readMember_iff_typeRef {members : Members} {key : String} (h : Has members key IsString)
    (reference : TypeRef) :
    readMember members key TypeRef.decode = .ok (some reference) ↔
      Outline.text members key = .ok reference.text := by
  obtain ⟨json, hfound, text, rfl⟩ := h
  simp [readMember, Outline.text, Outline.part, Outline.asText, hfound, map_eq_ok, TypeRef.decode,
    bind_eq_ok, Json.checked_eq_ok, TypeRef.make_eq_ok_iff]

theorem agree_optional {α : Type} (members : Members) (key : String)
    (read : Json → Except DecodeError α) :
    Agree (readNullable members key read) (Outline.optional members key read) := by
  intro value
  unfold readNullable Outline.optional Outline.part
  cases member? key members with
  | none => simp
  | some json => cases json <;> simp [map_eq_ok, Outline.plain_eq_ok]

/-! ### Options -/

/-- A word of a choice is read in both of its forms, wherever it stands. -/
theorem Json.readChoice_of_isWord {α : Type} {choices : List (String × α)} {word : String}
    {choice : α} {json : Json} (hlookup : choices.lookup word = some choice)
    (h : IsWord word json) (position : Position) :
    readChoice position choices json = .ok choice := by
  rcases h with rfl | rfl
  · simp [readChoice, hlookup]
  · simp only [readChoice, hlookup, readUnit]
    rfl

theorem SettingKind.lookup_word (kind : SettingKind) : choices.lookup kind.word = some kind := by
  cases kind <;> rfl

namespace SettingValue

/-! The content of a value and the value of a setting are found among the members by
recursion on the tree; what is found is what a look-up finds. -/

theorem decodeContent_of_member? {position : Position} {kind : SettingKind} {members : Members}
    {json : Json} (h : member? "value" members = some json) :
    decodeContent position kind members = decodeAs position kind json := by
  induction members with
  | nil => exact nomatch h
  | cons entry members ih =>
    obtain ⟨key, found⟩ := entry
    by_cases hkey : key = "value"
    · rw [member?, if_pos hkey] at h
      rw [decodeContent, if_pos hkey, Option.some.inj h]
    · rw [member?, if_neg hkey] at h
      rw [decodeContent, if_neg hkey, ih h]

theorem assembleContent_of_member? {kind : SettingKind} {members : Members} {json : Json}
    (h : member? "value" members = some json) :
    assembleContent kind members = assembleAs kind json := by
  induction members with
  | nil => exact nomatch h
  | cons entry members ih =>
    obtain ⟨key, found⟩ := entry
    by_cases hkey : key = "value"
    · rw [member?, if_pos hkey] at h
      rw [assembleContent, if_pos hkey, Option.some.inj h]
    · rw [member?, if_neg hkey] at h
      rw [assembleContent, if_neg hkey, ih h]

theorem assembleMember_of_member? {members : Members} {json : Json}
    (h : member? "value" members = some json) : assembleMember members = assemble json := by
  induction members with
  | nil => exact nomatch h
  | cons entry members ih =>
    obtain ⟨key, found⟩ := entry
    by_cases hkey : key = "value"
    · rw [member?, if_pos hkey] at h
      rw [assembleMember, if_pos hkey, Option.some.inj h]
    · rw [member?, if_neg hkey] at h
      rw [assembleMember, if_neg hkey, ih h]

theorem assembleEach_eq_mapM (items : List Json) : assembleEach items = items.mapM assemble := by
  induction items with
  | nil => rfl
  | cons json items ih => simp [assembleEach, ih]

theorem agree_entries {position : Position} {entries : List (String × Json)}
    (h : ∀ entry ∈ entries, Agree (decode position entry.2) (assemble entry.2)) :
    Agree (decodeEntries position (entries.map fun entry => .arr [.str entry.1, entry.2]))
      (assembleEntries (entries.map fun entry => .arr [.str entry.1, entry.2])) := by
  induction entries with
  | nil => exact .ok []
  | cons entry entries ih =>
    obtain ⟨key, json⟩ := entry
    have hjson : Agree (decode position json) (assemble json) := h (key, json) (by simp)
    have hentries := ih fun other hother => h other (by simp [hother])
    intro values
    simp only [List.map_cons, decodeEntries, decodeEntry, assembleEntries, Outline.asText,
      Json.readString_str, Json.endArray, List.length_nil, Nat.add_zero, Nat.le_refl, if_true,
      bind_eq_ok, pure_eq_ok, Except.ok.injEq]
    constructor
    · rintro ⟨_, ⟨_, rfl, value, hvalue, rfl⟩, rest, hrest, rfl⟩
      exact ⟨_, rfl, value, (hjson value).mp hvalue, rest, (hentries rest).mp hrest, rfl⟩
    · rintro ⟨_, rfl, value, hvalue, rest, hrest, rfl⟩
      exact ⟨_, ⟨_, rfl, value, (hjson value).mpr hvalue, rfl⟩, rest, (hentries rest).mpr hrest, rfl⟩

theorem assembleAs_nested (members : Members) :
    assembleAs .nested (.obj members) = Setting.toValue <$> Setting.assemble (.obj members) := by
  simp only [assembleAs, Setting.assemble, Outline.record]
  cases assembleMember members <;> rfl

end SettingValue

theorem Setting.Shaped.eq_obj {json : Json} (h : Setting.Shaped json) :
    ∃ members, json = .obj members := by
  cases h with
  | record => exact ⟨_, rfl⟩

/-- A setting agrees if its value does: both sides end in `Setting.make`. -/
theorem Setting.agree_of_value {position : Position} {members : Members} {json : Json}
    (hname : Has members "name" IsString) (hcustom : MayHave members "parenthesized" IsFlag)
    (hfound : member? "value" members = some json)
    (hvalue : Agree (SettingValue.decode position json) (SettingValue.assemble json)) :
    Agree (decode position (.obj members)) (assemble (.obj members)) := by
  intro setting
  simp only [decode, Json.Record.read, RawSetting.decodeMembers, RawSetting.ofMembers,
    RawSetting.build, assemble, Outline.record, assembleWith,
    SettingValue.assembleMember_of_member? hfound, bind_eq_ok, pure_eq_ok, Json.checked_eq_ok,
    Outline.checked_eq_ok, Json.require_eq_ok]
  have hread : ∀ value, readMember members "value" (SettingValue.decode position) = .ok (some value) ↔
      SettingValue.assemble json = .ok value := by
    intro value
    rw [← hvalue value]
    simp [readMember, hfound, map_eq_ok]
  constructor
  · rintro ⟨_, ⟨_, htext, custom, hflag, _, hjson, text, rfl, value, rfl, rfl⟩, hmake⟩
    exact ⟨value, (hread value).mp hjson, text, (readMember_iff_string hname text).mp htext, custom,
      (agree_flag hcustom custom).mp hflag, hmake⟩
  · rintro ⟨value, hjson, text, htext, custom, hflag, hmake⟩
    exact ⟨_, ⟨_, (readMember_iff_string hname text).mpr htext, custom,
      (agree_flag hcustom custom).mpr hflag, _, (hread value).mpr hjson, text, rfl, value, rfl, rfl⟩,
      hmake⟩

mutual

theorem SettingValue.Shaped.agree : ∀ {json : Json}, SettingValue.Shaped json →
    ∀ position, Agree (SettingValue.decode position json) (SettingValue.assemble json)
  | _, .tagged kind hkind hfound hcontent, position => by
    obtain ⟨word, hword, hisWord⟩ := hkind
    have hread := Json.readChoice_of_isWord kind.lookup_word hisWord
    have hagree := SettingValue.ShapedAs.agree hcontent position
    intro value
    simp only [SettingValue.decode, SettingValue.assemble, SettingKind.decode, readMember,
      Outline.value, Outline.part, Outline.plain, hword, Option.getD_some, hread]
    simpa [require, bind, Except.bind, Functor.map, Except.map,
      SettingValue.decodeContent_of_member? hfound, SettingValue.assembleContent_of_member? hfound]
      using hagree value

theorem SettingValue.ShapedAs.agree : ∀ {kind : SettingKind} {json : Json},
    SettingValue.ShapedAs kind json → ∀ position,
      Agree (SettingValue.decodeAs position kind json) (SettingValue.assembleAs kind json)
  | _, _, .string ⟨text, rfl⟩, _ => by
    simp only [SettingValue.decodeAs, SettingValue.assembleAs]
    exact (agree_plain _ _).map _
  | _, _, .identifier ⟨text, rfl⟩, _ => by
    simp only [SettingValue.decodeAs, SettingValue.assembleAs]
    exact (agree_plain _ _).map _
  | _, _, .integer ⟨value, rfl, _⟩, _ => by
    simp only [SettingValue.decodeAs, SettingValue.assembleAs]
    exact (agree_plain _ _).map _
  | _, _, .float ⟨text, rfl⟩, _ => by
    simp only [SettingValue.decodeAs, SettingValue.assembleAs]
    exact (agree_plain _ _).map _
  | _, _, .boolean ⟨value, rfl⟩, _ => by
    simp only [SettingValue.decodeAs, SettingValue.assembleAs]
    exact (agree_plain _ _).map _
  | _, _, .nested h, position => by
    have hagree := (Setting.Shaped.agree h position).map Setting.toValue
    obtain ⟨members, rfl⟩ := h.eq_obj
    rw [Setting.decodeAs_nested, SettingValue.assembleAs_nested]
    exact hagree
  | _, _, .map entries h, position => by
    simp only [SettingValue.decodeAs, SettingValue.assembleAs]
    exact (SettingValue.agree_entries fun entry hentry =>
      SettingValue.Shaped.agree (h entry hentry) position).map _
  | _, _, .list h, position => by
    simp only [SettingValue.decodeAs, SettingValue.assembleAs, SettingValue.decodeEach_eq_mapM,
      SettingValue.assembleEach_eq_mapM]
    exact (Agree.mapM fun item hitem => SettingValue.Shaped.agree (h item hitem) position).map _

theorem Setting.Shaped.agree : ∀ {json : Json}, Setting.Shaped json →
    ∀ position, Agree (Setting.decode position json) (Setting.assemble json)
  | _, .record hname hcustom hfound hvalue, position =>
    Setting.agree_of_value hname hcustom hfound (SettingValue.Shaped.agree hvalue position)

end

theorem Setting.agree_list {position : Position} {members : Members} (h : ShapedList members) :
    Agree (decodeList position members) (assembleList members) :=
  WireSchema.agree_list h fun _ hjson => hjson.agree position

/-! ### Enums -/

theorem EnumValue.Shaped.agree {json : Json} (h : EnumValue.Shaped json) (position : Position) :
    Agree (EnumValue.decode position json) (EnumValue.assemble json) := by
  obtain ⟨members, rfl, h⟩ := h
  intro value
  simp only [decode, Json.Record.read, decodeMembers, assemble, Outline.record, make, bind_eq_ok,
    pure_eq_ok, Outline.checked_eq_ok, Json.require_eq_ok, Name.make_eq_ok_iff]
  constructor
  · rintro ⟨documentation, hdocumentation, _, hname, settings, hsettings, _, htag, name, rfl, tag,
      rfl, rfl⟩
    exact ⟨settings, (Setting.agree_list h.settings _).mp hsettings,
      name.text, (readMember_iff_name h.name _).mp hname,
      tag, (readMember_iff_value h.tag _).mp htag,
      documentation, (agree_text h.documentation _).mp hdocumentation, name, rfl, rfl⟩
  · rintro ⟨settings, hsettings, _, hname, tag, htag, documentation, hdocumentation, name, rfl, rfl⟩
    exact ⟨documentation, (agree_text h.documentation _).mpr hdocumentation,
      _, (readMember_iff_name h.name _).mpr hname,
      settings, (Setting.agree_list h.settings _).mpr hsettings,
      _, (readMember_iff_value h.tag _).mpr htag, name, rfl, tag, rfl, rfl⟩

theorem EnumDecl.Shape.agree {members : Members} (h : EnumDecl.Shape members)
    (position : Position) :
    Agree (EnumDecl.decodeMembers position members) (EnumDecl.assembleMembers members) := by
  have hvalues := agree_list h.values fun _ hjson => EnumValue.Shaped.agree hjson position
  intro decl
  simp only [decodeMembers, assembleMembers, make, bind_eq_ok, pure_eq_ok, Outline.checked_eq_ok,
    Json.require_eq_ok, Name.make_eq_ok_iff]
  constructor
  · rintro ⟨documentation, hdocumentation, _, hname, settings, hsettings, qualifiedName, hqualified,
      values, hread, name, rfl, rfl⟩
    exact ⟨settings, (Setting.agree_list h.settings _).mp hsettings,
      values, (hvalues _).mp hread,
      name.text, (readMember_iff_name h.name _).mp hname,
      qualifiedName, (agree_text h.qualifiedName _).mp hqualified,
      documentation, (agree_text h.documentation _).mp hdocumentation, name, rfl, rfl⟩
  · rintro ⟨settings, hsettings, values, hread, _, hname, qualifiedName, hqualified, documentation,
      hdocumentation, name, rfl, rfl⟩
    exact ⟨documentation, (agree_text h.documentation _).mpr hdocumentation,
      _, (readMember_iff_name h.name _).mpr hname,
      settings, (Setting.agree_list h.settings _).mpr hsettings,
      qualifiedName, (agree_text h.qualifiedName _).mpr hqualified,
      values, (hvalues _).mpr hread, name, rfl, rfl⟩

/-! ### Fields and extensions -/

/-- A label is read alike wherever it stands, if it is written as its word. -/
theorem Label.readMember_iff_value {members : Members}
    (h : Has members "label" fun json => ∃ label : Label, IsWord label.word json)
    (position : Position) (label : Label) :
    readMember members "label" (decodeAt position) = .ok (some label) ↔
      Outline.value members "label" decode = .ok label := by
  rw [← WireSchema.readMember_iff_value h label]
  obtain ⟨json, hfound, found, hword⟩ := h
  have hread : ∀ position, decodeAt position json = .ok found :=
    Json.readChoice_of_isWord (by cases found <;> rfl) hword
  simp only [readMember, hfound, hread, decode]

theorem Field.Shaped.agree {json : Json} (h : Field.Shaped json) (position : Position) :
    Agree (Field.decode position json) (Field.assemble json) := by
  obtain ⟨members, rfl, h⟩ := h
  intro field
  simp only [decode, Json.Record.read, decodeMembers, assemble, Outline.record, make, bind_eq_ok,
    pure_eq_ok, Outline.checked_eq_ok, Json.require_eq_ok, Name.make_eq_ok_iff,
    TypeRef.make_eq_ok_iff]
  constructor
  · rintro ⟨documentation, hdocumentation, _, hlabel, _, hname, settings, hsettings, _, htag, _,
      htype, label, rfl, typeRef, rfl, name, rfl, tag, rfl, rfl⟩
    exact ⟨settings, (Setting.agree_list h.settings _).mp hsettings,
      label, (Label.readMember_iff_value h.label position _).mp hlabel,
      typeRef.text, (readMember_iff_typeRef h.typeRef _).mp htype,
      name.text, (readMember_iff_name h.name _).mp hname,
      tag, (readMember_iff_value h.tag _).mp htag,
      documentation, (agree_text h.documentation _).mp hdocumentation,
      typeRef, rfl, name, rfl, rfl⟩
  · rintro ⟨settings, hsettings, label, hlabel, _, htype, _, hname, tag, htag, documentation,
      hdocumentation, typeRef, rfl, name, rfl, rfl⟩
    exact ⟨documentation, (agree_text h.documentation _).mpr hdocumentation,
      _, (Label.readMember_iff_value h.label position _).mpr hlabel,
      _, (readMember_iff_name h.name _).mpr hname,
      settings, (Setting.agree_list h.settings _).mpr hsettings,
      _, (readMember_iff_value h.tag _).mpr htag,
      _, (readMember_iff_typeRef h.typeRef _).mpr htype,
      label, rfl, typeRef, rfl, name, rfl, tag, rfl, rfl⟩

theorem Oneof.Shaped.agree {json : Json} (h : Oneof.Shaped json) (position : Position) :
    Agree (Oneof.decode position json) (Oneof.assemble json) := by
  obtain ⟨members, rfl, h⟩ := h
  have hfields := agree_list h.fields fun _ hjson => Field.Shaped.agree hjson position
  intro oneof
  simp only [decode, Json.Record.read, decodeMembers, assemble, Outline.record, make, bind_eq_ok,
    pure_eq_ok, Outline.checked_eq_ok, Json.require_eq_ok, Name.make_eq_ok_iff]
  constructor
  · rintro ⟨documentation, hdocumentation, fields, hread, _, hname, name, rfl, rfl⟩
    exact ⟨fields, (hfields _).mp hread,
      name.text, (readMember_iff_name h.name _).mp hname,
      documentation, (agree_text h.documentation _).mp hdocumentation, name, rfl, rfl⟩
  · rintro ⟨fields, hread, _, hname, documentation, hdocumentation, name, rfl, rfl⟩
    exact ⟨documentation, (agree_text h.documentation _).mpr hdocumentation,
      fields, (hfields _).mpr hread,
      _, (readMember_iff_name h.name _).mpr hname, name, rfl, rfl⟩

/-- Both sides compare the ends with the same builder, once they have both. -/
theorem ExtensionRange.Shaped.agree {json : Json} (h : ExtensionRange.Shaped json)
    (position : Position) :
    Agree (ExtensionRange.decodeAt position json) (ExtensionRange.assembleEnds json) := by
  obtain ⟨members, rfl, h⟩ := h
  intro range
  simp only [decodeAt, Json.Record.read, RawRange.decodeMembers, RawRange.build, assembleEnds,
    Outline.record, bind_eq_ok, pure_eq_ok, Json.checked_eq_ok, Outline.checked_eq_ok,
    Json.require_eq_ok]
  constructor
  · rintro ⟨_, ⟨documentation, hdocumentation, _, hlast, _, hfirst, first, rfl, last, rfl, rfl⟩,
      hmake⟩
    exact ⟨documentation, (agree_text h.documentation _).mp hdocumentation,
      first, (readMember_iff_value h.first _).mp hfirst,
      last, (readMember_iff_value h.last _).mp hlast, hmake⟩
  · rintro ⟨documentation, hdocumentation, first, hfirst, last, hlast, hmake⟩
    exact ⟨_, ⟨documentation, (agree_text h.documentation _).mpr hdocumentation,
      _, (readMember_iff_value h.last _).mpr hlast,
      _, (readMember_iff_value h.first _).mpr hfirst, first, rfl, last, rfl, rfl⟩, hmake⟩

theorem ExtendBlock.Shaped.agree {json : Json} (h : ExtendBlock.Shaped json) :
    Agree (ExtendBlock.decode json) (ExtendBlock.assemble json) := by
  obtain ⟨members, rfl, h⟩ := h
  have hfields := agree_list h.fields fun _ hjson => Field.Shaped.agree hjson .outside
  intro extend
  simp only [decode, Json.Record.read, decodeMembers, assemble, Outline.record, make, bind_eq_ok,
    pure_eq_ok, Outline.checked_eq_ok, Json.require_eq_ok, Name.make_eq_ok_iff]
  constructor
  · rintro ⟨documentation, hdocumentation, fields, hread, _, hname, qualifiedName, hqualified, name,
      rfl, rfl⟩
    exact ⟨fields, (hfields _).mp hread,
      name.text, (readMember_iff_name h.name _).mp hname,
      qualifiedName, (agree_text h.qualifiedName _).mp hqualified,
      documentation, (agree_text h.documentation _).mp hdocumentation, name, rfl, rfl⟩
  · rintro ⟨fields, hread, _, hname, qualifiedName, hqualified, documentation, hdocumentation, name,
      rfl, rfl⟩
    exact ⟨documentation, (agree_text h.documentation _).mpr hdocumentation,
      fields, (hfields _).mpr hread,
      _, (readMember_iff_name h.name _).mpr hname,
      qualifiedName, (agree_text h.qualifiedName _).mpr hqualified, name, rfl, rfl⟩

/-! ### Types -/

/-- A message agrees if its nested types do. -/
theorem MessageCore.Shape.agree {members : Members} (h : MessageCore.Shape members)
    (position : Position) {read : Except DecodeError (List TypeDecl)}
    {build : Except OutlineError (List TypeDecl)} (hnested : Agree read build) :
    Agree (Message.ofMembers position members read)
      (Message.assembleParts ExtensionRange.assembleEnds members build) := by
  have hfields := agree_list h.fields fun _ hjson => Field.Shaped.agree hjson position
  have honeofs := agree_list h.oneofs fun _ hjson => Oneof.Shaped.agree hjson position
  have hranges := agree_list h.extensionRanges fun _ hjson =>
    ExtensionRange.Shaped.agree hjson position
  intro message
  simp only [Message.ofMembers, Message.assembleParts, Message.make, Message.withOneofs,
    Message.withExtensionRanges, bind_eq_ok, pure_eq_ok, Outline.checked_eq_ok, Json.require_eq_ok,
    Name.make_eq_ok_iff]
  constructor
  · rintro ⟨documentation, hdocumentation, ranges, hreadRanges, fields, hreadFields, _, hname,
      nested, hread, oneofs, hreadOneofs, settings, hsettings, qualifiedName, hqualified, name, rfl,
      rfl⟩
    exact ⟨settings, (Setting.agree_list h.settings _).mp hsettings,
      fields, (hfields _).mp hreadFields, oneofs, (honeofs _).mp hreadOneofs,
      ranges, (hranges _).mp hreadRanges, nested, (hnested _).mp hread,
      name.text, (readMember_iff_name h.name _).mp hname,
      qualifiedName, (agree_text h.qualifiedName _).mp hqualified,
      documentation, (agree_text h.documentation _).mp hdocumentation, _, ⟨name, rfl, rfl⟩, rfl⟩
  · rintro ⟨settings, hsettings, fields, hreadFields, oneofs, hreadOneofs, ranges, hreadRanges,
      nested, hread, _, hname, qualifiedName, hqualified, documentation, hdocumentation, _,
      ⟨name, rfl, rfl⟩, rfl⟩
    exact ⟨documentation, (agree_text h.documentation _).mpr hdocumentation,
      ranges, (hranges _).mpr hreadRanges, fields, (hfields _).mpr hreadFields,
      _, (readMember_iff_name h.name _).mpr hname, nested, (hnested _).mpr hread,
      oneofs, (honeofs _).mpr hreadOneofs,
      settings, (Setting.agree_list h.settings _).mpr hsettings,
      qualifiedName, (agree_text h.qualifiedName _).mpr hqualified, name, rfl, rfl⟩

/-- The kind of a type is read and assembled as the kind whose word stands there. -/
theorem TypeKind.decode_of_member? (position : Position) {members : Members} {kind : TypeKind}
    (h : member? "type" members = some (.str kind.word)) :
    decode position members = .ok kind ∧
      Outline.value members "type" (read .outside) = .ok kind := by
  constructor
  · simp [decode, readMember, h, require, bind, Except.bind, Functor.map, Except.map]
  · simp [Outline.value, Outline.plain, Outline.part, h]

theorem TypeDecl.Shaped.agree {json : Json} (h : TypeDecl.Shaped json) : ∀ position,
    Agree (TypeDecl.decode position json)
      (TypeDecl.assembleWith ExtensionRange.assembleEnds json) := by
  induction h with
  | enum hkind hdecl =>
    intro position
    obtain ⟨hread, hbuild⟩ := TypeKind.decode_of_member? position hkind
    simp only [TypeDecl.decode, TypeDecl.assembleWith, hread, hbuild]
    exact (hdecl.agree .insideType).map _
  | message hkind hcore hlist hnested ih =>
    rename_i members
    intro position
    obtain ⟨hread, hbuild⟩ := TypeKind.decode_of_member? position hkind
    simp only [TypeDecl.decode, TypeDecl.assembleWith, hread, hbuild]
    have hitems : Agree (TypeDecl.decodeNested .insideType members)
        (TypeDecl.assembleNested ExtensionRange.assembleEnds members) := by
      rw [TypeDecl.decodeNested_eq, TypeDecl.assembleNested_eq]
      refine agree_list (P := fun json => ∀ position, Agree (TypeDecl.decode position json)
        (TypeDecl.assembleWith ExtensionRange.assembleEnds json)) ?_ fun json hjson => hjson _
      intro json hfound
      obtain ⟨items, rfl, -⟩ := hlist json hfound
      exact ⟨items, rfl, ih items hfound⟩
    exact (hcore.agree .insideType hitems).map _

theorem Message.Shaped.agree {json : Json} (h : Message.Shaped json) :
    Agree (Message.decode json) (Message.assembleWith ExtensionRange.assembleEnds json) := by
  obtain ⟨members, rfl, h⟩ := h
  simp only [decode, decodeAt, Json.Record.read, decodeMembers, assembleWith, Outline.record,
    TypeDecl.assembleNested_eq]
  exact h.toShape.agree .outside
    (agree_list h.nested fun _ hjson => TypeDecl.Shaped.agree hjson .outside)

/-! ### Services and files -/

theorem Rpc.Shaped.agree {json : Json} (h : Rpc.Shaped json) :
    Agree (Rpc.decode json) (Rpc.assemble json) := by
  obtain ⟨members, rfl, h⟩ := h
  intro rpc
  simp only [decode, Json.Record.read, decodeMembers, assemble, Outline.record, make, withStreaming,
    bind_eq_ok, pure_eq_ok, Outline.checked_eq_ok, Json.require_eq_ok, Name.make_eq_ok_iff,
    TypeRef.make_eq_ok_iff]
  constructor
  · rintro ⟨client, hclient, documentation, hdocumentation, _, hname, settings, hsettings, _,
      hrequest, _, hresponse, server, hserver, name, rfl, request, rfl, response, rfl, rfl⟩
    exact ⟨settings, (Setting.agree_list h.settings _).mp hsettings,
      name.text, (readMember_iff_name h.name _).mp hname,
      documentation, (agree_text h.documentation _).mp hdocumentation,
      request.text, (readMember_iff_typeRef h.requestType _).mp hrequest,
      response.text, (readMember_iff_typeRef h.responseType _).mp hresponse,
      _, ⟨name, rfl, request, rfl, response, rfl, rfl⟩,
      client, (agree_flag h.clientStreaming _).mp hclient,
      server, (agree_flag h.serverStreaming _).mp hserver, rfl⟩
  · rintro ⟨settings, hsettings, _, hname, documentation, hdocumentation, _, hrequest, _, hresponse,
      _, ⟨name, rfl, request, rfl, response, rfl, rfl⟩, client, hclient, server, hserver, rfl⟩
    exact ⟨client, (agree_flag h.clientStreaming _).mpr hclient,
      documentation, (agree_text h.documentation _).mpr hdocumentation,
      _, (readMember_iff_name h.name _).mpr hname,
      settings, (Setting.agree_list h.settings _).mpr hsettings,
      _, (readMember_iff_typeRef h.requestType _).mpr hrequest,
      _, (readMember_iff_typeRef h.responseType _).mpr hresponse,
      server, (agree_flag h.serverStreaming _).mpr hserver,
      name, rfl, request, rfl, response, rfl, rfl⟩

theorem Service.Shaped.agree {json : Json} (h : Service.Shaped json) :
    Agree (Service.decode json) (Service.assemble json) := by
  obtain ⟨members, rfl, h⟩ := h
  have hrpcs := agree_list h.rpcs fun _ hjson => Rpc.Shaped.agree hjson
  intro service
  simp only [decode, Json.Record.read, decodeMembers, assemble, Outline.record, make, bind_eq_ok,
    pure_eq_ok, Outline.checked_eq_ok, Json.require_eq_ok, Name.make_eq_ok_iff]
  constructor
  · rintro ⟨documentation, hdocumentation, _, hname, settings, hsettings, qualifiedName, hqualified,
      rpcs, hread, name, rfl, rfl⟩
    exact ⟨settings, (Setting.agree_list h.settings _).mp hsettings,
      rpcs, (hrpcs _).mp hread,
      name.text, (readMember_iff_name h.name _).mp hname,
      qualifiedName, (agree_text h.qualifiedName _).mp hqualified,
      documentation, (agree_text h.documentation _).mp hdocumentation, name, rfl, rfl⟩
  · rintro ⟨settings, hsettings, rpcs, hread, _, hname, qualifiedName, hqualified, documentation,
      hdocumentation, name, rfl, rfl⟩
    exact ⟨documentation, (agree_text h.documentation _).mpr hdocumentation,
      _, (readMember_iff_name h.name _).mpr hname,
      settings, (Setting.agree_list h.settings _).mpr hsettings,
      qualifiedName, (agree_text h.qualifiedName _).mpr hqualified,
      rpcs, (hrpcs _).mpr hread, name, rfl, rfl⟩

namespace SchemaFile

/-- The package of the file is given, but as the empty string. -/
def HasEmptyPackage (members : Members) : Prop := member? "package_name" members = some (.str "")

theorem agree_package {members : Members}
    (h : MayHave members "package_name" (IsNullOr IsString)) (hne : ¬ HasEmptyPackage members)
    (package : Option Name) :
    readNullable members "package_name" Name.decode = .ok package ↔
      ∃ text, Outline.text members "package_name" = .ok text ∧
        (Name.make text).toOption = package := by
  unfold HasEmptyPackage at hne
  unfold readNullable Outline.text Outline.part
  cases hfound : member? "package_name" members with
  | none => simp [Outline.asText, Except.toOption]
  | some json =>
    rcases h json hfound with rfl | ⟨text, rfl⟩
    · simp [Outline.asText, Except.toOption]
    · have htext : text ≠ "" := by
        rintro rfl
        exact hne hfound
      simp [Outline.asText, Name.decode, Name.make, htext, Json.checked, Except.toOption, bind,
        Except.bind, Functor.map, Except.map]

/-- A file agrees unless its package is the empty string. -/
theorem Shape.agree {members : Members} (h : Shape members) (hne : ¬ HasEmptyPackage members) :
    Agree (decode (.obj members)) (assembleWith ExtensionRange.assembleEnds (.obj members)) := by
  have hstring : ∀ json, IsString json → Agree (readString json) (Outline.asText json) := by
    rintro _ ⟨text, rfl⟩
    exact .ok text
  have himports := agree_list h.imports hstring
  have hpublic := agree_list h.publicImports hstring
  have htypes := agree_list h.types fun _ hjson => TypeDecl.Shaped.agree hjson .outside
  have hservices := agree_list h.services fun _ hjson => Service.Shaped.agree hjson
  have hextends := agree_list h.extendBlocks fun _ hjson => ExtendBlock.Shaped.agree hjson
  intro file
  simp only [decode, Json.Record.read, decodeMembers, assembleWith, Outline.record, withPackage,
    bind_eq_ok, pure_eq_ok]
  constructor
  · rintro ⟨imports, hreadImports, extendBlocks, hreadExtends, path, hpath, settings, hsettings,
      package, hpackage, publicImports, hreadPublic, services, hreadServices, dialect, hdialect,
      types, hreadTypes, rfl⟩
    obtain ⟨text, htext, rfl⟩ := (agree_package h.packageName hne package).mp hpackage
    exact ⟨types, (htypes _).mp hreadTypes, services, (hservices _).mp hreadServices,
      extendBlocks, (hextends _).mp hreadExtends,
      settings, (Setting.agree_list h.settings _).mp hsettings,
      path, (agree_text h.path _).mp hpath, text, htext,
      dialect, (agree_optional _ _ _ _).mp hdialect,
      imports, (himports _).mp hreadImports,
      publicImports, (hpublic _).mp hreadPublic, rfl⟩
  · rintro ⟨types, hreadTypes, services, hreadServices, extendBlocks, hreadExtends, settings,
      hsettings, path, hpath, text, htext, dialect, hdialect, imports, hreadImports, publicImports,
      hreadPublic, rfl⟩
    exact ⟨imports, (himports _).mpr hreadImports,
      extendBlocks, (hextends _).mpr hreadExtends,
      path, (agree_text h.path _).mpr hpath,
      settings, (Setting.agree_list h.settings _).mpr hsettings,
      _, (agree_package h.packageName hne _).mpr ⟨text, htext, rfl⟩,
      publicImports, (hpublic _).mpr hreadPublic,
      services, (hservices _).mpr hreadServices,
      dialect, (agree_optional _ _ _ _).mpr hdialect,
      types, (htypes _).mpr hreadTypes, rfl⟩

/-! The exception: a package that is the empty string. -/

theorem not_decode_of_hasEmptyPackage {members : Members} (h : HasEmptyPackage members)
    (file : SchemaFile) : decode (.obj members) ≠ .ok file := by
  intro hread
  simp only [decode, Json.Record.read, decodeMembers, bind_eq_ok] at hread
  obtain ⟨_, -, _, -, _, -, _, -, package, hpackage, -⟩ := hread
  have hempty : member? "package_name" members = some (.str "") := h
  simp only [readNullable, hempty, map_eq_ok, Name.decode, bind_eq_ok, Json.checked_eq_ok,
    Json.readString_str, Except.ok.injEq] at hpackage
  obtain ⟨name, ⟨_, rfl, hname⟩, -⟩ := hpackage
  exact name.nonempty (Name.text_of_make hname)

/-- Assembling cannot tell an empty package from one that is `null`. -/
theorem assembleWith_clearPackage {members : Members} (h : HasEmptyPackage members)
    (range : RangeForm) :
    assembleWith range (.obj (Json.setMember "package_name" .null members)) =
      assembleWith range (.obj members) := by
  have hpackage : Outline.text (Json.setMember "package_name" .null members) "package_name" =
      Outline.text members "package_name" := by
    simp [Outline.text, Outline.part, Outline.asText,
      show member? "package_name" members = some (.str "") from h]
  simp only [assembleWith, Outline.record, Setting.assembleList, hpackage]
  simp [Outline.list, Outline.text, Outline.optional, Outline.part_setMember]

theorem packageName_of_assembleWith {members : Members} (h : HasEmptyPackage members)
    {range : RangeForm} {file : SchemaFile} (hfile : assembleWith range (.obj members) = .ok file) :
    file.packageName = none := by
  have hempty : Outline.text members "package_name" = .ok "" := by
    simp [Outline.text, Outline.part, Outline.asText,
      show member? "package_name" members = some (.str "") from h]
  simp only [assembleWith, Outline.record, hempty, bind_eq_ok, pure_eq_ok, Except.ok.injEq] at hfile
  obtain ⟨_, -, _, -, _, -, _, -, _, -, _, rfl, _, -, _, -, _, -, rfl⟩ := hfile
  rfl

end SchemaFile

/-! ### The main statement -/

/-- On every tree of the shape, reading and building agree. -/
def AgreeOn {α : Type} (Shaped : Json → Prop) (read : Json → Except DecodeError α)
    (build : Json → Except OutlineError α) : Prop :=
  ∀ json, Shaped json → Agree (read json) (build json)

/-- **Reading accepts what the builders accept, and gives the same declaration.**  For a
    file whose package is the empty string, reading refuses the tree and building takes it
    as the tree without the package. -/
theorem readers_agree_with_builders (position : Position) :
    AgreeOn IsString Name.decode Name.assemble ∧
    AgreeOn SettingValue.Shaped (SettingValue.decode position) SettingValue.assemble ∧
    AgreeOn Setting.Shaped (Setting.decode position) Setting.assemble ∧
    AgreeOn EnumValue.Shaped (EnumValue.decode position) EnumValue.assemble ∧
    AgreeOn EnumDecl.Shaped (EnumDecl.decode position) EnumDecl.assemble ∧
    AgreeOn Field.Shaped (Field.decode position) Field.assemble ∧
    AgreeOn Oneof.Shaped (Oneof.decode position) Oneof.assemble ∧
    AgreeOn ExtensionRange.Shaped ExtensionRange.decode ExtensionRange.assembleEnds ∧
    AgreeOn ExtendBlock.Shaped ExtendBlock.decode ExtendBlock.assemble ∧
    AgreeOn Message.Shaped Message.decode (Message.assembleWith ExtensionRange.assembleEnds) ∧
    AgreeOn TypeDecl.Shaped (TypeDecl.decode position)
      (TypeDecl.assembleWith ExtensionRange.assembleEnds) ∧
    AgreeOn Rpc.Shaped Rpc.decode Rpc.assemble ∧
    AgreeOn Service.Shaped Service.decode Service.assemble ∧
    AgreeOn (IsObject fun members => SchemaFile.Shape members ∧ ¬ SchemaFile.HasEmptyPackage members)
      SchemaFile.decode (SchemaFile.assembleWith ExtensionRange.assembleEnds) ∧
    ∀ members, SchemaFile.Shape members → SchemaFile.HasEmptyPackage members →
      (∀ file, SchemaFile.decode (.obj members) ≠ .ok file) ∧
      (∀ file, SchemaFile.assembleWith ExtensionRange.assembleEnds (.obj members) = .ok file →
        file.packageName = none) ∧
      Agree (SchemaFile.decode (.obj (Json.setMember "package_name" .null members)))
        (SchemaFile.assembleWith ExtensionRange.assembleEnds (.obj members)) := by
  refine ⟨?_, ?_, ?_, ?_, ?_, ?_, ?_, ?_, ?_, ?_, ?_, ?_, ?_, ?_, ?_⟩
  · rintro _ ⟨text, rfl⟩ name
    simp [Name.decode, Name.assemble, Outline.asText, bind_eq_ok, Json.checked_eq_ok,
      Outline.checked_eq_ok]
  · exact fun _ h => h.agree position
  · exact fun _ h => h.agree position
  · exact fun _ h => EnumValue.Shaped.agree h position
  · rintro _ ⟨members, rfl, h⟩
    exact h.agree position
  · exact fun _ h => Field.Shaped.agree h position
  · exact fun _ h => Oneof.Shaped.agree h position
  · exact fun _ h => ExtensionRange.Shaped.agree h .outside
  · exact fun _ h => ExtendBlock.Shaped.agree h
  · exact fun _ h => Message.Shaped.agree h
  · exact fun _ h => TypeDecl.Shaped.agree h position
  · exact fun _ h => Rpc.Shaped.agree h
  · exact fun _ h => Service.Shaped.agree h
  · rintro _ ⟨members, rfl, h, hne⟩
    exact h.agree hne
  · intro members h hempty
    refine ⟨SchemaFile.not_decode_of_hasEmptyPackage hempty, ?_, ?_⟩
    · intro file hfile
      exact SchemaFile.packageName_of_assembleWith hempty hfile
    · have hcleared : ¬ SchemaFile.HasEmptyPackage (Json.setMember "package_name" .null members) := by
        simp [SchemaFile.HasEmptyPackage]
      rw [← SchemaFile.assembleWith_clearPackage hempty]
      exact h.clearPackage.agree hcleared

/-- The outline of a file whose package is empty.  It has a range with a member that no
    range knows, and an option with a map in it. -/
def SchemaFile.untitled : Members :=
  [("package_name", .str ""),
    ("types", .arr [.obj [("type", .str "Message"), ("name", .str "A"),
      ("extensions", .arr [.obj [("start", .int 1), ("end", .int 4), ("single", .bool true)]])]]),
    ("options", .arr [.obj [("name", .str "limits"), ("parenthesized", .bool true),
      ("value", .obj [("kind", .obj [("Map", .null)]),
        ("value", .arr [.arr [.str "upper",
          .obj [("value", .int 5), ("kind", .str "Integer")]]])])]])]

theorem SchemaFile.shape_untitled : Shape untitled where
  path := .of_absent rfl
  packageName := Has.mayHave ⟨_, rfl, Or.inr ⟨_, rfl⟩⟩
  dialect := .of_absent rfl
  imports := .of_absent rfl
  publicImports := .of_absent rfl
  types := by
    refine Has.mayHave ⟨_, rfl, _, rfl, List.forall_mem_singleton.mpr ?_⟩
    refine .message rfl ?_ (.of_absent rfl) nofun
    exact {
      name := ⟨_, rfl, _, rfl⟩
      qualifiedName := .of_absent rfl
      documentation := .of_absent rfl
      settings := .of_absent rfl
      fields := .of_absent rfl
      oneofs := .of_absent rfl
      extensionRanges := Has.mayHave ⟨_, rfl, _, rfl, List.forall_mem_singleton.mpr
        ⟨_, rfl, .of_absent rfl, ⟨_, rfl, 1, rfl, by decide⟩, ⟨_, rfl, 4, rfl, by decide⟩⟩⟩ }
  services := .of_absent rfl
  extendBlocks := .of_absent rfl
  settings := by
    refine Has.mayHave ⟨_, rfl, _, rfl, List.forall_mem_singleton.mpr ?_⟩
    refine .record ⟨_, rfl, _, rfl⟩ (Has.mayHave ⟨_, rfl, _, rfl⟩) rfl ?_
    refine .tagged .map ⟨_, rfl, Or.inr rfl⟩ rfl ?_
    refine .map [("upper", _)] (List.forall_mem_singleton.mpr ?_)
    exact .tagged .integer ⟨_, rfl, Or.inl rfl⟩ rfl (.integer ⟨5, rfl, by decide⟩)

theorem SchemaFile.agree_untitled :
    Shape untitled ∧ HasEmptyPackage untitled ∧ (∀ file, decode (.obj untitled) ≠ .ok file) ∧
      Agree (decode (.obj (Json.setMember "package_name" .null untitled)))
        (assembleWith ExtensionRange.assembleEnds (.obj untitled)) := by
  obtain ⟨-, -, -, -, -, -, -, -, -, -, -, -, -, -, hfile⟩ := readers_agree_with_builders .outside
  obtain ⟨hread, -, hagree⟩ := hfile untitled shape_untitled rfl
  exact ⟨shape_untitled, rfl, hread, hagree⟩

end WireSchema
