/-
  WireSchema/Codec/Setting.lean
  =============================
  **Options as JSON.**  A value is an object of two members, its kind and its
  content; the kind is read first, because it says how to read the content.  A
  setting is an object of its name, its value and whether it is custom.  Arrays
  of the same are read as well, but never written.

  Values are read by recursion on the JSON tree.  A setting is read raw first,
  and then built by `Setting.make`, so a setting with an empty token is refused
  wherever it stands.
-/
import WireSchema.Codec.Basic
import WireSchema.Setting

namespace WireSchema

/-! ### Kinds of values -/

inductive SettingKind
  | string
  | identifier
  | integer
  | float
  | boolean
  | nested
  | map
  | list
  deriving DecidableEq, Repr

namespace SettingKind

def word : SettingKind → String
  | .string => "String"
  | .identifier => "Identifier"
  | .integer => "Integer"
  | .float => "Float"
  | .boolean => "Boolean"
  | .nested => "Option"
  | .map => "Map"
  | .list => "List"

def choices : List (String × SettingKind) :=
  [.string, .identifier, .integer, .float, .boolean, .nested, .map, .list].map
    fun kind : SettingKind => (kind.word, kind)

@[simp] theorem readChoice_word (position : Position) (kind : SettingKind) :
    Json.readChoice position choices (.str kind.word) = .ok kind := by
  cases kind <;> rfl

def decode (position : Position) (members : Json.Members) : Except DecodeError SettingKind := do
  let kind ← Json.readMember members "kind" (Json.readChoice position choices)
  Json.require "kind" kind

end SettingKind

/-! ### Writing -/

namespace SettingValue

/-- A value as JSON, given its kind and its content. -/
def tagged (kind : SettingKind) (content : Json) : Json :=
  .obj [("kind", .str kind.word), ("value", content)]

/-- A setting as JSON, given its value as JSON. -/
def settingJson (name : Name) (custom : Bool) (value : Json) : Json :=
  .obj [("name", name.encode), ("value", value), ("parenthesized", .bool custom)]

mutual

def encode : SettingValue → Json
  | .string text => tagged .string (.str text)
  | .identifier text => tagged .identifier (.str text)
  | .integer value => tagged .integer (.int value.toInt)
  | .float text => tagged .float (.str text)
  | .boolean value => tagged .boolean (.bool value)
  | .nested name custom value => tagged .nested (settingJson name custom (encode value))
  | .map entries => tagged .map (.arr (encodeEntries entries))
  | .list values => tagged .list (.arr (encodeEach values))

/-- The JSON values of map entries: arrays of a key and a value. -/
def encodeEntries : List (String × SettingValue) → List Json
  | [] => []
  | (key, value) :: entries => .arr [.str key, encode value] :: encodeEntries entries

def encodeEach : List SettingValue → List Json
  | [] => []
  | value :: values => encode value :: encodeEach values

end

end SettingValue

def Setting.encode (setting : Setting) : Json :=
  SettingValue.settingJson setting.name setting.custom setting.value.encode

/-! ### Reading -/

/-- A setting as it is read, before its tokens are checked. -/
structure RawSetting where
  name : String
  value : SettingValue
  custom : Bool

namespace RawSetting

def record : Json.Record where
  title := "Raw"
  keys := ["name", "value", "parenthesized"]

/-- Reads a setting from its members, given what reading its value gave. -/
def ofMembers (members : Json.Members) (value : Except DecodeError (Option SettingValue)) :
    Except DecodeError RawSetting := do
  let name ← Json.readMember members "name" Json.readString
  let custom ← Json.readFlag members "parenthesized"
  let value ← value
  let name ← Json.require "name" name
  let value ← Json.require "value" value
  return { name, value, custom }

/-- Reads a setting from its elements, given what reading its value gave. -/
def ofElements (members : Json.Members) (value : Except DecodeError (Option SettingValue)) :
    Except DecodeError RawSetting := do
  let name ← Json.readMember members "name" Json.readString
  let name ← record.require "name" name
  let value ← value
  let value ← record.require "value" value
  let custom ← Json.readFlag members "parenthesized"
  return { name, value, custom }

/-- Builds the setting that was read, which checks its tokens. -/
def build (raw : RawSetting) : Except DecodeError Setting :=
  Json.checked (Setting.make raw.name raw.custom raw.value)

end RawSetting

namespace SettingValue

mutual

def decode (position : Position) : Json → Except DecodeError SettingValue
  | .obj members => do
    let kind ← SettingKind.decode position members
    decodeContent position kind members
  | .arr elements => decodePair position elements
  | json => .error (.wrongShape json.shape .settingValue)

def decodePair (position : Position) : List Json → Except DecodeError SettingValue
  | [] => .error (.tooFew 0 .settingValue)
  | [kind] => do
    let _ ← kind.readKind position SettingKind.choices
    .error (.tooFew 1 .settingValue)
  | kind :: content :: rest => do
    let kind ← kind.readKind position SettingKind.choices
    let value ← decodeAs position kind content
    Json.endArray position (2 + rest.length) 2 value

/-- Finds the content among the members of a value and reads it by its kind. -/
def decodeContent (position : Position) (kind : SettingKind) :
    Json.Members → Except DecodeError SettingValue
  | [] => .error (.missing "value")
  | (key, json) :: members =>
    if key = "value" then decodeAs position kind json
    else decodeContent position kind members

def decodeAs (position : Position) : SettingKind → Json → Except DecodeError SettingValue
  | .string, json => .string <$> json.readString
  | .identifier, json => .identifier <$> json.readString
  | .integer, json => .integer <$> json.readInt64
  | .float, json => .float <$> json.readString
  | .boolean, json => .boolean <$> json.readBool
  | .nested, .obj members => do
    let raw ← RawSetting.ofMembers members (decodeMember position members)
    Setting.toValue <$> raw.build
  | .nested, .arr elements => do
    let raw ← RawSetting.ofElements (RawSetting.record.named elements)
      (decodeElement position 1 elements)
    let raw ← Json.endArray position elements.length RawSetting.record.keys.length raw
    Setting.toValue <$> raw.build
  | .nested, json => .error (.wrongShape json.shape (.record RawSetting.record.title))
  | .map, .arr items => .map <$> decodeEntries position items
  | .map, json => .error (.wrongShape json.shape .sequence)
  | .list, .arr items => .list <$> decodeEach position items
  | .list, json => .error (.wrongShape json.shape .sequence)

/-- Reads the value of a setting from its members, if it is there. -/
def decodeMember (position : Position) :
    Json.Members → Except DecodeError (Option SettingValue)
  | [] => .ok none
  | (key, json) :: members =>
    if key = "value" then some <$> decode position json else decodeMember position members

/-- Reads the value of a setting from the element at its place, if it is there. -/
def decodeElement (position : Position) :
    Nat → List Json → Except DecodeError (Option SettingValue)
  | _, [] => .ok none
  | 0, json :: _ => some <$> decode position json
  | place + 1, _ :: elements => decodeElement position place elements

def decodeEntries (position : Position) :
    List Json → Except DecodeError (List (String × SettingValue))
  | [] => .ok []
  | .arr elements :: items => do
    let entry ← decodeEntry position elements
    let entries ← decodeEntries position items
    return entry :: entries
  | json :: _ => .error (.wrongShape json.shape .pair)

/-- Reads one entry of a map: a key, a value, and nothing more. -/
def decodeEntry (position : Position) :
    List Json → Except DecodeError (String × SettingValue)
  | [] => .error (.tooFew 0 .pair)
  | [key] => do
    let _ ← key.readString
    .error (.tooFew 1 .pair)
  | key :: value :: rest => do
    let key ← key.readString
    let value ← decode position value
    Json.endArray position (2 + rest.length) 2 (key, value)

def decodeEach (position : Position) : List Json → Except DecodeError (List SettingValue)
  | [] => .ok []
  | json :: items => do
    let value ← decode position json
    let values ← decodeEach position items
    return value :: values

end

theorem decodeMember_eq (position : Position) (members : Json.Members) :
    decodeMember position members = Json.readMember members "value" (decode position) := by
  induction members with
  | nil => rfl
  | cons entry members ih =>
    obtain ⟨key, json⟩ := entry
    by_cases h : key = "value"
    · simp [decodeMember, Json.readMember, Json.member?, h]
    · simp [decodeMember, Json.readMember, Json.member?, h, ih]

theorem decodeElement_eq (position : Position) (elements : List Json) :
    decodeElement position 1 elements =
      Json.readMember (RawSetting.record.named elements) "value" (decode position) := by
  rcases elements with _ | ⟨name, _ | ⟨json, elements⟩⟩
  · rfl
  · rfl
  · rfl

theorem decodeEach_eq_mapM (position : Position) (items : List Json) :
    decodeEach position items = items.mapM (decode position) := by
  induction items with
  | nil => rfl
  | cons json items ih => simp [decodeEach, ih]

end SettingValue

namespace RawSetting

def decodeMembers (position : Position) (members : Json.Members) :
    Except DecodeError RawSetting :=
  ofMembers members (Json.readMember members "value" (SettingValue.decode position))

def decodeElements (position : Position) (members : Json.Members) :
    Except DecodeError RawSetting :=
  ofElements members (Json.readMember members "value" (SettingValue.decode position))

end RawSetting

namespace Setting

def decode (position : Position) (json : Json) : Except DecodeError Setting := do
  let raw ← RawSetting.record.read position (RawSetting.decodeMembers position)
    (RawSetting.decodeElements position) json
  raw.build

/-- The content of a value that nests a setting is the setting. -/
theorem decodeAs_nested (position : Position) (json : Json) :
    SettingValue.decodeAs position .nested json = toValue <$> decode position json := by
  cases json with
  | obj members =>
    rw [SettingValue.decodeAs, SettingValue.decodeMember_eq, decode, Json.Record.read,
      RawSetting.decodeMembers, map_bind]
  | arr elements =>
    rw [SettingValue.decodeAs, SettingValue.decodeElement_eq, decode, Json.Record.read,
      RawSetting.decodeElements, bind_assoc, map_bind]
    simp only [map_bind]
  | _ => rfl

/-- Reads the options of a declaration; without the member there are none. -/
def decodeList (position : Position) (members : Json.Members) :
    Except DecodeError (List Setting) :=
  Json.readItems members "options" (decode position)

def listMember (settings : List Setting) : Json.Members :=
  Json.listMember "options" (settings.map encode)

end Setting

end WireSchema
