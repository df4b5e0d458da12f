/-
  WireSchema/Proofs/Padding.lean
  ==============================
  **What reading passes over.**  A JSON tree may hold more than is read from it: members
  whose keys mean nothing where they stand, and members that say what their absence would
  say as well.  Taking such members in, at any depth, changes nothing.

    * `Form` names what a tree can be read as, and `Form.read` reads it;
    * `Form.known` is the table of the parts that the reader of an object or of an array
      knows, in their order, each with the form of its value and its default, if it has one;
    * `Padded` relates a tree to the same tree with such members added.

  A reader looks at an object only through the parts of its table.  `Alike` says that two
  objects look the same in this way, and each reader gives the same result for both of them
  (`Tabled`).  To an array nothing can be added, but there may be objects in it; and since it
  is read as the object of its elements, two arrays that differ in an object with members
  added look the same as well.  The rest follows by induction over what was added.
-/
import WireSchema.Proofs.Agreement

namespace WireSchema

open Json (Record Members member? readMember readText readFlag readItems readNullable readList
  require)

/-! ### What a tree is read as -/

/-- What a JSON tree is read as.  A plain tree, which is a text, a number, a flag or a word,
    is read as a whole.  An entry of a map is an array of a key and a value, and a list is an
    array of trees of one form. -/
inductive Form
  | plain
  | value (position : Position)
  | entry (position : Position)
  | setting (position : Position)
  | enumValue (position : Position)
  | enumDecl (position : Position)
  | field (position : Position)
  | oneof (position : Position)
  | extensionRange (position : Position)
  | extendBlock
  | message (position : Position)
  | typeDecl (position : Position)
  | rpc
  | service
  | file
  | list (item : Form)

/-- Reads an entry of a map. -/
def SettingValue.readEntry (position : Position) :
    Json → Except DecodeError (String × SettingValue)
  | .arr elements => decodeEntry position elements
  | json => .error (.wrongShape json.shape .pair)

namespace Form

/-- What reading a tree of the form gives. -/
abbrev Result : Form → Type
  | .plain => Json
  | .value _ => SettingValue
  | .entry _ => String × SettingValue
  | .setting _ => Setting
  | .enumValue _ => EnumValue
  | .enumDecl _ => EnumDecl
  | .field _ => Field
  | .oneof _ => Oneof
  | .extensionRange _ => ExtensionRange
  | .extendBlock => ExtendBlock
  | .message _ => Message
  | .typeDecl _ => TypeDecl
  | .rpc => Rpc
  | .service => Service
  | .file => SchemaFile
  | .list item => List item.Result

def read : (form : Form) → Json → Except DecodeError form.Result
  | .plain => .ok
  | .value position => SettingValue.decode position
  | .entry position => SettingValue.readEntry position
  | .setting position => Setting.decode position
  | .enumValue position => EnumValue.decode position
  | .enumDecl position => EnumDecl.decode position
  | .field position => Field.decode position
  | .oneof position => Oneof.decode position
  | .extensionRange position => ExtensionRange.decodeAt position
  | .extendBlock => ExtendBlock.decode
  | .message position => Message.decodeAt position
  | .typeDecl position => TypeDecl.decode position
  | .rpc => Rpc.decode
  | .service => Service.decode
  | .file => SchemaFile.decode
  | .list item => readList item.read

/-- What the content of an option value is read as. -/
def content (position : Position) : SettingKind → Form
  | .nested => .setting position
  | .map => .list (.entry position)
  | .list => .list (.value position)
  | _ => .plain

end Form

/-! ### The parts that a reader knows -/

/-- A part that a reader knows: a member of an object, or the element at its place in an
    array.  One without a default is required. -/
structure Known where
  key : String
  form : Form
  default? : Option Json

namespace Known

def required (key : String) (form : Form) : Known := ⟨key, form, none⟩

def text (key : String) : Known := ⟨key, .plain, some (.str "")⟩

def flag (key : String) : Known := ⟨key, .plain, some (.bool false)⟩

def nullable (key : String) : Known := ⟨key, .plain, some .null⟩

/-- A list of texts: there are no members to look for in it. -/
def strings (key : String) : Known := ⟨key, .plain, some (.arr [])⟩

def items (key : String) (item : Form) : Known := ⟨key, .list item, some (.arr [])⟩

def options (position : Position) : Known := items "options" (.setting position)

/-- The part of a key in a table. -/
def find? (table : List Known) (key : String) : Option Known :=
  table.find? fun known => known.key == key

end Known

open Known (required text flag nullable strings items options)

def Setting.known (position : Position) : List Known :=
  [required "name" .plain, required "value" (.value position), flag "parenthesized"]

def EnumValue.known (position : Position) : List Known :=
  [required "name" .plain, required "tag" .plain, text "documentation", options position]

def EnumDecl.known (position : Position) : List Known :=
  [required "name" .plain, text "qualified_name", text "documentation", options position,
    items "values" (.enumValue position)]

def Field.known (position : Position) : List Known :=
  [required "label" .plain, required "type_name" .plain, required "name" .plain,
    required "tag" .plain, text "documentation", options position]

def Oneof.known (position : Position) : List Known :=
  [required "name" .plain, text "documentation", items "fields" (.field position)]

def ExtensionRange.known : List Known :=
  [text "documentation", required "start" .plain, required "end" .plain]

def ExtendBlock.known : List Known :=
  [required "name" .plain, text "qualified_name", text "documentation",
    items "fields" (.field .outside)]

def Message.known (position : Position) : List Known :=
  [required "name" .plain, text "qualified_name", text "documentation", options position,
    items "fields" (.field position), items "one_ofs" (.oneof position),
    items "extensions" (.extensionRange position), items "nested_types" (.typeDecl position)]

def Rpc.known : List Known :=
  [required "name" .plain, text "documentation", required "request_type" .plain,
    required "response_type" .plain, flag "client_streaming", flag "server_streaming",
    options .outside]

def Service.known : List Known :=
  [required "name" .plain, text "qualified_name", text "documentation", options .outside,
    items "rpcs" .rpc]

def SchemaFile.known : List Known :=
  [text "file_name", nullable "package_name", nullable "syntax", strings "dependencies",
    strings "public_dependencies", items "types" (.typeDecl .outside), items "services" .service,
    items "extend_declarations" .extendBlock, options .outside]

/-- What the content of an option value is read as, given what reading its kind gave. -/
def SettingValue.contentForm (position : Position) : Except DecodeError SettingKind → Form
  | .ok kind => .content position kind
  | .error _ => .plain

/-- The parts of an option value: its kind says what its content is read as. -/
def SettingValue.known (position : Position) (kind : Except DecodeError SettingKind) :
    List Known :=
  [required "kind" .plain, required "value" (contentForm position kind)]

/-- The parts of the enum or message that a type is, given what reading its kind gave. -/
def TypeDecl.knownInside : Except DecodeError TypeKind → List Known
  | .ok .enum => EnumDecl.known .insideType
  | .ok .message => Message.known .insideType
  | .error _ => []

/-- The parts of a type: its kind, and those of the enum or message. -/
def TypeDecl.known (kind : Except DecodeError TypeKind) : List Known :=
  required "type" .plain :: knownInside kind

namespace Form

/-- The table of a declaration that is a record.  An object and an array have the same. -/
def table? : Form → Option (List Known)
  | .setting position => some (Setting.known position)
  | .enumValue position => some (EnumValue.known position)
  | .enumDecl position => some (EnumDecl.known position)
  | .field position => some (Field.known position)
  | .oneof position => some (Oneof.known position)
  | .extensionRange _ => some ExtensionRange.known
  | .extendBlock => some ExtendBlock.known
  | .message position => some (Message.known position)
  | .rpc => some Rpc.known
  | .service => some Service.known
  | .file => some SchemaFile.known
  | _ => none

/-- The table of the parts that the reader of a tree knows.  What the parts of a value or a
    type are depends on its kind, which is a member of an object and the first element of an
    array. -/
def known : Form → Json → Option (List Known)
  | .value position, .obj members =>
    some (SettingValue.known position (SettingKind.decode position members))
  | .value position, .arr (word :: _) =>
    some (SettingValue.known position (word.readKind position SettingKind.choices))
  | .entry position, .arr _ => some [required "key" .plain, required "value" (.value position)]
  | .typeDecl position, .obj members =>
    some (TypeDecl.known (TypeKind.decode position members))
  | .typeDecl position, .arr (word :: _) => some (TypeDecl.known (TypeKind.read position word))
  | form, _ => form.table?

end Form

/-! ### Trees with members added -/

/-- A tree, and the same tree with members added that are passed over.  A member is added to
    an object that is read by its members: one whose key is not known (`unknown`), or one that
    was left out, with its default (`default`).  Such an object may stand under a member that
    is known (`member`), at the place of an element that is known (`element`), or in a list
    (`item`), at any depth. -/
inductive Padded : Form → Json → Json → Prop
  | refl (form : Form) (json : Json) : Padded form json json
  | trans {form : Form} {first second third : Json} (h : Padded form first second)
      (h' : Padded form second third) : Padded form first third
  | unknown {form : Form} {table : List Known} (before after : Members) (key : String)
      (value : Json) (htable : form.known (.obj (before ++ after)) = some table)
      (hkey : Known.find? table key = none) :
      Padded form (.obj (before ++ after)) (.obj (before ++ (key, value) :: after))
  | default {form : Form} {table : List Known} {known : Known} (before after : Members)
      (key : String) (value : Json) (htable : form.known (.obj (before ++ after)) = some table)
      (hkey : Known.find? table key = some known) (hdefault : known.default? = some value)
      (habsent : member? key (before ++ after) = none) :
      Padded form (.obj (before ++ after)) (.obj (before ++ (key, value) :: after))
  | member {form : Form} {table : List Known} {known : Known} {json padded : Json}
      (before after : Members) (key : String)
      (htable : form.known (.obj (before ++ (key, json) :: after)) = some table)
      (hkey : Known.find? table key = some known) (h : Padded known.form json padded) :
      Padded form (.obj (before ++ (key, json) :: after)) (.obj (before ++ (key, padded) :: after))
  | element {form : Form} {table : List Known} {known : Known} {json padded : Json}
      (before after : List Json)
      (htable : form.known (.arr (before ++ json :: after)) = some table)
      (hplace : table[before.length]? = some known) (h : Padded known.form json padded) :
      Padded form (.arr (before ++ json :: after)) (.arr (before ++ padded :: after))
  | item {form : Form} {json padded : Json} (before after : List Json)
      (h : Padded form json padded) :
      Padded (.list form) (.arr (before ++ json :: after)) (.arr (before ++ padded :: after))

/-! ### Objects that look the same -/

/-- What was found under a known key, and what is found there instead: the same, the default
    in place of nothing, or another tree that reads the same. -/
inductive Kept (known : Known) : Option Json → Option Json → Prop
  | same (found : Option Json) : Kept known found found
  | default {value : Json} (h : known.default? = some value) : Kept known none (some value)
  | changed {json padded : Json} (h : known.form.read padded = known.form.read json) :
      Kept known (some json) (some padded)

/-- Two objects look the same to a reader that knows the members of the table. -/
def Alike (table : List Known) (members padded : Members) : Prop :=
  ∀ {key known}, Known.find? table key = some known →
    Kept known (member? key members) (member? key padded)

namespace Alike

variable {table : List Known} {members padded : Members}

/-- A member that is read as a whole is found as it was, or its default is found where there
    was none. -/
theorem found (h : Alike table members padded) {key : String} {default? : Option Json}
    (hkey : Known.find? table key = some ⟨key, .plain, default?⟩) :
    member? key padded = member? key members ∨
      member? key members = none ∧ member? key padded = default? := by
  have hkept := h hkey
  generalize member? key members = found, member? key padded = other at hkept ⊢
  cases hkept with
  | same => exact Or.inl rfl
  | default hdefault => exact Or.inr ⟨rfl, hdefault.symm⟩
  | changed hsame => exact Or.inl (congrArg some (Except.ok.inj hsame))

theorem readPlain {α : Type} (h : Alike table members padded) (key : String)
    (hkey : Known.find? table key = some (required key .plain))
    (read : Json → Except DecodeError α) :
    Json.readMember padded key read = Json.readMember members key read := by
  unfold Json.readMember
  rcases h.found hkey with hsame | ⟨hnone, hdefault⟩
  · rw [hsame]
  · rw [hnone, hdefault]

theorem readText (h : Alike table members padded) (key : String)
    (hkey : Known.find? table key = some (text key)) :
    Json.readText padded key = Json.readText members key := by
  unfold Json.readText
  rcases h.found hkey with hsame | ⟨hnone, hdefault⟩
  · rw [hsame]
  · rw [hnone, hdefault]
    rfl

theorem readFlag (h : Alike table members padded) (key : String)
    (hkey : Known.find? table key = some (flag key)) :
    Json.readFlag padded key = Json.readFlag members key := by
  unfold Json.readFlag
  rcases h.found hkey with hsame | ⟨hnone, hdefault⟩
  · rw [hsame]
  · rw [hnone, hdefault]
    rfl

theorem readNullable {α : Type} (h : Alike table members padded) (key : String)
    (hkey : Known.find? table key = some (nullable key)) (read : Json → Except DecodeError α) :
    Json.readNullable padded key read = Json.readNullable members key read := by
  unfold Json.readNullable
  rcases h.found hkey with hsame | ⟨hnone, hdefault⟩
  · rw [hsame]
  · rw [hnone, hdefault]

theorem readStrings (h : Alike table members padded) (key : String)
    (hkey : Known.find? table key = some (strings key)) :
    Json.readItems padded key Json.readString = Json.readItems members key Json.readString := by
  unfold Json.readItems
  rcases h.found hkey with hsame | ⟨hnone, hdefault⟩
  · rw [hsame]
  · rw [hnone, hdefault]
    rfl

/-- A required member gives the same to a reader for which trees that read the same are the
    same. -/
theorem readMember {α : Type} (h : Alike table members padded) (key : String) (form : Form)
    (hkey : Known.find? table key = some (required key form)) (read : Json → Except DecodeError α)
    (hread : ∀ json other, form.read other = form.read json → read other = read json) :
    Json.readMember padded key read = Json.readMember members key read := by
  have hkept := h hkey
  unfold Json.readMember
  generalize member? key members = found, member? key padded = other at hkept ⊢
  cases hkept with
  | same => rfl
  | default hdefault => exact nomatch hdefault
  | changed hsame => exact congrArg (some <$> ·) (hread _ _ hsame)

theorem readItems (h : Alike table members padded) (key : String) (item : Form)
    (hkey : Known.find? table key = some (items key item)) :
    Json.readItems padded key item.read = Json.readItems members key item.read := by
  have hkept := h hkey
  unfold Json.readItems
  generalize member? key members = found, member? key padded = other at hkept ⊢
  cases hkept with
  | same => rfl
  | default hdefault =>
    obtain rfl := Option.some.inj hdefault
    rfl
  | changed hsame => exact hsame

end Alike

/-! ### Readers of records -/

/-- A reader follows a table if it gives the same for objects that look the same through the
    table, and for arrays that differ in one element which reads the same. -/
structure Follows {α : Type} (table : List Known) (read : Json → Except DecodeError α) : Prop where
  object : ∀ {members padded}, Alike table members padded →
    read (.obj padded) = read (.obj members)
  array : ∀ {known : Known} {json padded : Json} {before : List Json},
    table[before.length]? = some known → known.form.read padded = known.form.read json →
    ∀ after, read (.arr (before ++ padded :: after)) = read (.arr (before ++ json :: after))

/-- What is built from what was read is the same as well. -/
theorem Follows.bind {α β : Type} {table : List Known} {read : Json → Except DecodeError α}
    (h : Follows table read) (build : α → Except DecodeError β) :
    Follows table fun json => read json >>= build where
  object halike := congrArg (· >>= build) (h.object halike)
  array hplace hread after := congrArg (· >>= build) (h.array hplace hread after)

/-- Both readers of a record look at its members through the table only, and the table has
    them in the order of the record. -/
structure Tabled {α : Type} (table : List Known) (record : Record)
    (ofMembers ofElements : Members → Except DecodeError α) : Prop where
  keys : table.map Known.key = record.keys
  distinct : record.keys.Nodup
  alike : ∀ {members padded}, Alike table members padded →
    ofMembers padded = ofMembers members ∧ ofElements padded = ofElements members

namespace Tabled

variable {α : Type} {table : List Known} {record : Record}
  {ofMembers ofElements : Members → Except DecodeError α}

/-- An array that differs in one element, which reads the same, looks the same as the object
    of its elements. -/
theorem alike_named (h : Tabled table record ofMembers ofElements) {known : Known}
    {json padded : Json} {before : List Json} (hplace : table[before.length]? = some known)
    (hread : known.form.read padded = known.form.read json) (after : List Json) :
    Alike table (record.named (before ++ json :: after))
      (record.named (before ++ padded :: after)) := by
  intro key other hkey
  obtain ⟨i, hi⟩ := List.mem_iff_getElem?.mp (List.mem_of_find?_eq_some hkey)
  have hother : other.key = key := by simpa using List.find?_some hkey
  have hrecord : record.keys[i]? = some key := by
    rw [← h.keys, List.getElem?_map, hi, Option.map_some, hother]
  rw [Record.member?_named h.distinct hrecord, Record.member?_named h.distinct hrecord]
  rcases Nat.lt_trichotomy i before.length with hlt | rfl | hgt
  · rw [List.getElem?_append_left hlt, List.getElem?_append_left hlt]
    exact .same _
  · obtain rfl := Option.some.inj (hi.symm.trans hplace)
    rw [List.getElem?_append_right (Nat.le_refl _), List.getElem?_append_right (Nat.le_refl _),
      Nat.sub_self, List.getElem?_cons_zero, List.getElem?_cons_zero]
    exact .changed hread
  · have hlater (first : Json) :
        (before ++ first :: after)[i]? = after[i - before.length - 1]? := by
      rw [List.getElem?_append_right (Nat.le_of_lt hgt), List.getElem?_cons,
        if_neg (Nat.sub_ne_zero_of_lt hgt)]
    rw [hlater, hlater]
    exact .same _

theorem follows (h : Tabled table record ofMembers ofElements) (position : Position) :
    Follows table (record.read position ofMembers ofElements) where
  object halike := (h.alike halike).1
  array {known json padded before} hplace hread after := by
    have hlength : (before ++ padded :: after).length = (before ++ json :: after).length := by simp
    rw [Record.read, Record.read, (h.alike (h.alike_named hplace hread after)).2, hlength]

end Tabled

/-! ### Each reader gives the same -/

namespace SettingValue

theorem decodeEntries_eq_mapM (position : Position) (items : List Json) :
    decodeEntries position items = items.mapM (readEntry position) := by
  induction items with
  | nil => rfl
  | cons json items ih =>
    cases json with
    | arr elements => simp [decodeEntries, readEntry, ih]
    | _ => rfl

theorem decodeContent_eq (position : Position) (kind : SettingKind) (members : Members) :
    decodeContent position kind members =
      readMember members "value" (decodeAs position kind) >>= require "value" := by
  induction members with
  | nil => rfl
  | cons entry members ih =>
    obtain ⟨key, json⟩ := entry
    by_cases hkey : key = "value"
    · simp only [decodeContent, readMember, member?, if_pos hkey]
      cases decodeAs position kind json <;> rfl
    · rw [decodeContent, if_neg hkey, ih, readMember, readMember, member?, if_neg hkey]

/-- The content of an option value gives the same value if it reads the same. -/
theorem decodeAs_congr {position : Position} {kind : SettingKind} {json other : Json}
    (h : (Form.content position kind).read other = (Form.content position kind).read json) :
    decodeAs position kind other = decodeAs position kind json := by
  have hmap : ∀ json, decodeAs position .map json =
      SettingValue.map <$> readList (readEntry position) json := by
    intro json
    cases json with
    | arr items => rw [decodeAs, decodeEntries_eq_mapM]; rfl
    | _ => rfl
  have hlist : ∀ json, decodeAs position .list json =
      SettingValue.list <$> readList (decode position) json := by
    intro json
    cases json with
    | arr items => rw [decodeAs, decodeEach_eq_mapM]; rfl
    | _ => rfl
  cases kind with
  | nested =>
    rw [Setting.decodeAs_nested, Setting.decodeAs_nested]
    exact congrArg (Setting.toValue <$> ·) h
  | map =>
    rw [hmap, hmap]
    exact congrArg (SettingValue.map <$> ·) h
  | list =>
    rw [hlist, hlist]
    exact congrArg (SettingValue.list <$> ·) h
  | _ => rw [Except.ok.inj h]

theorem decode_alike {position : Position} {members padded : Members}
    (h : Alike (known position (SettingKind.decode position members)) members padded) :
    decode position (.obj padded) = decode position (.obj members) := by
  have hkind : SettingKind.decode position padded = SettingKind.decode position members := by
    rw [SettingKind.decode, SettingKind.decode, h.readPlain "kind" rfl]
  rw [decode, decode, hkind]
  cases hread : SettingKind.decode position members with
  | error error => rfl
  | ok kind =>
    rw [hread] at h
    have hvalue := h.readMember "value" (.content position kind) rfl (decodeAs position kind)
      fun _ _ => decodeAs_congr
    simp only [decodeContent_eq, bind, Except.bind, hvalue]

theorem decodePair_congr {position : Position} {json padded : Json} (word : Json)
    (h : (contentForm position (word.readKind position SettingKind.choices)).read padded =
      (contentForm position (word.readKind position SettingKind.choices)).read json)
    (rest : List Json) :
    decodePair position (word :: padded :: rest) = decodePair position (word :: json :: rest) := by
  rw [decodePair, decodePair]
  cases hkind : word.readKind position SettingKind.choices with
  | error error => rfl
  | ok kind =>
    rw [hkind] at h
    simp only [bind, Except.bind, decodeAs_congr h]

theorem decodeEntry_congr {position : Position} {json padded : Json} (key : Json)
    (h : decode position padded = decode position json) (rest : List Json) :
    decodeEntry position (key :: padded :: rest) = decodeEntry position (key :: json :: rest) := by
  simp only [decodeEntry, h]

end SettingValue

theorem Setting.decodeList_alike {table : List Known} {members padded : Members}
    (h : Alike table members padded) (position : Position)
    (hkey : Known.find? table "options" = some (options position)) :
    decodeList position padded = decodeList position members :=
  h.readItems "options" (.setting position) hkey

/-- Where a declaration has fields, they are read in the same way. -/
theorem Field.readItems_alike {table : List Known} {members padded : Members}
    (h : Alike table members padded) (position : Position)
    (hkey : Known.find? table "fields" = some (items "fields" (.field position))) :
    readItems padded "fields" (Field.decode position) =
      readItems members "fields" (Field.decode position) :=
  h.readItems "fields" (.field position) hkey

theorem RawSetting.tabled (position : Position) :
    Tabled (Setting.known position) record (decodeMembers position) (decodeElements position) where
  keys := rfl
  distinct := by decide
  alike h := by
    have hname := h.readPlain "name" rfl Json.readString
    have hcustom := h.readFlag "parenthesized" rfl
    have hvalue := h.readMember "value" (.value position) rfl (SettingValue.decode position)
      fun _ _ hsame => hsame
    simp only [decodeMembers, ofMembers, decodeElements, ofElements, hname, hcustom, hvalue,
      and_self]

/-! Enums, fields and extensions. -/

theorem EnumValue.tabled (position : Position) :
    Tabled (known position) record (decodeMembers position) (decodeElements position) where
  keys := rfl
  distinct := by decide
  alike h := by
    have hname := h.readPlain "name" rfl Name.decode
    have htag := h.readPlain "tag" rfl Json.readInt32
    have hdocumentation := h.readText "documentation" rfl
    have hsettings := Setting.decodeList_alike h position rfl
    simp only [decodeMembers, decodeElements, hname, htag, hdocumentation, hsettings, and_self]

theorem EnumDecl.tabled (position : Position) :
    Tabled (known position) record (decodeMembers position) (decodeElements position) where
  keys := rfl
  distinct := by decide
  alike {members padded} h := by
    have hname := h.readPlain "name" rfl Name.decode
    have hqualified := h.readText "qualified_name" rfl
    have hdocumentation := h.readText "documentation" rfl
    have hsettings := Setting.decodeList_alike h position rfl
    have hvalues : readItems padded "values" (EnumValue.decode position) =
        readItems members "values" (EnumValue.decode position) :=
      h.readItems "values" (.enumValue position) rfl
    simp only [decodeMembers, decodeElements, hname, hqualified, hdocumentation, hsettings, hvalues,
      and_self]

theorem EnumDecl.follows (position : Position) : Follows (known position) (decode position) :=
  (EnumDecl.tabled position).follows position

theorem Field.tabled (position : Position) :
    Tabled (known position) record (decodeMembers position) (decodeElements position) where
  keys := rfl
  distinct := by decide
  alike h := by
    have hlabel := h.readPlain "label" rfl (Label.decodeAt position)
    have htype := h.readPlain "type_name" rfl TypeRef.decode
    have hname := h.readPlain "name" rfl Name.decode
    have htag := h.readPlain "tag" rfl Json.readInt32
    have hdocumentation := h.readText "documentation" rfl
    have hsettings := Setting.decodeList_alike h position rfl
    simp only [decodeMembers, decodeElements, hlabel, htype, hname, htag, hdocumentation, hsettings,
      and_self]

theorem Oneof.tabled (position : Position) :
    Tabled (known position) record (decodeMembers position) (decodeElements position) where
  keys := rfl
  distinct := by decide
  alike h := by
    have hname := h.readPlain "name" rfl Name.decode
    have hdocumentation := h.readText "documentation" rfl
    have hfields := Field.readItems_alike h position rfl
    simp only [decodeMembers, decodeElements, hname, hdocumentation, hfields, and_self]

theorem RawRange.tabled :
    Tabled ExtensionRange.known record decodeMembers decodeElements where
  keys := rfl
  distinct := by decide
  alike h := by
    have hdocumentation := h.readText "documentation" rfl
    have hfirst := h.readPlain "start" rfl Json.readInt32
    have hlast := h.readPlain "end" rfl Json.readInt32
    simp only [decodeMembers, decodeElements, hdocumentation, hfirst, hlast, and_self]

theorem ExtendBlock.tabled : Tabled known record decodeMembers decodeElements where
  keys := rfl
  distinct := by decide
  alike h := by
    have hname := h.readPlain "name" rfl Name.decode
    have hqualified := h.readText "qualified_name" rfl
    have hdocumentation := h.readText "documentation" rfl
    have hfields := Field.readItems_alike h .outside rfl
    simp only [decodeMembers, decodeElements, hname, hqualified, hdocumentation, hfields, and_self]

/-! Types. -/

theorem Message.tabled (position : Position) :
    Tabled (known position) record (decodeMembers position) (decodeElements position) where
  keys := rfl
  distinct := by decide
  alike {members padded} h := by
    have hname := h.readPlain "name" rfl Name.decode
    have hqualified := h.readText "qualified_name" rfl
    have hdocumentation := h.readText "documentation" rfl
    have hsettings := Setting.decodeList_alike h position rfl
    have hfields := Field.readItems_alike h position rfl
    have honeofs : readItems padded "one_ofs" (Oneof.decode position) =
        readItems members "one_ofs" (Oneof.decode position) :=
      h.readItems "one_ofs" (.oneof position) rfl
    have hranges : readItems padded "extensions" (ExtensionRange.decodeAt position) =
        readItems members "extensions" (ExtensionRange.decodeAt position) :=
      h.readItems "extensions" (.extensionRange position) rfl
    have hnested : readItems padded "nested_types" (TypeDecl.decode position) =
        readItems members "nested_types" (TypeDecl.decode position) :=
      h.readItems "nested_types" (.typeDecl position) rfl
    simp only [decodeMembers, ofMembers, decodeElements, ofElements, hname, hqualified,
      hdocumentation, hsettings, hfields, honeofs, hranges, hnested, and_self]

theorem Message.follows (position : Position) : Follows (known position) (decodeAt position) :=
  (Message.tabled position).follows position

/-- What looks the same to a reader that knows one more key looks the same to one that does
    not know it. -/
theorem Alike.tail {first : Known} {table : List Known} {members padded : Members}
    (h : Alike (first :: table) members padded) (hfirst : Known.find? table first.key = none) :
    Alike table members padded := by
  intro key known hkey
  by_cases hsame : first.key = key
  · subst hsame
    exact nomatch hfirst.symm.trans hkey
  · refine h ?_
    rw [Known.find?, List.find?_cons_of_neg (by simpa using hsame)]
    exact hkey

theorem TypeDecl.decode_alike {position : Position} {members padded : Members}
    (h : Alike (known (TypeKind.decode position members)) members padded) :
    decode position (.obj padded) = decode position (.obj members) := by
  have hkind : TypeKind.decode position padded = TypeKind.decode position members := by
    rw [TypeKind.decode, TypeKind.decode, h.readPlain "type" rfl]
  rw [decode_obj, decode_obj, hkind]
  cases hread : TypeKind.decode position members with
  | error error => rfl
  | ok kind =>
    rw [hread] at h
    cases kind with
    | enum =>
      exact congrArg (TypeDecl.enum <$> ·) ((EnumDecl.follows .insideType).object (h.tail rfl))
    | message =>
      exact congrArg (Message.toType <$> ·) ((Message.follows .insideType).object (h.tail rfl))

/-! Services and files. -/

theorem Rpc.tabled : Tabled known record decodeMembers decodeElements where
  keys := rfl
  distinct := by decide
  alike h := by
    have hname := h.readPlain "name" rfl Name.decode
    have hdocumentation := h.readText "documentation" rfl
    have hrequest := h.readPlain "request_type" rfl TypeRef.decode
    have hresponse := h.readPlain "response_type" rfl TypeRef.decode
    have hclient := h.readFlag "client_streaming" rfl
    have hserver := h.readFlag "server_streaming" rfl
    have hsettings := Setting.decodeList_alike h .outside rfl
    simp only [decodeMembers, decodeElements, hname, hdocumentation, hrequest, hresponse, hclient,
      hserver, hsettings, and_self]

theorem Service.tabled : Tabled known record decodeMembers decodeElements where
  keys := rfl
  distinct := by decide
  alike {members padded} h := by
    have hname := h.readPlain "name" rfl Name.decode
    have hqualified := h.readText "qualified_name" rfl
    have hdocumentation := h.readText "documentation" rfl
    have hsettings := Setting.decodeList_alike h .outside rfl
    have hrpcs : readItems padded "rpcs" Rpc.decode = readItems members "rpcs" Rpc.decode :=
      h.readItems "rpcs" .rpc rfl
    simp only [decodeMembers, decodeElements, hname, hqualified, hdocumentation, hsettings, hrpcs,
      and_self]

theorem SchemaFile.tabled : Tabled known record decodeMembers decodeElements where
  keys := rfl
  distinct := by decide
  alike {members padded} h := by
    have hpath := h.readText "file_name" rfl
    have hpackage := h.readNullable "package_name" rfl Name.decode
    have hdialect := h.readNullable "syntax" rfl Dialect.decode
    have himports := h.readStrings "dependencies" rfl
    have hpublic := h.readStrings "public_dependencies" rfl
    have htypes : readItems padded "types" (TypeDecl.decode .outside) =
        readItems members "types" (TypeDecl.decode .outside) :=
      h.readItems "types" (.typeDecl .outside) rfl
    have hservices : readItems padded "services" Service.decode =
        readItems members "services" Service.decode :=
      h.readItems "services" .service rfl
    have hextends : readItems padded "extend_declarations" ExtendBlock.decode =
        readItems members "extend_declarations" ExtendBlock.decode :=
      h.readItems "extend_declarations" .extendBlock rfl
    have hsettings := Setting.decodeList_alike h .outside rfl
    simp only [decodeMembers, decodeElements, hpath, hpackage, hdialect, himports, hpublic, htypes,
      hservices, hextends, hsettings, and_self]

/-! ### The reader of each form -/

namespace Form

variable {known : Known} {table : List Known} {json padded : Json} {before : List Json}
  {position : Position}

/-- An option value that is an array has its kind in front, which is read as a whole, and
    then its content. -/
theorem read_element_value (after : List Json)
    (htable : (Form.value position).known (.arr (before ++ json :: after)) = some table)
    (hplace : table[before.length]? = some known)
    (hread : known.form.read padded = known.form.read json) :
    (Form.value position).read (.arr (before ++ padded :: after)) =
      (Form.value position).read (.arr (before ++ json :: after)) := by
  match before with
  | [] =>
    cases htable
    cases hplace
    rw [Except.ok.inj hread]
  | [word] =>
    cases htable
    cases hplace
    exact SettingValue.decodePair_congr word hread after
  | _ :: _ :: _ =>
    cases htable
    exact nomatch hplace

/-- An entry of a map is a key, which is read as a whole, and a value. -/
theorem read_element_entry (after : List Json)
    (htable : (Form.entry position).known (.arr (before ++ json :: after)) = some table)
    (hplace : table[before.length]? = some known)
    (hread : known.form.read padded = known.form.read json) :
    (Form.entry position).read (.arr (before ++ padded :: after)) =
      (Form.entry position).read (.arr (before ++ json :: after)) := by
  cases htable
  match before with
  | [] =>
    cases hplace
    rw [Except.ok.inj hread]
  | [key] =>
    cases hplace
    exact SettingValue.decodeEntry_congr key hread after
  | _ :: _ :: _ => exact nomatch hplace

/-- A type that is an array has its kind in front, which is read as a whole, and then the
    elements of the enum or message. -/
theorem read_element_typeDecl (after : List Json)
    (htable : (Form.typeDecl position).known (.arr (before ++ json :: after)) = some table)
    (hplace : table[before.length]? = some known)
    (hread : known.form.read padded = known.form.read json) :
    (Form.typeDecl position).read (.arr (before ++ padded :: after)) =
      (Form.typeDecl position).read (.arr (before ++ json :: after)) := by
  match before with
  | [] =>
    cases htable
    cases hplace
    rw [Except.ok.inj hread]
  | word :: before =>
    cases htable
    change TypeDecl.decode position (.arr (word :: (before ++ padded :: after))) =
      TypeDecl.decode position (.arr (word :: (before ++ json :: after)))
    rw [TypeDecl.decode_arr, TypeDecl.decode_arr]
    cases hword : TypeKind.read position word with
    | error error => rfl
    | ok kind =>
      rw [hword] at hplace
      cases kind with
      | enum =>
        exact congrArg (TypeDecl.enum <$> ·)
          ((EnumDecl.follows .insideType).array hplace hread after)
      | message =>
        exact congrArg (Message.toType <$> ·)
          ((Message.follows .insideType).array hplace hread after)

/-- The reader of a declaration follows the table of the declaration. -/
theorem follows {form : Form} (htable : form.table? = some table) : Follows table form.read := by
  cases form <;> cases htable
  case setting position =>
    exact ((RawSetting.tabled position).follows position).bind RawSetting.build
  case enumValue position => exact (EnumValue.tabled position).follows position
  case enumDecl position => exact EnumDecl.follows position
  case field position => exact (Field.tabled position).follows position
  case oneof position => exact (Oneof.tabled position).follows position
  case extensionRange position => exact (RawRange.tabled.follows position).bind RawRange.build
  case extendBlock => exact ExtendBlock.tabled.follows .outside
  case message position => exact Message.follows position
  case rpc => exact Rpc.tabled.follows .outside
  case service => exact Service.tabled.follows .outside
  case file => exact SchemaFile.tabled.follows .outside

/-- **A reader gives the same for objects that look the same to it.** -/
theorem read_alike {form : Form} {members other : Members}
    (htable : form.known (.obj members) = some table) (h : Alike table members other) :
    form.read (.obj other) = form.read (.obj members) := by
  cases form
  case value position =>
    cases htable
    exact SettingValue.decode_alike h
  case typeDecl position =>
    cases htable
    exact TypeDecl.decode_alike h
  all_goals
    refine Follows.object (follows ?_) h
    exact htable

/-- **A reader gives the same for arrays that differ in an element which reads the same.** -/
theorem read_element {form : Form} (after : List Json)
    (htable : form.known (.arr (before ++ json :: after)) = some table)
    (hplace : table[before.length]? = some known)
    (hread : known.form.read padded = known.form.read json) :
    form.read (.arr (before ++ padded :: after)) = form.read (.arr (before ++ json :: after)) := by
  cases form
  case value position => exact read_element_value after htable hplace hread
  case entry position => exact read_element_entry after htable hplace hread
  case typeDecl position => exact read_element_typeDecl after htable hplace hread
  all_goals
    refine Follows.array (follows ?_) hplace hread after
    exact htable

end Form

/-! ### Whatever is added -/

theorem Json.member?_insert_of_ne {key other : String} (h : key ≠ other) (before after : Members)
    (value : Json) :
    member? other (before ++ (key, value) :: after) = member? other (before ++ after) := by
  rw [member?_append, member?_append, member?_cons_of_ne h]

theorem Alike.unknown {table : List Known} {key : String} (hkey : Known.find? table key = none)
    (before after : Members) (value : Json) :
    Alike table (before ++ after) (before ++ (key, value) :: after) := by
  intro other known hother
  have hne : key ≠ other := by
    rintro rfl
    exact nomatch hkey.symm.trans hother
  rw [Json.member?_insert_of_ne hne]
  exact .same _

theorem Alike.default {table : List Known} {key : String} {known : Known} {value : Json}
    (hkey : Known.find? table key = some known) (hdefault : known.default? = some value)
    {before after : Members} (habsent : member? key (before ++ after) = none) :
    Alike table (before ++ after) (before ++ (key, value) :: after) := by
  intro other known' hother
  by_cases hsame : key = other
  · subst hsame
    obtain rfl := Option.some.inj (hkey.symm.trans hother)
    have hboth := habsent
    rw [Json.member?_append, Option.or_eq_none_iff] at hboth
    rw [habsent, Json.member?_append, hboth.1, Json.member?_cons_self]
    exact .default hdefault
  · rw [Json.member?_insert_of_ne hsame]
    exact .same _

theorem Alike.member {table : List Known} {key : String} {known : Known} {json padded : Json}
    (hkey : Known.find? table key = some known)
    (hread : known.form.read padded = known.form.read json) (before after : Members) :
    Alike table (before ++ (key, json) :: after) (before ++ (key, padded) :: after) := by
  intro other known' hother
  by_cases hsame : key = other
  · subst hsame
    obtain rfl := Option.some.inj (hkey.symm.trans hother)
    rw [Json.member?_append, Json.member?_append, Json.member?_cons_self, Json.member?_cons_self]
    cases member? key before with
    | none => exact .changed hread
    | some found => exact .same _
  · rw [Json.member?_insert_of_ne hsame, Json.member?_insert_of_ne hsame]
    exact .same _

/-- **Reading passes over what is not known and what says nothing.**  A tree to which members
    have been added that the reader does not know, or that hold the default of a member that
    was left out, reads as the tree without them: it gives the same declaration, or the same
    error. -/
theorem Form.read_padded {form : Form} {json padded : Json} (h : Padded form json padded) :
    form.read padded = form.read json := by
  induction h with
  | refl form json => rfl
  | trans _ _ ih ih' => exact ih'.trans ih
  | unknown before after key value htable hkey =>
    exact read_alike htable (Alike.unknown hkey before after value)
  | default before after key value htable hkey hdefault habsent =>
    exact read_alike htable (Alike.default hkey hdefault habsent)
  | member before after key htable hkey _ ih =>
    exact read_alike htable (Alike.member hkey ih before after)
  | element before after htable hplace _ ih => exact read_element after htable hplace ih
  | item before after _ ih =>
    simp only [read, readList, List.mapM_append, List.mapM_cons, ih]

namespace SchemaFile

/-- A file with an enum in a message.  The message is an array of its kind and its members, and
    so is the option of the enum.  The value of an entry in that option, the enum and the file
    itself hold the given members too. -/
def depot (ofValue ofEnum ofFile : Members) : Json :=
  .obj (("types", .arr [.arr [.str "Message", .str "Depot", .str "", .str "", .arr [], .arr [],
    .arr [], .arr [], .arr [.obj (("type", .str "Enum") :: ("name", .str "Gate") ::
      ("options", .arr [.arr [.str "sizes",
        .obj [("kind", .str "Map"), ("value", .arr [.arr [.str "width",
          .obj (("kind", .str "Integer") :: ("value", .int 5) :: ofValue)]])]]]) ::
      ofEnum)]]]) :: ofFile)

def bareDepot : Json := depot [] [] []

/-- The same with members that an option value and an enum do not know, without documentation
    and without a dialect. -/
def fullDepot : Json :=
  depot [("unit", .str "mm")] [("fields", .int 0), ("documentation", .str "")] [("syntax", .null)]

theorem read_depot :
    Padded .file bareDepot fullDepot ∧ decode fullDepot = decode bareDepot ∧
      ∃ file, decode bareDepot = .ok file := by
  have hvalue : Padded (.value .insideType) (.obj [("kind", .str "Integer"), ("value", .int 5)])
      (.obj [("kind", .str "Integer"), ("value", .int 5), ("unit", .str "mm")]) :=
    .unknown [("kind", .str "Integer"), ("value", .int 5)] [] "unit" (.str "mm") rfl rfl
  have hsetting : Padded (.setting .insideType) _ _ :=
    .element [.str "sizes"] [] rfl rfl
      (.member [("kind", .str "Map")] [] "value" rfl rfl
        (.item [] [] (.element [.str "width"] [] rfl rfl hvalue)))
  have henum : Padded (.typeDecl .insideType) _ _ :=
    .trans (.member [("type", .str "Enum"), ("name", .str "Gate")] [] "options" rfl rfl
      (.item [] [] hsetting))
    (.trans (.default [("type", .str "Enum"), ("name", .str "Gate"), ("options", .arr _)] []
        "documentation" (.str "") rfl rfl rfl rfl)
      (.unknown [("type", .str "Enum"), ("name", .str "Gate"), ("options", .arr _)]
        [("documentation", .str "")] "fields" (.int 0) rfl rfl))
  have hfile : Padded .file bareDepot fullDepot :=
    .trans (.member [] [] "types" rfl rfl (.item [] []
      (.element [.str "Message", .str "Depot", .str "", .str "", .arr [], .arr [], .arr [],
        .arr []] [] rfl rfl (.item [] [] henum))))
    (.default [("types", .arr _)] [] "syntax" .null rfl rfl rfl rfl)
  exact ⟨hfile, Form.read_padded hfile, _, rfl⟩

end SchemaFile

end WireSchema
