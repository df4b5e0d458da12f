/-
  WireSchema/Codec/TypeDecl.lean
  ==============================
  **Types as JSON.**  A type is the object of its enum or message with one more
  member in front, which says which of the two it is.  That member is read
  before all others.  A type may also be read from an array: its first element
  is the kind, and the others are the elements of the enum or message.
-/
import WireSchema.Codec.Member
import WireSchema.TypeDecl

namespace WireSchema

open Json (Record Members readMember readText readItems readList require textMember listMember)

/-! ### The two kinds of types -/

/-- Whether a type is an enum or a message. -/
inductive TypeKind
  | enum
  | message
  deriving DecidableEq, Repr

namespace TypeKind

def word : TypeKind → String
  | .enum => "Enum"
  | .message => "Message"

def choices : List (String × TypeKind) :=
  [.enum, .message].map fun kind : TypeKind => (kind.word, kind)

def read (position : Position) : Json → Except DecodeError TypeKind :=
  Json.readKind position choices

@[simp] theorem read_word (position : Position) (kind : TypeKind) :
    read position (.str kind.word) = .ok kind := by
  cases kind <;> rfl

def decode (position : Position) (members : Members) : Except DecodeError TypeKind := do
  let kind ← readMember members "type" (read position)
  require "type" kind

end TypeKind

/-! ### Writing -/

def Message.record : Record where
  title := "MessageType"
  keys := ["name", "qualified_name", "documentation", "options", "fields", "one_ofs", "extensions",
    "nested_types"]

/-- The members of a message, given its nested types as JSON. -/
def MessageCore.encodeMembers (core : MessageCore) (nested : List Json) : Members :=
  [("name", core.name.encode)] ++ textMember "qualified_name" core.qualifiedName ++
    textMember "documentation" core.documentation ++ Setting.listMember core.settings ++
    listMember "fields" (core.fields.map Field.encode) ++
    listMember "one_ofs" (core.oneofs.map Oneof.encode) ++
    listMember "extensions" (core.extensionRanges.map ExtensionRange.encode) ++
    listMember "nested_types" nested

namespace TypeDecl

mutual

def encode : TypeDecl → Json
  | .enum decl => .obj (("type", .str TypeKind.enum.word) :: decl.encodeMembers)
  | .message core nested =>
    .obj (("type", .str TypeKind.message.word) :: core.encodeMembers (encodeEach nested))

def encodeEach : List TypeDecl → List Json
  | [] => []
  | t :: ts => encode t :: encodeEach ts

end

theorem encodeEach_eq_map (ts : List TypeDecl) : encodeEach ts = ts.map encode := by
  induction ts with
  | nil => rfl
  | cons t ts ih => simp [encodeEach, ih]

end TypeDecl

def Message.encode (message : Message) : Json :=
  .obj (message.toMessageCore.encodeMembers (message.nested.map TypeDecl.encode))

/-! ### Reading -/

/-- Builds a message from its members, given what reading its nested types
    gave. -/
def Message.ofMembers (position : Position) (members : Members)
    (nested : Except DecodeError (List TypeDecl)) : Except DecodeError Message := do
  let documentation ← readText members "documentation"
  let extensionRanges ← readItems members "extensions" (ExtensionRange.decodeAt position)
  let fields ← readItems members "fields" (Field.decode position)
  let name ← readMember members "name" Name.decode
  let nested ← nested
  let oneofs ← readItems members "one_ofs" (Oneof.decode position)
  let settings ← Setting.decodeList position members
  let qualifiedName ← readText members "qualified_name"
  let name ← require "name" name
  return { name, qualifiedName, documentation, settings, fields, oneofs, extensionRanges, nested }

/-- Builds a message from its elements, given what reading its nested types
    gave. -/
def Message.ofElements (position : Position) (members : Members)
    (nested : Except DecodeError (List TypeDecl)) : Except DecodeError Message := do
  let name ← readMember members "name" Name.decode
  let name ← record.require "name" name
  let qualifiedName ← readText members "qualified_name"
  let documentation ← readText members "documentation"
  let settings ← Setting.decodeList position members
  let fields ← readItems members "fields" (Field.decode position)
  let oneofs ← readItems members "one_ofs" (Oneof.decode position)
  let extensionRanges ← readItems members "extensions" (ExtensionRange.decodeAt position)
  let nested ← nested
  return { name, qualifiedName, documentation, settings, fields, oneofs, extensionRanges, nested }

namespace TypeDecl

mutual

def decode (position : Position) : Json → Except DecodeError TypeDecl
  | .obj members => do
    match ← TypeKind.decode position members with
    | .enum => .enum <$> EnumDecl.decodeMembers .insideType members
    | .message =>
      Message.toType <$> Message.ofMembers .insideType members (decodeNested .insideType members)
  | .arr [] => .error (.missing "type")
  | .arr (kind :: elements) => do
    match ← TypeKind.read position kind with
    | .enum => .enum <$> EnumDecl.decode .insideType (.arr elements)
    | .message => do
      let message ← Message.ofElements .insideType (Message.record.named elements)
        (decodeNestedAt .insideType 7 elements)
      Message.toType <$>
        Json.endArray .insideType elements.length Message.record.keys.length message
  | json => .error (.wrongShape json.shape .typeDecl)

/-- Reads the nested types of a message from its members; without the member
    there are none. -/
def decodeNested (position : Position) : Members → Except DecodeError (List TypeDecl)
  | [] => .ok []
  | (key, json) :: members =>
    if key = "nested_types" then decodeList position json
    else decodeNested position members

/-- Reads the nested types of a message from the element at their place; without
    the element there are none. -/
def decodeNestedAt (position : Position) : Nat → List Json → Except DecodeError (List TypeDecl)
  | _, [] => .ok []
  | 0, json :: _ => decodeList position json
  | place + 1, _ :: elements => decodeNestedAt position place elements

def decodeList (position : Position) : Json → Except DecodeError (List TypeDecl)
  | .arr items => decodeEach position items
  | json => .error (.wrongShape json.shape .sequence)

def decodeEach (position : Position) : List Json → Except DecodeError (List TypeDecl)
  | [] => .ok []
  | json :: items => do
    let t ← decode position json
    let ts ← decodeEach position items
    return t :: ts

end

theorem decodeEach_eq_mapM (position : Position) (items : List Json) :
    decodeEach position items = items.mapM (decode position) := by
  induction items with
  | nil => rfl
  | cons json items ih => simp [decodeEach, ih]

theorem decodeList_eq (position : Position) (json : Json) :
    decodeList position json = readList (decode position) json := by
  cases json <;> simp [decodeList, readList, decodeEach_eq_mapM]

theorem decodeNested_eq (position : Position) (members : Members) :
    decodeNested position members =
      readItems members "nested_types" (decode position) := by
  induction members with
  | nil => rfl
  | cons entry members ih =>
    obtain ⟨key, json⟩ := entry
    by_cases h : key = "nested_types"
    · simp [decodeNested, readItems, Json.member?, h, decodeList_eq]
    · simp [decodeNested, readItems, Json.member?, h, ih]

theorem decodeNestedAt_eq (position : Position) (elements : List Json) :
    decodeNestedAt position 7 elements =
      readItems (Message.record.named elements) "nested_types" (decode position) := by
  have hplace : ∀ (place : Nat) (elements : List Json), decodeNestedAt position place elements =
      elements[place]?.elim (.ok []) (readList (decode position)) := by
    intro place elements
    induction elements generalizing place with
    | nil => cases place <;> rfl
    | cons json elements ih =>
      cases place with
      | zero => exact decodeList_eq position json
      | succ place => exact ih place
  have hkey : Message.record.keys[7]? = some "nested_types" := rfl
  unfold readItems
  rw [hplace, Record.member?_named (by decide) hkey]
  cases elements[7]? <;> rfl

end TypeDecl

namespace Message

def decodeMembers (position : Position) (members : Members) : Except DecodeError Message :=
  ofMembers position members (readItems members "nested_types" (TypeDecl.decode position))

def decodeElements (position : Position) (members : Members) : Except DecodeError Message :=
  ofElements position members (readItems members "nested_types" (TypeDecl.decode position))

/-- Reads a message where it stands. -/
def decodeAt (position : Position) : Json → Except DecodeError Message :=
  record.read position (decodeMembers position) (decodeElements position)

/-- Reads a message by itself. -/
def decode : Json → Except DecodeError Message := decodeAt .outside

end Message

namespace TypeDecl

/-- An object that is a type is the object of its enum or message. -/
theorem decode_obj (position : Position) (members : Members) :
    decode position (.obj members) = (do
      match ← TypeKind.decode position members with
      | .enum => .enum <$> EnumDecl.decode .insideType (.obj members)
      | .message => Message.toType <$> Message.decodeAt .insideType (.obj members)) := by
  rw [decode, decodeNested_eq]
  rfl

/-- An array that is a type is a kind and the array of its enum or message. -/
theorem decode_arr (position : Position) (kind : Json) (elements : List Json) :
    decode position (.arr (kind :: elements)) = (do
      match ← TypeKind.read position kind with
      | .enum => .enum <$> EnumDecl.decode .insideType (.arr elements)
      | .message => Message.toType <$> Message.decodeAt .insideType (.arr elements)) := by
  rw [decode, decodeNestedAt_eq]
  congr 1
  funext kind
  cases kind with
  | enum => rfl
  | message =>
    simp only [Message.decodeAt, Record.read, Message.decodeElements, map_bind]

end TypeDecl

end WireSchema
