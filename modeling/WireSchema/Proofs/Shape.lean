/-
  WireSchema/Proofs/Shape.lean
  ============================
  **The shape of a JSON tree.**  Each kind of declaration has its shape: the members
  an object must have, those it may have, and what stands under each of them.  Shapes
  speak of types, words and bounds only.  Whether a text may be empty and whether a
  range may be inverted is no matter of shape, and neither are members whose key is
  not known.
-/
import WireSchema.Outline

namespace WireSchema

namespace Json

/-! ### Simple values -/

def IsString (json : Json) : Prop := ∃ text, json = .str text

def IsFlag (json : Json) : Prop := ∃ value, json = .bool value

/-- An integer from `lower` up to, but not including, `upper`. -/
def IsIntIn (lower upper : Int) (json : Json) : Prop :=
  ∃ value, json = .int value ∧ lower ≤ value ∧ value < upper

def IsInt32 : Json → Prop := IsIntIn (-0x80000000) 0x80000000

def IsInt64 : Json → Prop := IsIntIn (-0x8000000000000000) 0x8000000000000000

/-- A word, as a string or as the only key of an object without content. -/
def IsWord (word : String) (json : Json) : Prop := json = .str word ∨ json = .obj [(word, .null)]

def IsListOf (P : Json → Prop) (json : Json) : Prop :=
  ∃ items, json = .arr items ∧ ∀ item ∈ items, P item

def IsObject (P : Members → Prop) (json : Json) : Prop := ∃ members, json = .obj members ∧ P members

def IsNullOr (P : Json → Prop) (json : Json) : Prop := json = .null ∨ P json

/-! ### Members -/

/-- There is a member of the key, and it is as `P` says. -/
def Has (members : Members) (key : String) (P : Json → Prop) : Prop :=
  ∃ json, member? key members = some json ∧ P json

/-- If there is a member of the key, it is as `P` says. -/
def MayHave (members : Members) (key : String) (P : Json → Prop) : Prop :=
  ∀ json, member? key members = some json → P json

theorem MayHave.of_absent {members : Members} {key : String} {P : Json → Prop}
    (h : member? key members = none) : MayHave members key P := by
  intro json hjson
  exact nomatch h.symm.trans hjson

theorem Has.mayHave {members : Members} {key : String} {P : Json → Prop}
    (h : Has members key P) : MayHave members key P := by
  obtain ⟨found, hfound, hP⟩ := h
  intro json hjson
  obtain rfl := Option.some.inj (hfound.symm.trans hjson)
  exact hP

theorem member?_setMember_of_ne {key other : String} (h : other ≠ key) (value : Json)
    (members : Members) : member? key (setMember other value members) = member? key members := by
  induction members with
  | nil => simp [setMember, member?, h]
  | cons entry members ih =>
    obtain ⟨k, v⟩ := entry
    by_cases hk : k = other
    · subst hk
      simp [setMember, member?, h]
    · simp [setMember, hk, member?, ih]

theorem MayHave.setMember {members : Members} {key other : String} {P : Json → Prop}
    (h : MayHave members key P) (hne : other ≠ key) (value : Json) :
    MayHave (setMember other value members) key P := by
  intro json hjson
  rw [member?_setMember_of_ne hne] at hjson
  exact h json hjson

end Json

open Json (Members member? Has MayHave IsString IsFlag IsIntIn IsInt32 IsInt64 IsWord IsListOf
  IsObject IsNullOr)

/-! ### Options -/

mutual

/-- The shape of an option value: an object of its kind and its content. -/
inductive SettingValue.Shaped : Json → Prop
  | tagged {members : Members} (kind : SettingKind) {content : Json}
      (hkind : Has members "kind" (IsWord kind.word))
      (hfound : member? "value" members = some content)
      (hcontent : SettingValue.ShapedAs kind content) : SettingValue.Shaped (.obj members)

/-- The shape of the content of an option value of a kind.  Each entry of a map is an array of
    a key and a value. -/
inductive SettingValue.ShapedAs : SettingKind → Json → Prop
  | string {json : Json} (h : IsString json) : SettingValue.ShapedAs .string json
  | identifier {json : Json} (h : IsString json) : SettingValue.ShapedAs .identifier json
  | integer {json : Json} (h : IsInt64 json) : SettingValue.ShapedAs .integer json
  | float {json : Json} (h : IsString json) : SettingValue.ShapedAs .float json
  | boolean {json : Json} (h : IsFlag json) : SettingValue.ShapedAs .boolean json
  | nested {json : Json} (h : Setting.Shaped json) : SettingValue.ShapedAs .nested json
  | map (entries : List (String × Json)) (h : ∀ entry ∈ entries, SettingValue.Shaped entry.2) :
      SettingValue.ShapedAs .map
        (.arr (entries.map fun entry => .arr [.str entry.1, entry.2]))
  | list {items : List Json} (h : ∀ item ∈ items, SettingValue.Shaped item) :
      SettingValue.ShapedAs .list (.arr items)

inductive Setting.Shaped : Json → Prop
  | record {members : Members} {value : Json} (hname : Has members "name" IsString)
      (hcustom : MayHave members "parenthesized" IsFlag)
      (hfound : member? "value" members = some value)
      (hvalue : SettingValue.Shaped value) : Setting.Shaped (.obj members)

end

/-- Options may stand in every declaration that has them in the same way. -/
abbrev Setting.ShapedList (members : Members) : Prop :=
  MayHave members "options" (IsListOf Setting.Shaped)

/-! ### Enums -/

structure EnumValue.Shape (members : Members) : Prop where
  name : Has members "name" IsString
  tag : Has members "tag" IsInt32
  documentation : MayHave members "documentation" IsString
  settings : Setting.ShapedList members

def EnumValue.Shaped : Json → Prop := IsObject EnumValue.Shape

structure EnumDecl.Shape (members : Members) : Prop where
  name : Has members "name" IsString
  qualifiedName : MayHave members "qualified_name" IsString
  documentation : MayHave members "documentation" IsString
  settings : Setting.ShapedList members
  values : MayHave members "values" (IsListOf EnumValue.Shaped)

def EnumDecl.Shaped : Json → Prop := IsObject EnumDecl.Shape

/-! ### Fields and extensions -/

structure Field.Shape (members : Members) : Prop where
  label : Has members "label" fun json => ∃ label : Label, IsWord label.word json
  typeRef : Has members "type_name" IsString
  name : Has members "name" IsString
  tag : Has members "tag" IsInt32
  documentation : MayHave members "documentation" IsString
  settings : Setting.ShapedList members

def Field.Shaped : Json → Prop := IsObject Field.Shape

structure Oneof.Shape (members : Members) : Prop where
  name : Has members "name" IsString
  documentation : MayHave members "documentation" IsString
  fields : MayHave members "fields" (IsListOf Field.Shaped)

def Oneof.Shaped : Json → Prop := IsObject Oneof.Shape

structure ExtensionRange.Shape (members : Members) : Prop where
  documentation : MayHave members "documentation" IsString
  first : Has members "start" IsInt32
  last : Has members "end" IsInt32

def ExtensionRange.Shaped : Json → Prop := IsObject ExtensionRange.Shape

structure ExtendBlock.Shape (members : Members) : Prop where
  name : Has members "name" IsString
  qualifiedName : MayHave members "qualified_name" IsString
  documentation : MayHave members "documentation" IsString
  fields : MayHave members "fields" (IsListOf Field.Shaped)

def ExtendBlock.Shaped : Json → Prop := IsObject ExtendBlock.Shape

/-! ### Types -/

/-- The shape of all of a message but the types declared inside it. -/
structure MessageCore.Shape (members : Members) : Prop where
  name : Has members "name" IsString
  qualifiedName : MayHave members "qualified_name" IsString
  documentation : MayHave members "documentation" IsString
  settings : Setting.ShapedList members
  fields : MayHave members "fields" (IsListOf Field.Shaped)
  oneofs : MayHave members "one_ofs" (IsListOf Oneof.Shaped)
  extensionRanges : MayHave members "extensions" (IsListOf ExtensionRange.Shaped)

/-- The shape of a type: its kind, and the members of an enum or a message.  The list
    of nested types and the shape of its items are asked for apart, because the items
    are where the shape comes back to itself. -/
inductive TypeDecl.Shaped : Json → Prop
  | enum {members : Members} (hkind : member? "type" members = some (.str TypeKind.enum.word))
      (hdecl : EnumDecl.Shape members) : TypeDecl.Shaped (.obj members)
  | message {members : Members}
      (hkind : member? "type" members = some (.str TypeKind.message.word))
      (hcore : MessageCore.Shape members)
      (hlist : MayHave members "nested_types" (IsListOf fun _ => True))
      (hnested : ∀ items, member? "nested_types" members = some (.arr items) →
        ∀ item ∈ items, TypeDecl.Shaped item) : TypeDecl.Shaped (.obj members)

structure Message.Shape (members : Members) : Prop extends MessageCore.Shape members where
  nested : MayHave members "nested_types" (IsListOf TypeDecl.Shaped)

def Message.Shaped : Json → Prop := IsObject Message.Shape

/-! ### Services and files -/

structure Rpc.Shape (members : Members) : Prop where
  name : Has members "name" IsString
  documentation : MayHave members "documentation" IsString
  requestType : Has members "request_type" IsString
  responseType : Has members "response_type" IsString
  clientStreaming : MayHave members "client_streaming" IsFlag
  serverStreaming : MayHave members "server_streaming" IsFlag
  settings : Setting.ShapedList members

def Rpc.Shaped : Json → Prop := IsObject Rpc.Shape

structure Service.Shape (members : Members) : Prop where
  name : Has members "name" IsString
  qualifiedName : MayHave members "qualified_name" IsString
  documentation : MayHave members "documentation" IsString
  settings : Setting.ShapedList members
  rpcs : MayHave members "rpcs" (IsListOf Rpc.Shaped)

def Service.Shaped : Json → Prop := IsObject Service.Shape

/-- The shape of a file, in which nothing is required. -/
structure SchemaFile.Shape (members : Members) : Prop where
  path : MayHave members "file_name" IsString
  packageName : MayHave members "package_name" (IsNullOr IsString)
  dialect : MayHave members "syntax"
    (IsNullOr fun json => ∃ dialect : Dialect, IsWord dialect.text json)
  imports : MayHave members "dependencies" (IsListOf IsString)
  publicImports : MayHave members "public_dependencies" (IsListOf IsString)
  types : MayHave members "types" (IsListOf TypeDecl.Shaped)
  services : MayHave members "services" (IsListOf Service.Shaped)
  extendBlocks : MayHave members "extend_declarations" (IsListOf ExtendBlock.Shaped)
  settings : Setting.ShapedList members

def SchemaFile.Shaped : Json → Prop := IsObject SchemaFile.Shape

/-- A file keeps its shape when its package is taken out. -/
theorem SchemaFile.Shape.clearPackage {members : Members} (h : Shape members) :
    Shape (Json.setMember "package_name" .null members) where
  path := h.path.setMember (by decide) _
  packageName := by
    intro json hjson
    rw [Json.member?_setMember] at hjson
    exact Or.inl (Option.some.inj hjson).symm
  dialect := h.dialect.setMember (by decide) _
  imports := h.imports.setMember (by decide) _
  publicImports := h.publicImports.setMember (by decide) _
  types := h.types.setMember (by decide) _
  services := h.services.setMember (by decide) _
  extendBlocks := h.extendBlocks.setMember (by decide) _
  settings := h.settings.setMember (by decide) _

end WireSchema
