/-
  WireSchema/TypeDecl.lean
  ========================
  **Messages and type declarations.**  A type is an enum or a message, and a
  message declares further types inside it, to any depth.  All of a message but
  those inner types is its `MessageCore`, so that the recursion of the type is
  in one place: a message is a core together with a list of types.

  `TypeDecl.flatten` lists a type and everything declared inside it, parents before
  children.
-/
import WireSchema.Enum
import WireSchema.Extension

namespace WireSchema

/-! ### Messages -/

/-- All of a message but the types declared inside it. -/
structure MessageCore where
  name : Name
  qualifiedName : String
  documentation : String
  settings : List Setting
  fields : List Field
  oneofs : List Oneof
  extensionRanges : List ExtensionRange
  deriving DecidableEq, Repr

/-- The fields of the message itself, followed by the members of its oneofs. -/
def MessageCore.allFields (core : MessageCore) : List Field :=
  core.fields ++ core.oneofs.flatMap (·.fields)

/-- The first field of the given name, members of oneofs included. -/
def MessageCore.field? (core : MessageCore) (name : String) : Option Field :=
  core.allFields.find? fun field => field.name.text == name

/-- What the message is called in an error: its qualified name if it has one. -/
def MessageCore.title (core : MessageCore) : String :=
  if core.qualifiedName = "" then core.name.text else core.qualifiedName

/-- The declaration of a type: an enum, or a message with the types inside it. -/
inductive TypeDecl
  | enum (decl : EnumDecl)
  | message (core : MessageCore) (nested : List TypeDecl)
  deriving Repr

/-! ### Equality of type declarations -/

namespace TypeDecl

mutual

def same : TypeDecl → TypeDecl → Bool
  | .enum a, .enum b => decide (a = b)
  | .message a ts, .message b us => decide (a = b) && sameAll ts us
  | _, _ => false

def sameAll : List TypeDecl → List TypeDecl → Bool
  | [], [] => true
  | t :: ts, u :: us => same t u && sameAll ts us
  | _, _ => false

end

mutual

theorem same_iff : ∀ t u : TypeDecl, same t u = true ↔ t = u
  | .enum _, u => by cases u <;> simp [same]
  | .message _ ts, u => by
    cases u with
    | enum _ => simp [same]
    | message _ us => simp [same, sameAll_iff ts us]

theorem sameAll_iff : ∀ ts us : List TypeDecl, sameAll ts us = true ↔ ts = us
  | [], us => by cases us <;> simp [sameAll]
  | t :: ts, us => by
    cases us with
    | nil => simp [sameAll]
    | cons u us => simp [sameAll, same_iff t u, sameAll_iff ts us]

end

instance : DecidableEq TypeDecl := fun t u => decidable_of_iff _ (same_iff t u)

/-! ### Views of a type declaration -/

def name : TypeDecl → Name
  | .enum decl => decl.name
  | .message core _ => core.name

/-- The resolved name of the declared type, empty if it is not known. -/
def qualifiedName : TypeDecl → String
  | .enum decl => decl.qualifiedName
  | .message core _ => core.qualifiedName

def documentation : TypeDecl → String
  | .enum decl => decl.documentation
  | .message core _ => core.documentation

def settings : TypeDecl → List Setting
  | .enum decl => decl.settings
  | .message core _ => core.settings

/-- The types declared directly inside this one; an enum has none. -/
def nestedTypes : TypeDecl → List TypeDecl
  | .enum _ => []
  | .message _ nested => nested

def toEnum? : TypeDecl → Option EnumDecl
  | .enum decl => some decl
  | .message _ _ => none

/-! ### A type with all it declares -/

mutual

/-- The type and every type declared inside it, parents before children. -/
def flatten : TypeDecl → List TypeDecl
  | .enum decl => [.enum decl]
  | .message core nested => .message core nested :: flattenAll nested

/-- Several types, each with every type declared inside it, one after the other. -/
def flattenAll : List TypeDecl → List TypeDecl
  | [] => []
  | t :: ts => flatten t ++ flattenAll ts

end

/-- The list starts with the type itself and goes on with the types inside it. -/
theorem flatten_eq (t : TypeDecl) : t.flatten = t :: flattenAll t.nestedTypes := by
  cases t <;> simp [flatten, nestedTypes, flattenAll]

end TypeDecl

/-! ### Messages as values of their own -/

/-- A message: its core and the types declared inside it. -/
structure Message extends MessageCore where
  nested : List TypeDecl
  deriving DecidableEq, Repr

namespace Message

/-- Builds a message with a checked name, without oneofs and extension ranges. -/
def make (name qualifiedName documentation : String) (settings : List Setting)
    (fields : List Field) (nested : List TypeDecl) : Except SchemaError Message := do
  let name ← Name.make name
  return {
    name, qualifiedName, documentation, settings, fields
    oneofs := []
    extensionRanges := []
    nested }

def withOneofs (message : Message) (oneofs : List Oneof) : Message := { message with oneofs }

def withExtensionRanges (message : Message) (extensionRanges : List ExtensionRange) : Message :=
  { message with extensionRanges }

def toType (message : Message) : TypeDecl := .message message.toMessageCore message.nested

end Message

end WireSchema
