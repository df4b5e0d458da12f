/-
  WireSchema/Field.lean
  =====================
  **Fields and oneofs.**  A field has a label, a type, a name and a tag; a oneof
  groups fields of which at most one is set.
-/
import WireSchema.Setting

namespace WireSchema

/-! ### Labels -/

/-- How often a field occurs.  For a singular field no label is written. -/
inductive Label
  | required
  | optional
  | repeated
  | singular
  deriving DecidableEq, Repr

/-- The keyword that is written for a label, if there is one. -/
def Label.keyword : Label → Option String
  | .required => some "required"
  | .optional => some "optional"
  | .repeated => some "repeated"
  | .singular => none

/-! ### Fields -/

/-- A field of a message, of a oneof or of an extend block. -/
structure Field where
  label : Label
  typeRef : TypeRef
  name : Name
  tag : Int32
  documentation : String
  settings : List Setting
  deriving DecidableEq, Repr

namespace Field

/-- Builds a field; the type is checked before the name. -/
def make (label : Label) (typeRef name : String) (tag : Int32) (documentation : String)
    (settings : List Setting) : Except SchemaError Field := do
  let typeRef ← TypeRef.make .fieldType typeRef
  let name ← Name.make name
  return { label, typeRef, name, tag, documentation, settings }

/-- Whether the field's `deprecated` option is switched on. -/
def isDeprecated (field : Field) : Bool := Setting.isOn field.settings "deprecated"

end Field

/-! ### Oneofs -/

/-- A group of fields of which at most one is set. -/
structure Oneof where
  name : Name
  documentation : String
  fields : List Field
  deriving DecidableEq, Repr

def Oneof.make (name documentation : String) (fields : List Field) : Except SchemaError Oneof := do
  let name ← Name.make name
  return { name, documentation, fields }

end WireSchema
