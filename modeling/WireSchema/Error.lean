/-
  WireSchema/Error.lean
  =====================
  **What a schema can be refused for.**  Each way a declaration or a set of tags
  can be wrong is a constructor of `SchemaError`; the wording shown to the user
  is in `SchemaError.message` alone.
-/
import WireSchema.Text.Basic

namespace WireSchema

/-- The parts of a declaration that must not be the empty string: its name, or that of an
    option; the types it refers to, by their role if that is known; and the identifiers, float
    literals and map keys in the values of options. -/
inductive RequiredText
  | name
  | typeReference
  | fieldType
  | requestType
  | responseType
  | identifier
  | float
  | mapKey
  deriving DecidableEq, Repr

/-- What the part is called in an error message. -/
def RequiredText.title : RequiredText → String
  | .name => "name"
  | .typeReference => "type reference"
  | .fieldType => "field type"
  | .requestType => "rpc request type"
  | .responseType => "rpc response type"
  | .identifier => "option identifier"
  | .float => "option float"
  | .mapKey => "option map key"

/-- The rules that a schema can break: a part that must not be empty is, an extension range
    starts after its end, or two values of one enum scope or two fields of one message scope
    hold the same tag. -/
inductive SchemaError
  | emptyText (part : RequiredText)
  | invertedRange (first last : Int32)
  | duplicateEnumTag (tag : Int32)
  | duplicateFieldTag (message : String) (tag : Int32)
  deriving DecidableEq, Repr

namespace SchemaError

def tagText (tag : Int32) : String := String.ofList (Text.ofInt tag.toInt)

def message : SchemaError → String
  | .emptyText part => "invalid argument: " ++ part.title ++ " must not be empty"
  | .invertedRange first last =>
    "invalid extension range: start (" ++ tagText first ++ ") > end (" ++ tagText last ++ ")"
  | .duplicateEnumTag tag => "duplicate enum value tag: " ++ tagText tag
  | .duplicateFieldTag message tag =>
    "duplicate field tag " ++ tagText tag ++ " in message '" ++ message ++ "'"

/-- The tag that occurs twice, if that is what the error is about. -/
def duplicateTag : SchemaError → Option Int32
  | .duplicateEnumTag tag => some tag
  | .duplicateFieldTag _ tag => some tag
  | _ => none

end SchemaError

end WireSchema
