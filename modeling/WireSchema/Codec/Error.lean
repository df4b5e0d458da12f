/-
  WireSchema/Codec/Error.lean
  ===========================
  **Why a JSON tree is no declaration.**  A tree is refused because a part of it
  has the wrong shape, because a choice is unknown, because a required member is
  missing, because an array has too few or too many elements, or because the
  declaration itself breaks a rule of the schema.
-/
import WireSchema.Error
import WireSchema.Json.Basic
import WireSchema.Text.Shown

namespace WireSchema

/-- What a JSON value looks like from the outside. -/
inductive Shape
  | null
  | boolean (value : Bool)
  | integer (value : Int)
  | float (value : Decimal)
  | string (text : String)
  | sequence
  | map
  deriving DecidableEq, Repr

def Json.shape : Json → Shape
  | .null => .null
  | .bool value => .boolean value
  | .int value => .integer value
  | .float value => .float value
  | .str text => .string text
  | .arr _ => .sequence
  | .obj _ => .map

def Shape.describe : Shape → String
  | .null => "null"
  | .boolean true => "boolean `true`"
  | .boolean false => "boolean `false`"
  | .integer value => "integer `" ++ String.ofList (Text.ofInt value) ++ "`"
  | .float value => "floating point `" ++ String.ofList value.render ++ "`"
  | .string text => "string " ++ String.ofList (Text.shown text)
  | .sequence => "sequence"
  | .map => "map"

/-- What was expected where something else was found.  A pair is an array of a key
    and a value.  A choice is one of a fixed set of words, the unit is the empty
    content of such a word, and a kind word says which of several kinds is meant.
    A record is an object that holds the members of the declaration of that title,
    and its elements are the same members as an array. -/
inductive Expected
  | string
  | boolean
  | int32
  | int64
  | sequence
  | pair
  | choice
  | unit
  | kindWord
  | record (title : String)
  | elements (title : String) (count : Nat)
  | settingValue
  | typeDecl
  deriving DecidableEq, Repr

def Expected.describe : Expected → String
  | .string => "a string"
  | .boolean => "a boolean"
  | .int32 => "i32"
  | .int64 => "i64"
  | .sequence => "a sequence"
  | .pair => "a tuple of size 2"
  | .choice => "string or map"
  | .unit => "unit"
  | .kindWord => "variant identifier"
  | .record title => "struct " ++ title
  | .elements title count =>
    "struct " ++ title ++ " with " ++ String.ofList (Text.ofNat count) ++ " elements"
  | .settingValue => "adjacently tagged enum OptionValue"
  | .typeDecl => "internally tagged enum Type"

/-- Where a JSON tree stands.  Inside a type declaration three rules differ: how an
    array with too many elements is reported, that a kind may be given by number,
    and that the empty content of a word may be an empty object. -/
inductive Position
  | outside
  | insideType
  deriving DecidableEq, Repr

/-- Why a tree is refused: a value of the wrong shape or an integer that does not
    fit, a word that is none of the choices, a number that is the index of none of
    them, a choice given as an object that has not exactly one member, an array
    with too few or too many elements, a required member that is missing, or a
    declaration that breaks a rule of the schema. -/
inductive DecodeError
  | wrongShape (found : Shape) (expected : Expected)
  | outOfRange (value : Int) (expected : Expected)
  | unknownChoice (given : String) (choices : List String)
  | unknownIndex (index : Int) (count : Nat)
  | notOneMember
  | tooFew (length : Nat) (expected : Expected)
  | tooMany (length count : Nat) (position : Position)
  | missing (key : String)
  | rejected (cause : SchemaError)
  deriving DecidableEq, Repr

namespace DecodeError

/-- A word between backquotes. -/
def cite (word : String) : String := "`" ++ word ++ "`"

/-- The words of a choice, as a message lists them. -/
def listChoices : List String → String
  | [first, second] => cite first ++ " or " ++ cite second
  | choices => "one of " ++ ", ".intercalate (choices.map cite)

def numeral (n : Int) : String := String.ofList (Text.ofInt n)

/-- The message of an error.  An array that goes on after its last element is
    reported by the number of elements that were read, if it stands inside a type. -/
def message : DecodeError → String
  | .wrongShape found expected =>
    "invalid type: " ++ found.describe ++ ", expected " ++ expected.describe
  | .outOfRange value expected =>
    "invalid value: integer `" ++ numeral value ++ "`, expected " ++ expected.describe
  | .unknownChoice given choices =>
    "unknown variant " ++ cite given ++ ", expected " ++ listChoices choices
  | .unknownIndex index count =>
    "invalid value: integer `" ++ numeral index ++ "`, expected variant index 0 <= i < " ++
      numeral count
  | .notOneMember => "invalid value: map, expected map with a single key"
  | .tooFew length expected =>
    "invalid length " ++ numeral length ++ ", expected " ++ expected.describe
  | .tooMany length _ .outside =>
    "invalid length " ++ numeral length ++ ", expected fewer elements in array"
  | .tooMany length count .insideType =>
    "invalid length " ++ numeral length ++ ", expected " ++ numeral count ++
      " elements in sequence"
  | .missing key => "missing field " ++ cite key
  | .rejected cause => cause.message

end DecodeError

end WireSchema
