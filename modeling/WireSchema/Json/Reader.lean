/-
  WireSchema/Json/Reader.lean
  ===========================
  **Reading JSON.**  The tokens of a text are read one by one by a machine with
  a stack of the arrays and objects that are still open.  If an object has a key
  more than once, the last value counts.  A text that nests too deep is refused.
-/
import WireSchema.Json.Nesting
import WireSchema.Json.Token

namespace WireSchema

namespace Json

/-- An array or object that is still open: the items or members so far, the latest first.  Of
    an object, the key whose value comes next is kept as well. -/
inductive Frame
  | items (done : List Json)
  | members (done : Members) (key : String)

/-- What may come next.  In place of the first item or key, the array or object may end; `next`
    is a comma or the end of the innermost of them, and after a complete value nothing comes. -/
inductive Phase
  | value
  | firstItem
  | firstKey
  | key
  | colon
  | next
  | complete (value : Json)

/-- The state of the machine: the open arrays and objects, the innermost first. -/
structure Reader where
  stack : List Frame
  phase : Phase

namespace Reader

def start : Reader := ⟨[], .value⟩

/-- Puts a complete value where it belongs. -/
def place (value : Json) : List Frame → Reader
  | [] => ⟨[], .complete value⟩
  | .items done :: stack => ⟨.items (value :: done) :: stack, .next⟩
  | .members done key :: stack => ⟨.members (setMember key value done) key :: stack, .next⟩

def beginValue (stack : List Frame) : Token → Option Reader
  | .atom value => some (place value stack)
  | .str text => some (place (.str text) stack)
  | .openArr => some ⟨.items [] :: stack, .firstItem⟩
  | .openObj => some ⟨.members [] "" :: stack, .firstKey⟩
  | _ => none

def step (reader : Reader) (token : Token) : Option Reader :=
  match reader.phase, reader.stack, token with
  | .value, stack, token => beginValue stack token
  | .firstItem, .items _ :: stack, .closeArr => some (place (.arr []) stack)
  | .firstItem, stack, token => beginValue stack token
  | .firstKey, .members _ _ :: stack, .closeObj => some (place (.obj []) stack)
  | .firstKey, .members done _ :: stack, .str key => some ⟨.members done key :: stack, .colon⟩
  | .key, .members done _ :: stack, .str key => some ⟨.members done key :: stack, .colon⟩
  | .colon, stack, .colon => some ⟨stack, .value⟩
  | .next, .items done :: stack, .comma => some ⟨.items done :: stack, .value⟩
  | .next, .members done key :: stack, .comma => some ⟨.members done key :: stack, .key⟩
  | .next, .items done :: stack, .closeArr => some (place (.arr done.reverse) stack)
  | .next, .members done _ :: stack, .closeObj => some (place (.obj done) stack)
  | _, _, _ => none

end Reader

/-- The value that a list of tokens denotes. -/
def ofTokens? (tokens : List Token) : Option Json := do
  let reader ← tokens.foldlM Reader.step Reader.start
  match reader.phase with
  | .complete value => some value
  | _ => none

/-- The JSON value that a text denotes, however deep it nests. -/
def parse? (text : Text) : Option Json := do
  let tokens ← tokens? text
  ofTokens? tokens

/-- Why a text cannot be read: it denotes no JSON value, or it nests too deep at the bracket in
    that place. -/
inductive ReadError
  | malformed
  | tooDeep (place : Location)
  deriving DecidableEq, Repr

def ReadError.message : ReadError → String
  | .malformed => "not a JSON value"
  | .tooDeep place =>
    "recursion limit exceeded at line " ++ String.ofList (Text.ofNat place.line) ++ " column " ++
      String.ofList (Text.ofNat place.column)

/-- Reads a JSON value. -/
def read (source : String) : Except ReadError Json :=
  match tooDeep? source.toList with
  | some place => .error (.tooDeep place)
  | none =>
    match parse? source.toList with
    | some json => .ok json
    | none => .error .malformed

end Json

end WireSchema
