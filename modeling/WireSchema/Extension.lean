/-
  WireSchema/Extension.lean
  =========================
  **Extensions.**  A message reserves tags for extensions with an extension
  range; an extend block adds fields to a message from outside.
-/
import WireSchema.Field

namespace WireSchema

/-- The largest tag of the wire format; a range that ends here is open-ended. -/
def maxTag : Int32 := 536870911

/-! ### Extension ranges -/

/-- The tags from `first` to `last`, both included. -/
structure ExtensionRange where
  documentation : String
  first : Int32
  last : Int32
  first_le_last : first ≤ last
  deriving DecidableEq, Repr

namespace ExtensionRange

/-- Builds a range that does not start after its end. -/
def make (documentation : String) (first last : Int32) : Except SchemaError ExtensionRange :=
  if h : first ≤ last then .ok ⟨documentation, first, last, h⟩
  else .error (.invertedRange first last)

def single (documentation : String) (tag : Int32) : ExtensionRange :=
  ⟨documentation, tag, tag, Int32.le_refl tag⟩

def contains (range : ExtensionRange) (tag : Int32) : Bool :=
  decide (range.first ≤ tag) && decide (tag ≤ range.last)

/-- The parts of a range are accepted again and give the same range. -/
@[simp] theorem make_parts (range : ExtensionRange) :
    make range.documentation range.first range.last = .ok range := by
  simp [make, range.first_le_last]

theorem make_self (documentation : String) (tag : Int32) :
    make documentation tag tag = .ok (single documentation tag) := by
  simp [make, single]

end ExtensionRange

/-! ### Extend blocks -/

/-- Fields added to a message from outside.  `name` is the message as it is
    written, `qualifiedName` the resolved name by which it is found. -/
structure ExtendBlock where
  name : Name
  qualifiedName : String
  documentation : String
  fields : List Field
  deriving DecidableEq, Repr

def ExtendBlock.make (name qualifiedName documentation : String) (fields : List Field) :
    Except SchemaError ExtendBlock := do
  let name ← Name.make name
  return { name, qualifiedName, documentation, fields }

end WireSchema
