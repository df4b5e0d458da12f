/-
  WireSchema/Json/Basic.lean
  ==========================
  **JSON trees.**  Integers and numbers with a fraction or an exponent are kept
  apart, because only the former can be tags.  An object is the list of its
  members; a look-up finds the first member of a key.
-/
import WireSchema.Json.Decimal

namespace WireSchema

inductive Json
  | null
  | bool (value : Bool)
  | int (value : Int)
  | float (value : Decimal)
  | str (text : String)
  | arr (items : List Json)
  | obj (members : List (String × Json))
  deriving Repr

namespace Json

abbrev Members := List (String × Json)

/-- The value of the first member of the given key. -/
def member? (key : String) : Members → Option Json
  | [] => none
  | (k, value) :: members => if k = key then some value else member? key members

@[simp] theorem member?_nil (key : String) : member? key [] = none := rfl

@[simp] theorem member?_cons_self (key : String) (value : Json) (members : Members) :
    member? key ((key, value) :: members) = some value := by
  simp [member?]

theorem member?_cons_of_ne {k key : String} (h : k ≠ key) (value : Json) (members : Members) :
    member? key ((k, value) :: members) = member? key members := by
  simp [member?, h]

/-- A look-up in two lists of members goes to the second only if the first has
    no such key. -/
theorem member?_append (key : String) (left right : Members) :
    member? key (left ++ right) = (member? key left).or (member? key right) := by
  induction left with
  | nil => rfl
  | cons entry left ih =>
    obtain ⟨k, value⟩ := entry
    by_cases h : k = key <;> simp [member?, h, ih]

/-- Sets the member of a key: in its place if it is there, and else at the end. -/
def setMember (key : String) (value : Json) : Members → Members
  | [] => [(key, value)]
  | (k, v) :: members =>
    if k = key then (key, value) :: members else (k, v) :: setMember key value members

@[simp] theorem member?_setMember (key : String) (value : Json) (members : Members) :
    member? key (setMember key value members) = some value := by
  induction members with
  | nil => simp [setMember]
  | cons entry members ih =>
    obtain ⟨k, v⟩ := entry
    by_cases h : k = key
    · simp [setMember, h]
    · simp [setMember, h, member?, ih]

end Json

end WireSchema
