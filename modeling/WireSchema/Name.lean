/-
  WireSchema/Name.lean
  ====================
  **Names and type references.**  Both are strings that cannot be empty; the
  types carry the proof.  They are kept apart because an empty name and an empty
  type reference are reported differently.
-/
import WireSchema.Error

namespace WireSchema

/-! ### Names -/

/-- The name of a declaration or of an option: a string that is not empty. -/
structure Name where
  text : String
  nonempty : text ≠ ""
  deriving DecidableEq, Repr

namespace Name

/-- Accepts every string but the empty one. -/
def make (text : String) : Except SchemaError Name :=
  if h : text = "" then .error (.emptyText .name) else .ok ⟨text, h⟩

/-- Names are ordered by their characters' code points. -/
instance : Ord Name := ⟨fun a b => compare a.text b.text⟩

@[simp] theorem make_empty : make "" = .error (.emptyText .name) := rfl

/-- The text of a name is accepted again and gives the same name. -/
@[simp] theorem make_text (name : Name) : make name.text = .ok name := by
  simp [make, name.nonempty]

/-- An accepted string is the text of the name it became. -/
theorem text_of_make {text : String} {name : Name} (h : make text = .ok name) :
    name.text = text := by
  unfold make at h
  split at h
  · exact nomatch h
  · exact congrArg Name.text (Except.ok.inj h).symm

theorem make_eq_ok_iff {text : String} {name : Name} : make text = .ok name ↔ text = name.text := by
  constructor
  · intro h
    exact (text_of_make h).symm
  · rintro rfl
    exact make_text name

end Name

/-! ### Type references -/

/-- A reference to a message or scalar type as it is written: a string that is
    not empty. -/
structure TypeRef where
  text : String
  nonempty : text ≠ ""
  deriving DecidableEq, Repr

namespace TypeRef

/-- Accepts every string but the empty one, which is reported as `part`. -/
def make (part : RequiredText) (text : String) : Except SchemaError TypeRef :=
  if h : text = "" then .error (.emptyText part) else .ok ⟨text, h⟩

/-- The text of a type reference is accepted again and gives the same reference. -/
@[simp] theorem make_text (part : RequiredText) (reference : TypeRef) :
    make part reference.text = .ok reference := by
  simp [make, reference.nonempty]

/-- An accepted string is the text of the reference it became. -/
theorem text_of_make {part : RequiredText} {text : String} {reference : TypeRef}
    (h : make part text = .ok reference) : reference.text = text := by
  unfold make at h
  split at h
  · exact nomatch h
  · exact congrArg TypeRef.text (Except.ok.inj h).symm

theorem make_eq_ok_iff {part : RequiredText} {text : String} {reference : TypeRef} :
    make part text = .ok reference ↔ text = reference.text := by
  constructor
  · intro h
    exact (text_of_make h).symm
  · rintro rfl
    exact make_text part reference

end TypeRef

end WireSchema
