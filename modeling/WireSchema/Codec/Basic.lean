/-
  WireSchema/Codec/Basic.lean
  ===========================
  **The pieces of the codec.**  Writing skips members that hold their default;
  reading gives them their default back.

  A declaration is a `Record`.  It is written as an object, and it is read from
  an object or from an array:

    * of an object, the known keys are looked up in alphabetical order, up to the
      first value that cannot be read, and keys that are not known are passed
      over; only then are the required members asked for;
    * of an array, the elements are read in the order in which the declaration
      has its members, and each is asked for in its turn; elements may be missing
      at the end, but there may be none too many.
-/
import WireSchema.Codec.Error
import WireSchema.Name

namespace WireSchema

namespace Json

/-! ### Writing members -/

/-- A member that is left out if its text is empty. -/
def textMember (key text : String) : Members :=
  if text = "" then [] else [(key, .str text)]

/-- A member that is left out if its list is empty. -/
def listMember (key : String) : List Json → Members
  | [] => []
  | items => [(key, .arr items)]

/-- A member that is left out if there is no value. -/
def optionMember (key : String) : Option Json → Members
  | none => []
  | some value => [(key, value)]

def ofTag (tag : Int32) : Json := .int tag.toInt

/-! ### Reading simple values -/

def readString : Json → Except DecodeError String
  | .str text => .ok text
  | json => .error (.wrongShape json.shape .string)

def readBool : Json → Except DecodeError Bool
  | .bool value => .ok value
  | json => .error (.wrongShape json.shape .boolean)

def readInt32 : Json → Except DecodeError Int32
  | .int value =>
    if -0x80000000 ≤ value ∧ value < 0x80000000 then .ok (Int32.ofInt value)
    else .error (.outOfRange value .int32)
  | json => .error (.wrongShape json.shape .int32)

def readInt64 : Json → Except DecodeError Int64
  | .int value =>
    if -0x8000000000000000 ≤ value ∧ value < 0x8000000000000000 then .ok (Int64.ofInt value)
    else .error (.outOfRange value .int64)
  | json => .error (.wrongShape json.shape .int64)

/-- Reads a list whose items are read by `read`. -/
def readList {α : Type} (read : Json → Except DecodeError α) : Json → Except DecodeError (List α)
  | .arr items => items.mapM read
  | json => .error (.wrongShape json.shape .sequence)

/-- Reads the empty content of a word.  Inside a type declaration an empty object
    is such a content too. -/
def readUnit (position : Position) : Json → Except DecodeError Unit
  | .null => .ok ()
  | .obj [] =>
    match position with
    | .outside => .error (.wrongShape .map .unit)
    | .insideType => .ok ()
  | json => .error (.wrongShape json.shape .unit)

/-- Reads one of a fixed set of words.  A word may also be written as an object
    of one member without content. -/
def readChoice {α : Type} (position : Position) (choices : List (String × α)) :
    Json → Except DecodeError α
  | .str word =>
    match choices.lookup word with
    | some choice => .ok choice
    | none => .error (.unknownChoice word (choices.map Prod.fst))
  | .obj [(word, content)] =>
    match choices.lookup word with
    | some choice => (fun _ => choice) <$> readUnit position content
    | none => .error (.unknownChoice word (choices.map Prod.fst))
  | .obj _ => .error .notOneMember
  | json => .error (.wrongShape json.shape .choice)

/-- Reads the word for one of several kinds.  Inside a type declaration the
    number of the kind will do as well. -/
def readKind {α : Type} (position : Position) (choices : List (String × α)) :
    Json → Except DecodeError α
  | .str word =>
    match choices.lookup word with
    | some kind => .ok kind
    | none => .error (.unknownChoice word (choices.map Prod.fst))
  | .int (.ofNat n) =>
    match position, choices[n]? with
    | .outside, _ => .error (.wrongShape (.integer n) .kindWord)
    | .insideType, some (_, kind) => .ok kind
    | .insideType, none => .error (.unknownIndex n choices.length)
  | json => .error (.wrongShape json.shape .kindWord)

/-- The end of an array of which the first `count` elements have been read: one
    that goes on is too long. -/
def endArray {α : Type} (position : Position) (length count : Nat) (value : α) :
    Except DecodeError α :=
  if length ≤ count then .ok value else .error (.tooMany length count position)

/-! ### Reading members -/

/-- Reads the member of a key, if it is there. -/
def readMember {α : Type} (members : Members) (key : String)
    (read : Json → Except DecodeError α) : Except DecodeError (Option α) :=
  match member? key members with
  | some json => some <$> read json
  | none => .ok none

/-- Asks for the value of a required member. -/
def require {α : Type} (key : String) : Option α → Except DecodeError α
  | some value => .ok value
  | none => .error (.missing key)

/-- Reads a text; without the member it is empty. -/
def readText (members : Members) (key : String) : Except DecodeError String :=
  match member? key members with
  | some json => readString json
  | none => .ok ""

/-- Reads a flag; without the member it is off. -/
def readFlag (members : Members) (key : String) : Except DecodeError Bool :=
  match member? key members with
  | some json => readBool json
  | none => .ok false

/-- Reads a list; without the member it is empty. -/
def readItems {α : Type} (members : Members) (key : String)
    (read : Json → Except DecodeError α) : Except DecodeError (List α) :=
  match member? key members with
  | some json => readList read json
  | none => .ok []

/-- Reads a member that may be left out or be `null`, which is the same. -/
def readNullable {α : Type} (members : Members) (key : String)
    (read : Json → Except DecodeError α) : Except DecodeError (Option α) :=
  match member? key members with
  | none => .ok none
  | some .null => .ok none
  | some json => some <$> read json

/-- The result of a rule of the schema, as a result of reading. -/
def checked {α : Type} : Except SchemaError α → Except DecodeError α
  | .ok value => .ok value
  | .error cause => .error (.rejected cause)

/-! ### Records -/

/-- A declaration as it stands in JSON: the title by which messages call it, and
    the keys of its members in the order in which it has them. -/
structure Record where
  title : String
  keys : List String

namespace Record

/-- The elements of an array as members, each under the key that has its place. -/
def named (record : Record) (elements : List Json) : Members := record.keys.zip elements

/-- Asks for the element of a required member. -/
def require {α : Type} (record : Record) (key : String) : Option α → Except DecodeError α
  | some value => .ok value
  | none =>
    .error (.tooFew (record.keys.idxOf key) (.elements record.title record.keys.length))

/-- Reads a declaration from the members of an object, or from the elements of an
    array, which are named first. -/
def read {α : Type} (record : Record) (position : Position)
    (ofMembers ofElements : Members → Except DecodeError α) : Json → Except DecodeError α
  | .obj members => ofMembers members
  | .arr elements => do
    let value ← ofElements (record.named elements)
    endArray position elements.length record.keys.length value
  | json => .error (.wrongShape json.shape (.record record.title))

/-- In a record whose keys all differ, the member of a key is the element that has
    its place. -/
theorem member?_named {record : Record} (h : record.keys.Nodup) {key : String} {i : Nat}
    (hkey : record.keys[i]? = some key) (elements : List Json) :
    member? key (record.named elements) = elements[i]? := by
  obtain ⟨title, keys⟩ := record
  change member? key (keys.zip elements) = elements[i]?
  induction keys generalizing i elements with
  | nil => exact nomatch hkey
  | cons first keys ih =>
    obtain ⟨hfirst, hkeys⟩ := List.nodup_cons.mp h
    cases elements with
    | nil => rfl
    | cons json elements =>
      cases i with
      | zero =>
        obtain rfl : first = key := Option.some.inj hkey
        exact member?_cons_self first json _
      | succ i =>
        have hne : first ≠ key := by
          rintro rfl
          exact hfirst (List.mem_of_getElem? hkey)
        rw [List.zip_cons_cons, member?_cons_of_ne hne]
        exact ih elements hkeys hkey

end Record

/-! ### Finding what was written -/

theorem member?_textMember (key k text : String) :
    member? key (textMember k text) = if k = key ∧ text ≠ "" then some (.str text) else none := by
  unfold textMember
  by_cases ht : text = ""
  · simp [ht]
  · by_cases hk : k = key <;> simp [ht, hk, member?]

theorem member?_listMember (key k : String) (items : List Json) :
    member? key (listMember k items) =
      if k = key ∧ items ≠ [] then some (.arr items) else none := by
  cases items with
  | nil => simp [listMember]
  | cons item items => by_cases hk : k = key <;> simp [listMember, member?, hk]

theorem member?_optionMember (key k : String) (value : Option Json) :
    member? key (optionMember k value) = if k = key then value else none := by
  cases value with
  | none => simp [optionMember]
  | some json => by_cases hk : k = key <;> simp [optionMember, member?, hk]

/-! ### What was written reads back -/

@[simp] theorem readString_str (text : String) : readString (.str text) = .ok text := rfl

@[simp] theorem readBool_bool (value : Bool) : readBool (.bool value) = .ok value := rfl

@[simp] theorem readInt32_ofTag (tag : Int32) : readInt32 (ofTag tag) = .ok tag := by
  have lower : -0x80000000 ≤ tag.toInt := tag.le_toInt
  have upper : tag.toInt < 0x80000000 := tag.toInt_lt
  simp only [ofTag, readInt32]
  rw [if_pos ⟨lower, upper⟩, Int32.ofInt_toInt]

@[simp] theorem readInt64_toInt (value : Int64) : readInt64 (.int value.toInt) = .ok value := by
  have lower : -0x8000000000000000 ≤ value.toInt := value.le_toInt
  have upper : value.toInt < 0x8000000000000000 := value.toInt_lt
  simp only [readInt64]
  rw [if_pos ⟨lower, upper⟩, Int64.ofInt_toInt]

theorem readList_map {α : Type} {encode : α → Json} {read : Json → Except DecodeError α}
    {values : List α} (h : ∀ value ∈ values, read (encode value) = .ok value) :
    readList read (.arr (values.map encode)) = .ok values := by
  simp only [readList]
  induction values with
  | nil => rfl
  | cons value values ih =>
    have head : read (encode value) = .ok value := h value (by simp)
    have tail : (values.map encode).mapM read = .ok values :=
      ih fun item member => h item (by simp [member])
    simp [List.mapM_cons, head, tail, bind, Except.bind, pure, Except.pure]

/-- A text reads back from any members that hold it as a text member does. -/
theorem readText_of_member? {members : Members} {key text : String}
    (h : member? key members = if text ≠ "" then some (.str text) else none) :
    readText members key = .ok text := by
  by_cases ht : text = ""
  · subst ht
    simp [readText, h]
  · simp [readText, h, ht]

/-- A list reads back from any members that hold it as a list member does. -/
theorem readItems_of_member? {α : Type} {encode : α → Json} {read : Json → Except DecodeError α}
    {members : Members} {key : String} {values : List α}
    (h : member? key members =
      if values.map encode ≠ [] then some (.arr (values.map encode)) else none)
    (each : ∀ value ∈ values, read (encode value) = .ok value) :
    readItems members key read = .ok values := by
  cases values with
  | nil => simp [readItems, h]
  | cons value values =>
    have found : member? key members = some (.arr ((value :: values).map encode)) := by
      rw [h]
      simp
    rw [readItems, found]
    exact readList_map each

end Json

/-! ### Names -/

def Name.encode (name : Name) : Json := .str name.text

def Name.decode (json : Json) : Except DecodeError Name := do
  let text ← json.readString
  Json.checked (Name.make text)

@[simp] theorem Name.decode_encode (name : Name) : Name.decode name.encode = .ok name := by
  simp [decode, encode, bind, Except.bind, Json.checked]

def TypeRef.encode (reference : TypeRef) : Json := .str reference.text

def TypeRef.decode (json : Json) : Except DecodeError TypeRef := do
  let text ← json.readString
  Json.checked (TypeRef.make .typeReference text)

@[simp] theorem TypeRef.decode_encode (reference : TypeRef) :
    TypeRef.decode reference.encode = .ok reference := by
  simp [decode, encode, bind, Except.bind, Json.checked]

end WireSchema
