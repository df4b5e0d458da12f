/-
  WireSchema/Tags.lean
  ====================
  **Unique tags.**  Within one scope no tag may be held twice.  The scope of an
  enum is its values; the scope of a message is its fields, the members of its
  oneofs, and the fields that extend blocks add to it.

  A check stops at the first tag that is held already, reports it, and keeps a
  log of what it saw.  Checking a file visits every type in it, parents before
  children, and stops at the first fault.
-/
import WireSchema.File

namespace WireSchema

/-! ### Events and reports -/

/-- How important an event is. -/
inductive Level
  | debug
  | trace
  deriving DecidableEq, Repr

/-- What a tag check came across: in the scope of an enum or message two values or fields hold
    one tag, where `enum` declares the second of the two values, or all of them have tags of
    their own; an enum that allows aliases is not checked. -/
inductive Event
  | duplicateEnumTag (tag : Int32) (first duplicate enum : Name)
  | distinctEnumTags (count : Nat)
  | duplicateFieldTag (tag : Int32) (first duplicate message : Name)
  | distinctFieldTags (message : Name) (count : Nat)
  | aliasedEnum (enum : Name)
  deriving DecidableEq, Repr

namespace Event

/-- Duplicates are for debugging; everything else only traces the check. -/
def level : Event → Level
  | .duplicateEnumTag _ _ _ _ => .debug
  | .duplicateFieldTag _ _ _ _ => .debug
  | _ => .trace

def message : Event → String
  | .duplicateEnumTag _ _ _ _ => "duplicate enum value tag"
  | .distinctEnumTags _ => "enum value tags are unique"
  | .duplicateFieldTag _ _ _ _ => "duplicate field tag"
  | .distinctFieldTags _ _ => "field tags are unique"
  | .aliasedEnum _ => "skipping aliased enum"

end Event

/-- The outcome of a check: what it logged, and the fault it found, if any. -/
structure Report where
  events : List Event
  fault : Option SchemaError
  deriving DecidableEq, Repr

namespace Report

def clean : Report := ⟨[], none⟩

/-- One check and, if it finds no fault, another one after it. -/
def andThen (first second : Report) : Report :=
  match first.fault with
  | some _ => first
  | none => ⟨first.events ++ second.events, second.fault⟩

end Report

/-! ### The first clash -/

/-- The first entry whose tag was seen before, together with the entry that
    holds the tag.  `seen` are the entries so far, the latest first. -/
def firstClash {α : Type} (tag : α → Int32) (seen : List α) : List α → Option (α × α)
  | [] => none
  | entry :: entries =>
    match seen.find? fun holder => tag holder == tag entry with
    | some holder => some (holder, entry)
    | none => firstClash tag (entry :: seen) entries

/-! ### Enum scopes -/

/-- The values of several enums, each with the name of its enum. -/
def enumEntries (decls : List EnumDecl) : List (Name × EnumValue) :=
  decls.flatMap fun decl => decl.values.map fun value => (decl.name, value)

/-- Checks that no tag occurs twice among the values of all the given enums. -/
def checkEnumTags (decls : List EnumDecl) : Report :=
  let entries := enumEntries decls
  match firstClash (fun entry => entry.2.tag) [] entries with
  | some (holder, entry) =>
    ⟨[.duplicateEnumTag entry.2.tag holder.2.name entry.2.name entry.1],
      some (.duplicateEnumTag entry.2.tag)⟩
  | none => ⟨[.distinctEnumTags entries.length], none⟩

/-! ### Message scopes -/

/-- Whether an extend block adds to a message: its resolved name is known and is
    that of the message. -/
def ExtendBlock.extendsMessage (extend : ExtendBlock) (core : MessageCore) : Bool :=
  extend.qualifiedName != "" && extend.qualifiedName == core.qualifiedName

/-- The fields of a message, with the members of its oneofs and the fields that
    extend blocks add to it. -/
def MessageCore.scope (core : MessageCore) (extendBlocks : List ExtendBlock) : List Field :=
  core.allFields ++ (extendBlocks.filter (·.extendsMessage core)).flatMap (·.fields)

/-- Checks that no tag occurs twice in the scope of a message. -/
def checkFieldTags (core : MessageCore) (extendBlocks : List ExtendBlock) : Report :=
  let fields := core.scope extendBlocks
  match firstClash Field.tag [] fields with
  | some (holder, field) =>
    ⟨[.duplicateFieldTag field.tag holder.name field.name core.name],
      some (.duplicateFieldTag core.title field.tag)⟩
  | none => ⟨[.distinctFieldTags core.name fields.length], none⟩

/-! ### Files -/

/-- Checks one type, without the types inside it.  An enum that allows aliases
    is passed over. -/
def TypeDecl.checkTags (extendBlocks : List ExtendBlock) : TypeDecl → Report
  | .enum decl =>
    if decl.allowsAlias then ⟨[.aliasedEnum decl.name], none⟩ else checkEnumTags [decl]
  | .message core _ => checkFieldTags core extendBlocks

/-- Checks types one after the other, up to the first fault. -/
def checkTypes (extendBlocks : List ExtendBlock) : List TypeDecl → Report
  | [] => .clean
  | t :: ts => (t.checkTags extendBlocks).andThen (checkTypes extendBlocks ts)

/-- Checks every type of a file, nested ones included. -/
def SchemaFile.checkTags (file : SchemaFile) : Report :=
  checkTypes file.extendBlocks file.allTypes

end WireSchema
