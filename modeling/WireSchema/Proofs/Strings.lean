/-
  WireSchema/Proofs/Strings.lean
  ==============================
  **The strings of a declaration are quoted in its text.**  `strings` lists the string
  values that the options of a declaration hold, at every depth of maps, lists and nested
  settings and at every depth of nested types, in the order in which they are written.
  For a file the paths of its imports come first.

  Every one of them stands in the rendered text as its literal, unbroken and on one line,
  and a scanner for literals reads the string back from there.
-/
import WireSchema.Proofs.Quotes

namespace WireSchema

open Text (Quotes QuotesEach)

/-! ### Options -/

namespace SettingValue

mutual

/-- The string values inside of an option value. -/
def strings : SettingValue → List String
  | .string text => [text]
  | .nested _ _ value => strings value
  | .map entries => stringsOfEntries entries
  | .list values => stringsOfEach values
  | _ => []

def stringsOfEntries : List (String × SettingValue) → List String
  | [] => []
  | (_, value) :: entries => strings value ++ stringsOfEntries entries

def stringsOfEach : List SettingValue → List String
  | [] => []
  | value :: values => strings value ++ stringsOfEach values

end

mutual

theorem quotes : ∀ value : SettingValue, Quotes value.render value.strings
  | .string text => by
    rw [render, strings]
    exact .literal text
  | .identifier text => .none _
  | .integer value => .none _
  | .float text => .none _
  | .boolean value => .none _
  | .nested name custom value => by
    rw [render, strings]
    exact (quotes value).prepend _
  | .map entries => by
    rw [render, strings]
    exact (quotesEntries entries).enclosed _ _
  | .list values => by
    rw [render, strings]
    exact (quotesEach values).enclosed _ _

theorem quotesEntries : ∀ entries : List (String × SettingValue),
    QuotesEach (renderEntries entries) (stringsOfEntries entries)
  | [] => .nil
  | (key, value) :: entries => by
    have hvalue := (quotes value).prepend (key.toList ++ [':', ' '])
    rw [renderEntries, stringsOfEntries]
    exact .cons (by simpa using hvalue) (quotesEntries entries)

theorem quotesEach : ∀ values : List SettingValue,
    QuotesEach (renderEach values) (stringsOfEach values)
  | [] => .nil
  | value :: values => .cons (quotes value) (quotesEach values)

end

end SettingValue

namespace Setting

def strings (setting : Setting) : List String := setting.value.strings

theorem quotes (setting : Setting) : Quotes setting.render setting.strings :=
  setting.value.quotes.prepend _

theorem quotes_statements (settings : List Setting) :
    Quotes (statements settings) (settings.flatMap strings) :=
  Quotes.flatMap fun setting _ => (setting.quotes.prepend _).follow _

theorem quotes_inline (settings : List Setting) :
    Quotes (inline settings) (settings.flatMap strings) := by
  have hitems : QuotesEach (settings.map render) (settings.flatMap strings) :=
    QuotesEach.map fun setting _ => setting.quotes
  cases settings with
  | nil => exact .none _
  | cons setting settings => exact (hitems.itemLines.prepend _).follow _

/-- A member quotes what its settings quote. -/
theorem quotes_member (lead trail : Text) (settings : List Setting) :
    Quotes (lead ++ inline settings ++ trail) (settings.flatMap strings) :=
  ((quotes_inline settings).prepend lead).follow trail

end Setting

/-! ### Enums, fields and extensions -/

def EnumValue.strings (value : EnumValue) : List String := value.settings.flatMap Setting.strings

def EnumDecl.strings (decl : EnumDecl) : List String :=
  decl.settings.flatMap Setting.strings ++ decl.values.flatMap EnumValue.strings

def Field.strings (field : Field) : List String := field.settings.flatMap Setting.strings

def Oneof.strings (oneof : Oneof) : List String := oneof.fields.flatMap Field.strings

def ExtendBlock.strings (extend : ExtendBlock) : List String := extend.fields.flatMap Field.strings

theorem EnumValue.quotes (value : EnumValue) : Quotes value.render value.strings :=
  Setting.quotes_member _ _ value.settings

/-- Two sections quote what one quotes and then what the other quotes. -/
theorem Text.QuotesEach.pair {first second : Text} {strings others : List String}
    (h : Quotes first strings) (h' : Quotes second others) :
    QuotesEach [first, second] (strings ++ others) := by
  simpa using QuotesEach.cons h (.cons h' .nil)

theorem EnumDecl.quotes (decl : EnumDecl) : Quotes decl.render decl.strings := by
  have hvalues : Quotes (decl.values.flatMap EnumValue.render)
      (decl.values.flatMap EnumValue.strings) := Quotes.flatMap fun value _ => value.quotes
  exact ((QuotesEach.pair (Setting.quotes_statements decl.settings) hvalues).block _).prepend _

theorem Field.quotes (field : Field) : Quotes field.render field.strings :=
  Setting.quotes_member _ _ field.settings

theorem Field.quotes_flatMap (fields : List Field) :
    Quotes (fields.flatMap render) (fields.flatMap strings) :=
  Quotes.flatMap fun field _ => field.quotes

theorem Field.quotes_block (lead header : Text) (fields : List Field) :
    Quotes (lead ++ Text.block header [fields.flatMap render]) (fields.flatMap strings) := by
  have hsections := QuotesEach.cons (quotes_flatMap fields) .nil
  rw [List.append_nil] at hsections
  exact (hsections.block header).prepend lead

theorem Oneof.quotes (oneof : Oneof) : Quotes oneof.render oneof.strings :=
  Field.quotes_block _ _ oneof.fields

theorem ExtendBlock.quotes (extend : ExtendBlock) : Quotes extend.render extend.strings :=
  Field.quotes_block _ _ extend.fields

/-! ### Types -/

/-- The strings of a message without those of its nested types.  Extension ranges have no
    options. -/
def MessageCore.strings (core : MessageCore) : List String :=
  core.settings.flatMap Setting.strings ++ core.fields.flatMap Field.strings ++
    core.oneofs.flatMap Oneof.strings

namespace TypeDecl

mutual

/-- The strings of a type and of every type declared inside it. -/
def strings : TypeDecl → List String
  | .enum decl => decl.strings
  | .message core nested => core.strings ++ stringsOfEach nested

def stringsOfEach : List TypeDecl → List String
  | [] => []
  | t :: ts => strings t ++ stringsOfEach ts

end

end TypeDecl

theorem MessageCore.quotes (core : MessageCore) {nested : List Text} {strings : List String}
    (hnested : QuotesEach nested strings) :
    Quotes (core.renderWith nested) (core.strings ++ strings) := by
  have honeofs : QuotesEach (core.oneofs.map Oneof.render) (core.oneofs.flatMap Oneof.strings) :=
    QuotesEach.map fun oneof _ => oneof.quotes
  have hsections := QuotesEach.cons (Setting.quotes_statements core.settings)
    (.cons (Field.quotes_flatMap core.fields) (.cons honeofs.paragraphs
      (.cons (.none (core.extensionRanges.flatMap ExtensionRange.render))
        (.cons hnested.paragraphs .nil))))
  have hall := (hsections.block ("message ".toList ++ core.name.text.toList)).prepend
    (Text.comment core.documentation)
  simpa [renderWith, MessageCore.strings] using hall

namespace TypeDecl

mutual

theorem quotes : ∀ t : TypeDecl, Quotes t.render t.strings
  | .enum decl => by
    rw [render, strings]
    exact decl.quotes
  | .message core nested => by
    rw [render, strings]
    exact core.quotes (quotesEach nested)

theorem quotesEach : ∀ ts : List TypeDecl, QuotesEach (renderEach ts) (stringsOfEach ts)
  | [] => .nil
  | t :: ts => .cons (quotes t) (quotesEach ts)

end

end TypeDecl

/-! ### Services and files -/

def Rpc.strings (rpc : Rpc) : List String := rpc.settings.flatMap Setting.strings

def Service.strings (service : Service) : List String :=
  service.settings.flatMap Setting.strings ++ service.rpcs.flatMap Rpc.strings

/-- The strings of a file: the paths of its imports, then the strings of its declarations. -/
def SchemaFile.strings (file : SchemaFile) : List String :=
  file.imports ++ file.publicImports ++ file.settings.flatMap Setting.strings ++
    TypeDecl.stringsOfEach file.types ++ file.extendBlocks.flatMap ExtendBlock.strings ++
    file.services.flatMap Service.strings

theorem Rpc.quotes (rpc : Rpc) : Quotes rpc.render rpc.strings := by
  rw [render, strings]
  cases rpc.settings with
  | nil => exact .none _
  | cons setting settings =>
    have hsections := QuotesEach.cons (Setting.quotes_statements (setting :: settings)) .nil
    rw [List.append_nil] at hsections
    exact (hsections.block _).prepend _

theorem Service.quotes (service : Service) : Quotes service.render service.strings := by
  have hrpcs : Quotes (service.rpcs.flatMap Rpc.render) (service.rpcs.flatMap Rpc.strings) :=
    Quotes.flatMap fun rpc _ => rpc.quotes
  exact ((QuotesEach.pair (Setting.quotes_statements service.settings) hrpcs).block _).prepend _

namespace SchemaFile

theorem quotes_imports (file : SchemaFile) :
    Quotes file.importLines (file.imports ++ file.publicImports) := by
  have hpaths : ∀ (word : Text) (paths : List String),
      Quotes (paths.flatMap fun path => word ++ Text.quoted path ++ [';', '\n']) paths := by
    intro word paths
    have hall : Quotes _ (paths.flatMap fun path => [path]) := Quotes.flatMap fun path _ =>
      ((Quotes.literal path).prepend word).follow [';', '\n']
    simpa using hall
  exact (hpaths _ file.imports).append (hpaths _ file.publicImports)

theorem quotes (file : SchemaFile) : Quotes file.render file.strings := by
  have htypes := TypeDecl.quotesEach file.types
  rw [TypeDecl.renderEach_eq_map] at htypes
  have hextends : QuotesEach (file.extendBlocks.map ExtendBlock.render)
      (file.extendBlocks.flatMap ExtendBlock.strings) :=
    QuotesEach.map fun extend _ => extend.quotes
  have hservices : QuotesEach (file.services.map Service.render)
      (file.services.flatMap Service.strings) :=
    QuotesEach.map fun service _ => service.quotes
  have hparts := QuotesEach.cons (.none (file.pathLine ++ file.dialectLine ++ file.packageLine))
    (.cons file.quotes_imports (.cons (Setting.quotes_statements file.settings)
      ((htypes.append hextends).append hservices)))
  simpa [render, parts, strings] using hparts.paragraphs

end SchemaFile

/-! ### Literals in rendered text -/

/-- The text quotes the strings in their order, and the literal of each stands on one of its
    lines. -/
def Text.Keeps (text : Text) (strings : List String) : Prop :=
  Quotes text strings ∧ ∀ s ∈ strings, ∃ line ∈ Text.lines text, Text.quoted s <:+: line

theorem Text.Quotes.keeps {text : Text} {strings : List String} (h : Quotes text strings) :
    Text.Keeps text strings :=
  ⟨h, fun _ hs => h.lines.exists_infix hs⟩

/-- **String literals are read back exactly, wherever they are written.**  A scanner reads
    every literal back and stops where it ends; a literal holds no control character; and
    the literals of all strings come through the layout of settings, types and files
    unbroken. -/
theorem literals_kept :
    (∀ (s : String) (after : Text), Text.scan (Text.quoted s ++ after) = some (s, after)) ∧
    (∀ s : String, ∀ c ∈ Text.quoted s, 0x20 ≤ c.toNat ∧ c.toNat ≠ 0x7f) ∧
    (∀ setting : Setting, Text.Keeps setting.render setting.strings) ∧
    (∀ t : TypeDecl, Text.Keeps t.render t.strings) ∧
    ∀ file : SchemaFile, Text.Keeps file.render file.strings := by
  refine ⟨Text.scan_quoted, ?_, fun setting => setting.quotes.keeps, fun t => t.quotes.keeps,
    fun file => file.quotes.keeps⟩
  intro s c hc
  have hplain := Text.isControl_of_mem_quoted hc
  simp only [Text.isControl, Bool.or_eq_false_iff, decide_eq_false_iff_not, beq_eq_false_iff_ne]
    at hplain
  exact ⟨Nat.not_lt.mp hplain.1, hplain.2⟩

/-- A file with the given string three levels deep: in a list, in a map, in a setting nested
    in a setting of a field, which is a member of a oneof of a nested message.  The name of
    that setting has a line end in it. -/
def inscribed (text : String) : SchemaFile where
  types :=
    [.message
      { name := ⟨"Letter", by decide⟩
        qualifiedName := ""
        documentation := ""
        settings := []
        fields := []
        oneofs := []
        extensionRanges := [] }
      [.message
        { name := ⟨"Seal", by decide⟩
          qualifiedName := ""
          documentation := "wax"
          settings := []
          fields := []
          oneofs := [⟨⟨"mark", by decide⟩, "", [⟨.singular, ⟨"bytes", by decide⟩,
            ⟨"stamp", by decide⟩, 1, "", [⟨⟨"rules", by decide⟩, true,
              .nested ⟨"for\r\nall", by decide⟩ false
                (.map [("k", .list [.boolean true, .string text])])⟩]⟩]⟩]
          extensionRanges := [] }
        []]]

/-- A string with a backslash before `x`, and with a control character before a digit. -/
theorem literals_kept_inscribed :
    "\\x41\x010\"\r\n" ∈ (inscribed "\\x41\x010\"\r\n").strings ∧
    (∃ line ∈ Text.lines (inscribed "\\x41\x010\"\r\n").render,
      Text.quoted "\\x41\x010\"\r\n" <:+: line) ∧
    'x' ∈ Text.quoted "\x01" ∧ 0x20 ≤ 'x'.toNat ∧ 'x'.toNat ≠ 0x7f := by
  obtain ⟨-, hplain, -, -, hfile⟩ := literals_kept
  have hmem : "\\x41\x010\"\r\n" ∈ (inscribed "\\x41\x010\"\r\n").strings := by decide
  have hx : 'x' ∈ Text.quoted "\x01" := by decide
  exact ⟨hmem, (hfile _).2 _ hmem, hx, hplain _ _ hx⟩

end WireSchema
