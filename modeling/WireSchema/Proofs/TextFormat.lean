/-
  WireSchema/Proofs/TextFormat.lean
  =================================
  **Maps and lists in text form.**  `TextFormat` is the grammar of text-format values:
  string literals, identifiers, numbers and truth values, and maps and lists of such
  values.  Whitespace outside of literals does not count, so it speaks of squeezed texts.

  A map is written with one pair for each entry and a list with one value for each item,
  in order, and all values but one kind follow the grammar.  The exception are settings
  nested in a map or list: they are written `name = value` there as they are in a
  statement, and the grammar has no equals sign.  So a lexically valid value follows the
  grammar exactly if no setting is nested in it.
-/
import WireSchema.Proofs.Readable
import WireSchema.Proofs.Squeezed
import WireSchema.Proofs.WellFormed

namespace WireSchema

namespace Text

/-! ### Tokens -/

/-- A text whose characters all stand for themselves in a squeezed text. -/
def Solid (text : Text) : Prop := ∀ c ∈ text, IsMark c

theorem Solid.lexed {text : Text} (h : Solid text) : Lexed text :=
  Lexed.of_not_mem fun hquote => (h '"' hquote).1 rfl

theorem Solid.squeeze_eq {text : Text} (h : Solid text) : squeeze text = text := by
  induction text with
  | nil => rfl
  | cons c cs ih =>
    obtain ⟨hhead, htail⟩ := List.forall_mem_cons.mp h
    rw [squeeze_mark hhead, ih htail]

theorem Solid.append {left right : Text} (h : Solid left) (h' : Solid right) :
    Solid (left ++ right) :=
  List.forall_mem_append.mpr ⟨h, h'⟩

/-- The characters that a squeezed text treats in a way of their own. -/
def special : List Char := ['"', ' ', '\t', '\r', '\n']

theorem isMark_of_not_mem {c : Char} (h : c ∉ special) : IsMark c := by
  simp only [special, List.mem_cons, List.not_mem_nil, or_false, not_or] at h
  obtain ⟨hquote, hspace, htab, hreturn, hfeed⟩ := h
  refine ⟨hquote, ?_⟩
  simp [Char.isWhitespace, hspace, htab, hreturn, hfeed]

theorem solid_of_forall {text : Text} {p : Char → Bool} (h : ∀ c ∈ text, p c = true)
    (hspecial : special.any p = false) : Solid text := by
  intro c hc
  apply isMark_of_not_mem
  intro hmem
  exact List.any_eq_false.mp hspecial c hmem (h c hc)

theorem solid_of_isIdentifier {text : Text} (h : isIdentifier text = true) : Solid text :=
  solid_of_forall (fun _ hc => isWordChar_of_isIdentifier h hc) (by decide)

theorem solid_of_isFloat {text : Text} (h : isFloat text = true) : Solid text :=
  solid_of_forall (isFloat_iff.mp h).2 (by decide)

theorem solid_ofInt (value : Int) : Solid (ofInt value) :=
  solid_of_forall (fun _ hc => isFloatChar_of_mem_ofInt hc) (by decide)

theorem solid_of_isDotted {text : Text} (h : isDotted text = true) : Solid text := by
  refine @solid_of_forall text (fun c => isWordChar c || c == '.') ?_ (by decide)
  intro c hc
  by_contra hother
  simp only [Bool.or_eq_true, beq_iff_eq, not_or, Bool.not_eq_true] at hother
  exact not_mem_of_isDotted h hother.1 hother.2 hc

def isDigits (text : Text) : Bool := text != [] && text.all Char.isDigit

/-- Digits, after a minus sign or not. -/
def isInteger : Text → Bool
  | '-' :: digits => isDigits digits
  | digits => isDigits digits

theorem isDigits_toDigits (n : Nat) : isDigits (Nat.toDigits 10 n) = true := by
  simp only [isDigits, Bool.and_eq_true, bne_iff_ne, List.all_eq_true]
  refine ⟨Nat.toDigits_ne_nil, ?_⟩
  intro c hc
  exact Nat.isDigit_of_mem_toDigits (by decide) (by decide) hc

theorem isInteger_ofInt (value : Int) : isInteger (ofInt value) = true := by
  cases value with
  | negSucc n => exact isDigits_toDigits (n + 1)
  | ofNat n =>
    have hdigits := isDigits_toDigits n
    rw [ofInt]
    unfold isInteger
    split
    · rename_i digits heq
      rw [heq] at hdigits
      exact absurd hdigits (by simp [isDigits])
    · exact hdigits

end Text

/-! ### The grammar -/

/-- The values of the text format, without whitespace outside of literals. -/
inductive TextFormat : Text → Prop
  | string {literal : Text} {s : String} (h : Text.scan literal = some (s, [])) :
    TextFormat literal
  | identifier {text : Text} (h : Text.isIdentifier text = true) : TextFormat text
  | integer {text : Text} (h : Text.isInteger text = true) : TextFormat text
  | float {text : Text} (h : Text.isFloat text = true) : TextFormat text
  | truth : TextFormat "true".toList
  | falsity : TextFormat "false".toList
  | map {pairs : List (Text × Text)} (hkeys : ∀ pair ∈ pairs, Text.isIdentifier pair.1 = true)
    (hvalues : ∀ pair ∈ pairs, TextFormat pair.2) :
    TextFormat ('\x7b' :: Text.commaJoined (pairs.map fun pair => pair.1 ++ ':' :: pair.2) ++
      ['\x7d'])
  | list {items : List Text} (h : ∀ item ∈ items, TextFormat item) :
    TextFormat ('[' :: Text.commaJoined items ++ [']'])

/-! ### No equals sign -/

namespace Text

/-- There is an equals sign in the text outside of its literals. -/
def HasEquals (text : Text) : Prop := ('=', true) ∈ marked text

theorem not_hasEquals_of_not_mem {text : Text} (h : '=' ∉ text) : ¬ HasEquals text := by
  intro hequals
  apply h
  rw [← map_fst_markedFrom .outside text]
  exact List.mem_map_of_mem hequals

theorem hasEquals_append {left : Text} (h : Closed left) (right : Text) :
    HasEquals (left ++ right) ↔ HasEquals left ∨ HasEquals right := by
  rw [HasEquals, marked_append h, List.mem_append]
  rfl

theorem hasEquals_cons {c : Char} (hquote : c ≠ '"') (hc : c ≠ '=') (text : Text) :
    HasEquals (c :: text) ↔ HasEquals text := by
  rw [HasEquals, marked_cons hquote, List.mem_cons]
  simp [Ne.symm hc, HasEquals]

theorem closed_commaJoined {items : List Text} (h : ∀ item ∈ items, Closed item) :
    Closed (commaJoined items) := by
  induction items with
  | nil => rfl
  | cons item items ih =>
    obtain ⟨hhead, htail⟩ := List.forall_mem_cons.mp h
    rw [commaJoined_cons]
    refine (hhead.append ?_).append (ih htail)
    split
    · rfl
    · rfl

theorem hasEquals_commaJoined {items : List Text} (h : ∀ item ∈ items, Closed item) :
    HasEquals (commaJoined items) ↔ ∃ item ∈ items, HasEquals item := by
  induction items with
  | nil => simp [commaJoined_nil, HasEquals]
  | cons item items ih =>
    obtain ⟨hhead, htail⟩ := List.forall_mem_cons.mp h
    rw [commaJoined_cons, List.append_assoc, hasEquals_append hhead, List.exists_mem_cons_iff,
      ← ih htail]
    split
    · rfl
    · rw [List.singleton_append, hasEquals_cons (by decide) (by decide)]

theorem closed_bracketed {opening closing : Char} (hopening : opening ≠ '"')
    (hclosing : closing ≠ '"') {items : List Text} (h : ∀ item ∈ items, Closed item) :
    Closed (opening :: commaJoined items ++ [closing]) :=
  ((closed_singleton hopening).append (closed_commaJoined h)).append (closed_singleton hclosing)

/-- Neither the brackets around items nor the commas between them are equals signs. -/
theorem hasEquals_bracketed {opening closing : Char} (hopening : opening ≠ '"')
    (hopening' : opening ≠ '=') (hclosing : closing ≠ '=') {items : List Text}
    (h : ∀ item ∈ items, Closed item) :
    HasEquals (opening :: commaJoined items ++ [closing]) ↔ ∃ item ∈ items, HasEquals item := by
  have hlast : ¬ HasEquals [closing] :=
    not_hasEquals_of_not_mem fun hmem => hclosing (List.mem_singleton.mp hmem).symm
  rw [List.cons_append, hasEquals_cons hopening hopening', hasEquals_append (closed_commaJoined h),
    hasEquals_commaJoined h, or_iff_left hlast]

theorem isFloatChar_of_isInteger {text : Text} (h : isInteger text = true) :
    ∀ c ∈ text, isFloatChar c = true := by
  have hdigits : ∀ digits : Text, isDigits digits = true → ∀ c ∈ digits, isFloatChar c = true := by
    intro digits hdigits c hc
    simp only [isDigits, Bool.and_eq_true, List.all_eq_true] at hdigits
    simp [isFloatChar, hdigits.2 c hc]
  unfold isInteger at h
  split at h
  · exact List.forall_mem_cons.mpr ⟨by decide, hdigits _ h⟩
  · exact hdigits _ h

end Text

/-- A text of the grammar is closed, and has no equals sign outside of its literals. -/
theorem TextFormat.closed_and_not_hasEquals {text : Text} (h : TextFormat text) :
    text.Closed ∧ ¬ text.HasEquals := by
  induction h with
  | string h =>
    obtain ⟨hclosed, hmarks⟩ := Text.closed_of_scan h
    refine ⟨hclosed, ?_⟩
    intro hequals
    exact absurd (hmarks _ hequals rfl) (by decide)
  | identifier h =>
    exact ⟨(Text.solid_of_isIdentifier h).lexed.closed,
      Text.not_hasEquals_of_not_mem (Text.not_mem_of_isIdentifier h (by decide))⟩
  | integer h =>
    have hchars := Text.isFloatChar_of_isInteger h
    refine ⟨(Text.solid_of_forall hchars (by decide)).lexed.closed, ?_⟩
    exact Text.not_hasEquals_of_not_mem fun hequals => absurd (hchars _ hequals) (by decide)
  | float h =>
    exact ⟨(Text.solid_of_isFloat h).lexed.closed,
      Text.not_hasEquals_of_not_mem (Text.not_mem_of_isFloat h (by decide))⟩
  | truth => exact ⟨rfl, Text.not_hasEquals_of_not_mem (by decide)⟩
  | falsity => exact ⟨rfl, Text.not_hasEquals_of_not_mem (by decide)⟩
  | @map pairs hkeys _ ih =>
    have hkey : ∀ pair ∈ pairs, pair.1.Closed :=
      fun pair hpair => (Text.solid_of_isIdentifier (hkeys pair hpair)).lexed.closed
    have hclosed : ∀ item ∈ pairs.map fun pair => pair.1 ++ ':' :: pair.2, Text.Closed item := by
      rw [List.forall_mem_map]
      intro pair hpair
      exact (hkey pair hpair).append
        ((Text.closed_singleton (by decide)).append (ih pair hpair).1)
    refine ⟨Text.closed_bracketed (by decide) (by decide) hclosed, ?_⟩
    rw [Text.hasEquals_bracketed (by decide) (by decide) (by decide) hclosed]
    rintro ⟨item, hitem, hequals⟩
    obtain ⟨pair, hpair, rfl⟩ := List.mem_map.mp hitem
    rw [Text.hasEquals_append (hkey pair hpair), Text.hasEquals_cons (by decide) (by decide)]
      at hequals
    rcases hequals with hequals | hequals
    · exact Text.not_hasEquals_of_not_mem
        (Text.not_mem_of_isIdentifier (hkeys pair hpair) (by decide)) hequals
    · exact (ih pair hpair).2 hequals
  | @list items _ ih =>
    have hclosed : ∀ item ∈ items, item.Closed := fun item hitem => (ih item hitem).1
    refine ⟨Text.closed_bracketed (by decide) (by decide) hclosed, ?_⟩
    rw [Text.hasEquals_bracketed (by decide) (by decide) (by decide) hclosed]
    rintro ⟨item, hitem, hequals⟩
    exact (ih item hitem).2 hequals

namespace SettingValue

/-! ### Values without whitespace -/

section Lexical

variable {entries : List (String × SettingValue)} {values : List SettingValue} {name : Name}
  {custom : Bool} {value : SettingValue}

theorem lexical_map_iff : (∀ part ∈ texts (.map entries), part.Lexical) ↔
    ∀ entry ∈ entries, Text.isIdentifier entry.1.toList = true ∧
      ∀ part ∈ entry.2.texts, part.Lexical := by
  rw [texts, textsOfEntries_eq_flatMap, List.forall_mem_flatMap]
  constructor
  · intro h entry hentry
    exact List.forall_mem_cons.mp (h entry hentry)
  · intro h entry hentry
    exact List.forall_mem_cons.mpr (h entry hentry)

theorem lexical_list_iff : (∀ part ∈ texts (.list values), part.Lexical) ↔
    ∀ value ∈ values, ∀ part ∈ value.texts, part.Lexical := by
  rw [texts, textsOfEach_eq_flatMap, List.forall_mem_flatMap]

theorem lexical_nested_iff : (∀ part ∈ texts (.nested name custom value), part.Lexical) ↔
    TextPart.Lexical ⟨.settingName custom, name.text⟩ ∧ ∀ part ∈ value.texts, part.Lexical := by
  rw [texts, List.forall_mem_cons]

theorem solid_heading (h : TextPart.Lexical ⟨.settingName custom, name.text⟩) :
    Text.Solid (heading name custom) := by
  cases custom with
  | false => exact Text.solid_of_isIdentifier h
  | true =>
    have hopening : Text.Solid ['('] := List.forall_mem_singleton.mpr (by decide)
    have hclosing : Text.Solid [')'] := List.forall_mem_singleton.mpr (by decide)
    exact (hopening.append (Text.solid_of_isDotted h)).append hclosing

theorem lexed_joint (value : SettingValue) : Text.Lexed value.joint := by
  apply Text.Lexed.of_not_mem
  cases value <;> simp [joint]

theorem lexed_entry {key : String} (hkey : Text.isIdentifier key.toList = true) {text : Text}
    (h : Text.Lexed text) : Text.Lexed (key.toList ++ ':' :: ' ' :: text) :=
  (Text.solid_of_isIdentifier hkey).lexed.append (.char (by decide) (.char (by decide) h))

theorem squeeze_entry {key : String} (hkey : Text.isIdentifier key.toList = true) (text : Text) :
    Text.squeeze (key.toList ++ ':' :: ' ' :: text) = key.toList ++ ':' :: Text.squeeze text := by
  have hsolid := Text.solid_of_isIdentifier hkey
  rw [Text.squeeze_append hsolid.lexed.closed, hsolid.squeeze_eq, Text.squeeze_mark (by decide),
    Text.squeeze_cons (by decide)]
  rfl

theorem lexed_render (h : ∀ part ∈ value.texts, part.Lexical) : Text.Lexed value.render := by
  induction value using inductionOnItems with
  | string text => simpa [render] using Text.Lexed.literal text .nil
  | identifier text => exact (Text.solid_of_isIdentifier (h _ List.mem_cons_self)).lexed
  | integer value => exact (Text.solid_ofInt _).lexed
  | float text => exact (Text.solid_of_isFloat (h _ List.mem_cons_self)).lexed
  | boolean value =>
    apply Text.Lexed.of_not_mem
    cases value <;> simp [render]
  | nested name custom value ih =>
    obtain ⟨hname, hvalue⟩ := lexical_nested_iff.mp h
    rw [render]
    exact ((solid_heading hname).lexed.append value.lexed_joint).append (ih hvalue)
  | map entries ih =>
    rw [render, renderEntries_eq_map]
    apply Text.Lexed.enclosed (by decide) (by decide)
    rw [List.forall_mem_map]
    intro entry hentry
    obtain ⟨hkey, hvalue⟩ := lexical_map_iff.mp h entry hentry
    exact lexed_entry hkey (ih entry hentry hvalue)
  | list values ih =>
    rw [render, renderEach_eq_map]
    apply Text.Lexed.enclosed (by decide) (by decide)
    rw [List.forall_mem_map]
    exact fun value hvalue => ih value hvalue (lexical_list_iff.mp h value hvalue)

/-- A map is one pair for each entry. -/
theorem squeeze_render_map (h : ∀ part ∈ texts (.map entries), part.Lexical) :
    Text.squeeze (render (.map entries)) =
      '\x7b' :: Text.commaJoined (entries.map fun entry =>
        entry.1.toList ++ ':' :: Text.squeeze entry.2.render) ++ ['\x7d'] := by
  rw [render, renderEntries_eq_map, Text.squeeze_enclosed (by decide) (by decide), List.map_map]
  · congr 3
    apply List.map_congr_left
    intro entry hentry
    exact squeeze_entry (lexical_map_iff.mp h entry hentry).1 _
  · rw [List.forall_mem_map]
    intro entry hentry
    obtain ⟨hkey, hvalue⟩ := lexical_map_iff.mp h entry hentry
    exact lexed_entry hkey (lexed_render hvalue)

/-- A list is one value for each item. -/
theorem squeeze_render_list (h : ∀ part ∈ texts (.list values), part.Lexical) :
    Text.squeeze (render (.list values)) =
      '[' :: Text.commaJoined (values.map fun value => Text.squeeze value.render) ++ [']'] := by
  rw [render, renderEach_eq_map, Text.squeeze_enclosed (by decide) (by decide), List.map_map]
  · rfl
  · rw [List.forall_mem_map]
    exact fun value hvalue => lexed_render (lexical_list_iff.mp h value hvalue)

/-- A nested setting is its name, a dot or an equals sign, and its value. -/
theorem squeeze_render_nested
    (h : ∀ part ∈ texts (.nested name custom value), part.Lexical) :
    Text.squeeze (render (.nested name custom value)) =
      heading name custom ++ Text.squeeze value.joint ++ Text.squeeze value.render := by
  have hname := solid_heading (lexical_nested_iff.mp h).1
  rw [render, Text.squeeze_append (hname.lexed.append value.lexed_joint).closed,
    Text.squeeze_append hname.lexed.closed, hname.squeeze_eq]

/-! ### Values and the grammar -/

/-- A value in which no setting is nested follows the grammar. -/
theorem textFormat_of_settings_eq_nil (h : ∀ part ∈ value.texts, part.Lexical)
    (hnone : value.settings = []) : TextFormat (Text.squeeze value.render) := by
  induction value using inductionOnItems with
  | string text =>
    rw [render, Text.squeeze_quoted]
    exact .string (Text.scan_quoted_nil text)
  | identifier text =>
    have hword : Text.isIdentifier text.toList = true := h _ List.mem_cons_self
    rw [render, (Text.solid_of_isIdentifier hword).squeeze_eq]
    exact .identifier hword
  | integer value =>
    rw [render, (Text.solid_ofInt _).squeeze_eq]
    exact .integer (Text.isInteger_ofInt _)
  | float text =>
    have hfloat : Text.isFloat text.toList = true := h _ List.mem_cons_self
    rw [render, (Text.solid_of_isFloat hfloat).squeeze_eq]
    exact .float hfloat
  | boolean value =>
    cases value with
    | true => exact .truth
    | false => exact .falsity
  | nested name custom value => exact nomatch hnone
  | map entries ih =>
    rw [settings, settingsOfEntries_eq_flatMap, List.flatMap_eq_nil_iff] at hnone
    have hpairs := @TextFormat.map
      (entries.map fun entry => (entry.1.toList, Text.squeeze entry.2.render))
    rw [List.map_map] at hpairs
    rw [squeeze_render_map h]
    apply hpairs
    · rw [List.forall_mem_map]
      exact fun entry hentry => (lexical_map_iff.mp h entry hentry).1
    · rw [List.forall_mem_map]
      exact fun entry hentry =>
        ih entry hentry (lexical_map_iff.mp h entry hentry).2 (hnone entry hentry)
  | list values ih =>
    rw [settings, settingsOfEach_eq_flatMap, List.flatMap_eq_nil_iff] at hnone
    rw [squeeze_render_list h]
    apply TextFormat.list
    rw [List.forall_mem_map]
    exact fun value hvalue => ih value hvalue (lexical_list_iff.mp h value hvalue)
      (hnone value hvalue)

/-- A nested setting is written with an equals sign, before its value or, if the value
    continues its name, further inside. -/
theorem hasEquals_of_settings_ne_nil (h : ∀ part ∈ value.texts, part.Lexical)
    (hsome : value.settings ≠ []) : (Text.squeeze value.render).HasEquals := by
  induction value using inductionOnItems with
  | nested name custom value ih =>
    have hvalue := (lexical_nested_iff.mp h).2
    have hclosed := (solid_heading (lexical_nested_iff.mp h).1).lexed.closed
    rw [squeeze_render_nested h, Text.hasEquals_append (hclosed.append
      value.lexed_joint.squeeze.closed), Text.hasEquals_append hclosed]
    cases value with
    | nested => exact Or.inr (ih hvalue (List.cons_ne_nil _ _))
    | _ => exact Or.inl (Or.inr (List.mem_singleton.mpr rfl))
  | map entries ih =>
    rw [settings, settingsOfEntries_eq_flatMap, ne_eq, List.flatMap_eq_nil_iff] at hsome
    push Not at hsome
    obtain ⟨entry, hentry, hinner⟩ := hsome
    obtain ⟨hkey, hvalue⟩ := lexical_map_iff.mp h entry hentry
    rw [squeeze_render_map h, Text.hasEquals_bracketed (by decide) (by decide) (by decide)]
    · refine ⟨_, List.mem_map_of_mem hentry, ?_⟩
      rw [Text.hasEquals_append (Text.solid_of_isIdentifier hkey).lexed.closed,
        Text.hasEquals_cons (by decide) (by decide)]
      exact Or.inr (ih entry hentry hvalue hinner)
    · rw [List.forall_mem_map]
      intro other hother
      obtain ⟨hkey, hvalue⟩ := lexical_map_iff.mp h other hother
      exact (Text.solid_of_isIdentifier hkey).lexed.closed.append
        ((Text.closed_singleton (by decide)).append (lexed_render hvalue).squeeze.closed)
  | list values ih =>
    rw [settings, settingsOfEach_eq_flatMap, ne_eq, List.flatMap_eq_nil_iff] at hsome
    push Not at hsome
    obtain ⟨value, hmem, hinner⟩ := hsome
    have hvalue := lexical_list_iff.mp h value hmem
    rw [squeeze_render_list h, Text.hasEquals_bracketed (by decide) (by decide) (by decide)]
    · exact ⟨_, List.mem_map_of_mem hmem, ih value hmem hvalue hinner⟩
    · rw [List.forall_mem_map]
      exact fun other hother => (lexed_render (lexical_list_iff.mp h other hother)).squeeze.closed
  | _ => exact absurd rfl hsome

end Lexical

/-- **A value follows the text format exactly if no setting is nested in it.**  Squeezed, a
    map is one pair for each entry, a list is one value for each item, both in order, and a
    nested setting is its name, a dot or an equals sign, and its value. -/
theorem textFormat_iff_settings_eq_nil (value : SettingValue)
    (h : ∀ part ∈ value.texts, part.Lexical) :
    (TextFormat (Text.squeeze value.render) ↔ value.settings = []) ∧
    (∀ entries, value = .map entries → Text.squeeze value.render =
      '\x7b' :: Text.commaJoined (entries.map fun entry =>
        entry.1.toList ++ ':' :: Text.squeeze entry.2.render) ++ ['\x7d']) ∧
    (∀ values, value = .list values → Text.squeeze value.render =
      '[' :: Text.commaJoined (values.map fun item => Text.squeeze item.render) ++ [']']) ∧
    (∀ name custom inner, value = .nested name custom inner → Text.squeeze value.render =
      heading name custom ++ Text.squeeze inner.joint ++ Text.squeeze inner.render) := by
  refine ⟨⟨?_, textFormat_of_settings_eq_nil h⟩, ?_, ?_, ?_⟩
  · intro hformat
    by_contra hsome
    exact hformat.closed_and_not_hasEquals.2 (hasEquals_of_settings_ne_nil h hsome)
  · rintro entries rfl
    exact squeeze_render_map h
  · rintro values rfl
    exact squeeze_render_list h
  · rintro name custom inner rfl
    exact squeeze_render_nested h

/-- A map with a string and a list in it, and no setting. -/
def schedule : SettingValue :=
  .map [("title", .string "a = b"), ("steps", .list [.integer 1, .float "2.5", .boolean true])]

theorem textFormat_schedule :
    (∀ part ∈ schedule.texts, part.Lexical) ∧ TextFormat (Text.squeeze schedule.render) := by
  have hlexical : ∀ part ∈ schedule.texts, part.Lexical := by decide
  exact ⟨hlexical, (textFormat_iff_settings_eq_nil schedule hlexical).1.mpr rfl⟩

end SettingValue

namespace Setting

/-- A custom setting with a setting as the value of a map entry. -/
def ceiling : Setting :=
  ⟨⟨"limits", by decide⟩, true, .map [("upper", .nested ⟨"max", by decide⟩ false (.integer 5))]⟩

theorem obtainable_ceiling : ceiling.Obtainable := by
  have hinner : (⟨⟨"max", by decide⟩, false, .integer 5⟩ : Setting).Obtainable :=
    .made (.integer 5) (make_eq_ok_iff.mpr ⟨rfl, rfl, rfl, rfl⟩)
  refine .made (.map ?_) (make_eq_ok_iff.mpr ⟨rfl, rfl, rfl, by decide⟩)
  exact List.forall_mem_singleton.mpr (.nested hinner)

/-- Not every map or list that can be obtained is written in text form. -/
theorem not_always_textFormat :
    ¬ ∀ setting : Setting, setting.Obtainable → (∀ part ∈ setting.texts, part.Lexical) →
      (∃ entries, setting.value = .map entries) ∨ (∃ values, setting.value = .list values) →
        TextFormat (Text.squeeze setting.value.render) := by
  intro hall
  have hlexical : ∀ part ∈ ceiling.texts, part.Lexical := by decide
  have hformat := hall ceiling obtainable_ceiling hlexical (Or.inl ⟨_, rfl⟩)
  refine hformat.closed_and_not_hasEquals.2 (SettingValue.hasEquals_of_settings_ne_nil ?_ ?_)
  · exact (List.forall_mem_cons.mp hlexical).2
  · exact List.cons_ne_nil _ _

end Setting

end WireSchema
