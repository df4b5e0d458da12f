/-
  WireSchema/Proofs/Flat.lean
  ===========================
  **Options on one line.**  The flat text of an option is what remains of its lines
  when they are put one after the other without their margins.  It has a form of its
  own, in which nothing is indented: the items of a map or list follow each other
  directly, with a comma after each but the last.

  Of lexically valid options the lines can be found in the rendered text, and so can
  the flat text.  Two options that render alike are alike on one line, too.
-/
import WireSchema.Proofs.Skeleton

namespace WireSchema

/-! ### Flat text -/

namespace Text

/-- Items with commas between them. -/
def commaJoined (items : List Text) : Text := (withCommas items).flatten

theorem commaJoined_nil : commaJoined [] = [] := rfl

theorem commaJoined_cons (item : Text) (items : List Text) :
    commaJoined (item :: items) =
      item ++ (if items.isEmpty then [] else [',']) ++ commaJoined items := by
  cases items with
  | nil => simp [commaJoined, withCommas]
  | cons next rest => simp [commaJoined, withCommas]

end Text

namespace SettingValue

mutual

/-- A value as it would be written without line breaks. -/
def flat : SettingValue → Text
  | .string text => Text.quoted text
  | .identifier text => text.toList
  | .integer value => Text.ofInt value.toInt
  | .float text => text.toList
  | .boolean true => "true".toList
  | .boolean false => "false".toList
  | .nested name custom value => heading name custom ++ joint value ++ flat value
  | .map entries => '\x7b' :: Text.commaJoined (flatEntries entries) ++ ['\x7d']
  | .list values => '[' :: Text.commaJoined (flatEach values) ++ [']']

def flatEntries : List (String × SettingValue) → List Text
  | [] => []
  | (key, value) :: entries => (key.toList ++ ": ".toList ++ flat value) :: flatEntries entries

def flatEach : List SettingValue → List Text
  | [] => []
  | value :: values => flat value :: flatEach values

end

/-- An entry of a map on one line. -/
def flatEntry (entry : String × SettingValue) : Text :=
  entry.1.toList ++ ": ".toList ++ entry.2.flat

theorem flatEntries_eq_map (entries : List (String × SettingValue)) :
    flatEntries entries = entries.map flatEntry := by
  induction entries with
  | nil => rfl
  | cons entry entries ih => simp [flatEntries, flatEntry, ih]

theorem flatEach_eq_map (values : List SettingValue) : flatEach values = values.map flat := by
  induction values with
  | nil => rfl
  | cons value values ih => simp [flatEach, ih]

end SettingValue

def Setting.flat (setting : Setting) : Text := setting.toValue.flat

/-- A setting as a statement, on one line. -/
def Setting.flatStatement (setting : Setting) : Text :=
  "option ".toList ++ setting.flat ++ ";".toList

/-! ### The contents of lines -/

namespace Line

def content : Line → Text
  | .blank => []
  | .text _ content => content

/-- What lines hold, one after the other and without their margins. -/
def contents (lines : List Line) : Text := lines.flatMap content

@[simp] theorem contents_nil : contents [] = [] := rfl

@[simp] theorem contents_cons (line : Line) (lines : List Line) :
    contents (line :: lines) = line.content ++ contents lines := rfl

@[simp] theorem contents_append (left right : List Line) :
    contents (left ++ right) = contents left ++ contents right := List.flatMap_append

@[simp] theorem contents_filled (depth : Nat) (text : Text) :
    contents (filled depth text) = text := by
  cases text with
  | nil => rfl
  | cons c cs => simp [filled, content]

end Line

/-- The text determines the contents of its lines, if no line starts with a space. -/
theorem LaidOut.contents_eq {text text' : Text} {layout layout' : Nat → List Line}
    (h : LaidOut text layout) (h' : LaidOut text' layout')
    (hwithin : ∀ line ∈ layout 0, line.Within 0) (hwithin' : ∀ line ∈ layout' 0, line.Within 0)
    (heq : text = text') : Line.contents (layout 0) = Line.contents (layout' 0) := by
  have hlines : layout 0 = layout' 0 := by
    apply Line.map_body_inj (fun line hline => Or.inr (hwithin line hline))
      (fun line hline => Or.inr (hwithin' line hline))
    rw [← Line.lines_writeAll (h.plain 0), ← Line.lines_writeAll (h'.plain 0), ← h.written,
      ← h'.written, heq]
  rw [hlines]

namespace SettingValue

mutual

/-- A value that spans lines holds its flat text, between what leads to it and what
    trails it. -/
theorem contents_layout : ∀ (value : SettingValue) (depth : Nat) (lead trail : Text),
    Line.contents (value.layout depth lead trail) = lead ++ value.flat ++ trail
  | .string _, _, _, _ => by simp [layout, flat]
  | .identifier _, _, _, _ => by simp [layout, flat]
  | .integer _, _, _, _ => by simp [layout, flat]
  | .float _, _, _, _ => by simp [layout, flat]
  | .boolean true, _, _, _ => by simp [layout, flat]
  | .boolean false, _, _, _ => by simp [layout, flat]
  | .nested name custom value, depth, lead, trail => by
    rw [layout, contents_layout value depth, flat]
    simp only [List.append_assoc]
  | .map entries, depth, lead, trail => by
    rw [layout, flat]
    split
    · rename_i hempty
      simp [List.isEmpty_iff.mp hempty, flatEntries, Text.commaJoined_nil, Line.content]
    · simp [Line.content, contents_layoutEntries entries (depth + 1)]
  | .list values, depth, lead, trail => by
    rw [layout, flat]
    split
    · rename_i hempty
      simp [List.isEmpty_iff.mp hempty, flatEach, Text.commaJoined_nil, Line.content]
    · simp [Line.content, contents_layoutEach values (depth + 1)]

theorem contents_layoutEntries : ∀ (entries : List (String × SettingValue)) (depth : Nat),
    Line.contents (layoutEntries depth entries) = Text.commaJoined (flatEntries entries)
  | [], _ => rfl
  | (key, value) :: entries, depth => by
    have hempty : (flatEntries entries).isEmpty = entries.isEmpty := by
      simp [flatEntries_eq_map]
    rw [layoutEntries, Line.contents_append, contents_layout value depth,
      contents_layoutEntries entries depth, flatEntries, Text.commaJoined_cons, hempty]

theorem contents_layoutEach : ∀ (values : List SettingValue) (depth : Nat),
    Line.contents (layoutEach depth values) = Text.commaJoined (flatEach values)
  | [], _ => rfl
  | value :: values, depth => by
    have hempty : (flatEach values).isEmpty = values.isEmpty := by
      simp [flatEach_eq_map]
    rw [layoutEach, Line.contents_append, contents_layout value depth,
      contents_layoutEach values depth, flatEach, Text.commaJoined_cons, hempty, List.nil_append]

end

end SettingValue

namespace Setting

theorem contents_layout (setting : Setting) (depth : Nat) (lead trail : Text) :
    Line.contents (setting.layout depth lead trail) = lead ++ setting.flat ++ trail :=
  setting.toValue.contents_layout depth lead trail

theorem contents_layoutItems (settings : List Setting) (depth : Nat) :
    Line.contents (layoutItems depth settings) = Text.commaJoined (settings.map flat) := by
  induction settings with
  | nil => rfl
  | cons setting settings ih =>
    simp [layoutItems, contents_layout, ih, Text.commaJoined_cons]

theorem contents_layoutStatements (settings : List Setting) (depth : Nat) :
    Line.contents (layoutStatements depth settings) = settings.flatMap flatStatement := by
  induction settings with
  | nil => rfl
  | cons setting settings ih =>
    rw [layoutStatements, List.flatMap_cons, Line.contents_append, contents_layout,
      List.flatMap_cons]
    exact congrArg _ ih

/-! ### From rendered text to flat text -/

variable {setting setting' : Setting} {settings settings' : List Setting}

theorem flat_eq_of_render_eq (h : ∀ part ∈ setting.texts, part.Lexical)
    (h' : ∀ part ∈ setting'.texts, part.Lexical) (heq : setting.render = setting'.render) :
    setting.flat = setting'.flat := by
  have hlaid := compact (fun part hpart => (h part hpart).unbroken) (by decide : Text.Clean [])
    (by decide : Text.Clean [])
  have hlaid' := compact (fun part hpart => (h' part hpart).unbroken) (by decide : Text.Clean [])
    (by decide : Text.Clean [])
  have hcontents := hlaid.toLaidOut.contents_eq hlaid'.toLaidOut
    ((setting.toValue.starts_layout h 0 [] []).within (Or.inl rfl))
    ((setting'.toValue.starts_layout h' 0 [] []).within (Or.inl rfl)) (by rw [heq])
  simpa only [contents_layout, List.nil_append, List.append_nil] using hcontents

theorem within_layoutStatements
    (h : ∀ setting ∈ settings, ∀ part ∈ setting.texts, part.Lexical) :
    ∀ line ∈ layoutStatements 0 settings, line.Within 0 := by
  intro line hline
  obtain ⟨setting, hsetting, hmem⟩ := List.mem_flatMap.mp hline
  have hstarts := setting.toValue.starts_layout (h setting hsetting) 0 "option ".toList ";".toList
  exact hstarts.within (Or.inr ⟨'o', _, rfl, by decide⟩) line hmem

theorem flat_eq_of_statements_eq (h : ∀ setting ∈ settings, ∀ part ∈ setting.texts, part.Lexical)
    (h' : ∀ setting ∈ settings', ∀ part ∈ setting.texts, part.Lexical)
    (heq : statements settings = statements settings') :
    settings.flatMap flatStatement = settings'.flatMap flatStatement := by
  have hlaid := laidOut_statements fun setting hsetting part hpart =>
    (h setting hsetting part hpart).unbroken
  have hlaid' := laidOut_statements fun setting hsetting part hpart =>
    (h' setting hsetting part hpart).unbroken
  have hcontents := hlaid.contents_eq hlaid' (within_layoutStatements h)
    (within_layoutStatements h') heq
  simpa only [contents_layoutStatements] using hcontents

theorem flat_eq_of_itemLines_eq (h : ∀ setting ∈ settings, ∀ part ∈ setting.texts, part.Lexical)
    (h' : ∀ setting ∈ settings', ∀ part ∈ setting.texts, part.Lexical)
    (heq : Text.itemLines (settings.map render) = Text.itemLines (settings'.map render)) :
    Text.commaJoined (settings.map flat) = Text.commaJoined (settings'.map flat) := by
  have hlaid := compact_items fun setting hsetting part hpart =>
    (h setting hsetting part hpart).unbroken
  have hlaid' := compact_items fun setting hsetting part hpart =>
    (h' setting hsetting part hpart).unbroken
  have hcontents := hlaid.toLaidOut.contents_eq hlaid'.toLaidOut
    (fun line hline => (within_layoutItems h 1 line hline).of_succ)
    (fun line hline => (within_layoutItems h' 1 line hline).of_succ) heq
  simpa only [contents_layoutItems] using hcontents

end Setting

end WireSchema
