/-
  WireSchema/Proofs/Entries.lean
  ==============================
  **The entries of a layout.**  Below a header the lines of a layout fall into
  entries: some comment lines, a line that is the head of the entry, and the lines
  that go on with it, which stand deeper or start with a closing bracket.  Which of
  the three a line is can be seen from its depth and its first character, so the
  lines alone determine the entries (`Entry.flatMap_lines_inj`), once the blank lines
  between them are left out.

  `Covers` says that the lines of a layout are those of given entries; every
  lexically valid declaration is covered by its entry.
-/
import WireSchema.Proofs.Lexical

namespace WireSchema

/-- A list is cut in one way only where its entries cease to have a property. -/
theorem append_inj_of_forall {α : Type} {p : α → Prop} {left left' right right' : List α}
    (hleft : ∀ a ∈ left, p a) (hleft' : ∀ a ∈ left', p a) (hright : ∀ a ∈ right.head?, ¬ p a)
    (hright' : ∀ a ∈ right'.head?, ¬ p a) (h : left ++ right = left' ++ right') :
    left = left' ∧ right = right' := by
  induction left generalizing left' with
  | nil =>
    cases left' with
    | nil => exact ⟨rfl, h⟩
    | cons b bs =>
      refine absurd (hleft' b List.mem_cons_self) (hright b ?_)
      rw [List.nil_append] at h
      rw [h]
      rfl
  | cons a as ih =>
    cases left' with
    | nil =>
      refine absurd (hleft a List.mem_cons_self) (hright' a ?_)
      rw [List.nil_append] at h
      rw [← h]
      rfl
    | cons b bs =>
      obtain ⟨rfl, htail⟩ := List.cons.inj h
      obtain ⟨rfl, hrest⟩ := ih (List.forall_mem_cons.mp hleft).2 (List.forall_mem_cons.mp hleft').2
        htail
      exact ⟨rfl, hrest⟩

namespace Line

/-! ### How lines stand -/

inductive Standing
  | remark
  | head
  | rest
  deriving DecidableEq, Repr

/-- What a line is among entries at `depth`. -/
def standing (depth : Nat) : Line → Standing
  | .blank => .rest
  | .text d content =>
    if d ≠ depth then .rest
    else
      match content with
      | '/' :: _ => .remark
      | '\x7d' :: _ => .rest
      | ']' :: _ => .rest
      | _ => .head

/-- A line at the given depth or deeper that does not start with a space, so that
    its depth can be read off. -/
def Within (depth : Nat) (line : Line) : Prop :=
  ∃ d c cs, line = .text d (c :: cs) ∧ depth ≤ d ∧ c ≠ ' '

theorem within_text {depth : Nat} {c : Char} {cs : Text} (hc : c ≠ ' ') :
    (text depth (c :: cs)).Within depth :=
  ⟨depth, c, cs, rfl, Nat.le_refl depth, hc⟩

theorem Within.of_succ {depth : Nat} {line : Line} (h : line.Within (depth + 1)) :
    line.Within depth := by
  obtain ⟨d, c, cs, rfl, hle, hc⟩ := h
  exact ⟨d, c, cs, rfl, by omega, hc⟩

theorem Within.standing_eq {depth : Nat} {line : Line} (h : line.Within (depth + 1)) :
    line.standing depth = .rest := by
  obtain ⟨d, c, cs, rfl, hle, -⟩ := h
  exact if_pos (by omega)

/-! ### Lines without blank ones -/

def isBlank : Line → Bool
  | .blank => true
  | .text _ _ => false

def dense (lines : List Line) : List Line := lines.filter fun line => !line.isBlank

@[simp] theorem dense_nil : dense [] = [] := rfl

@[simp] theorem dense_blank (lines : List Line) : dense (.blank :: lines) = dense lines := rfl

@[simp] theorem dense_text (depth : Nat) (content : Text) (lines : List Line) :
    dense (.text depth content :: lines) = .text depth content :: dense lines := rfl

@[simp] theorem dense_append (left right : List Line) :
    dense (left ++ right) = dense left ++ dense right :=
  List.filter_append left right

theorem dense_flatMap {α : Type} (entries : List α) (layout : α → List Line) :
    dense (entries.flatMap layout) = entries.flatMap fun entry => dense (layout entry) := by
  induction entries with
  | nil => rfl
  | cons entry entries ih => simp [ih]

theorem dense_joinBlank (parts : List (List Line)) :
    dense (joinBlank parts) = parts.flatMap dense := by
  fun_induction joinBlank parts with
  | case1 => rfl
  | case2 part => simp
  | case3 part parts hne ih => simp [ih]

theorem dense_paragraphs (parts : List (List Line)) :
    dense (paragraphs parts) = parts.flatMap dense := by
  rw [paragraphs, dense_joinBlank]
  induction parts with
  | nil => rfl
  | cons part parts ih => cases part <;> simp [ih]

theorem dense_block (depth : Nat) (header : Text) (sections : List (List Line)) :
    dense (block depth header sections) =
      if sections.flatten = [] then [.text depth (header ++ " \x7b\x7d".toList)]
      else .text depth (header ++ " \x7b".toList) :: dense sections.flatten ++
        [.text depth "\x7d".toList] := by
  have hparts : dense (joinBlank (sections.filter fun part => !part.isEmpty)) =
      dense sections.flatten := by
    rw [← paragraphs, dense_paragraphs, ← List.flatMap_id, dense_flatMap]
    rfl
  have hempty : (sections.filter fun part => !part.isEmpty) = [] ↔ sections.flatten = [] := by
    simp [List.filter_eq_nil_iff, List.flatten_eq_nil_iff]
  unfold block
  split
  · rename_i hnil
    rw [if_pos (hempty.mp hnil)]
    rfl
  · rename_i hne
    rw [if_neg fun hflatten => hne (hempty.mpr hflatten)]
    simp [hparts]

theorem dense_of_within {depth : Nat} {lines : List Line}
    (h : ∀ line ∈ lines, line.Within depth) : dense lines = lines := by
  apply List.filter_eq_self.mpr
  intro line hline
  obtain ⟨d, c, cs, rfl, -⟩ := h line hline
  rfl

end Line

/-! ### Entries -/

/-- Some comment lines, the head of a declaration, and the lines that go on with it. -/
structure Entry where
  remarks : List Text
  head : Text
  rest : List Line

namespace Entry

def lines (depth : Nat) (entry : Entry) : List Line :=
  entry.remarks.map (Line.text depth) ++ .text depth entry.head :: entry.rest

/-- The characters with which no head starts: it is neither deeper nor a comment nor
    a closing bracket. -/
def reserved : List Char := [' ', '/', '\x7d', ']']

/-- The lines of the entry stand as those of an entry at `depth`. -/
structure Formed (depth : Nat) (entry : Entry) : Prop where
  remarks : ∀ remark ∈ entry.remarks, ∃ cs, remark = '/' :: cs
  head : Text.Opens reserved entry.head
  rest : ∀ line ∈ entry.rest, line.Within depth ∧ line.standing depth = .rest

theorem Formed.standing_head {depth : Nat} {entry : Entry} (h : entry.Formed depth) :
    (Line.text depth entry.head).standing depth = .head := by
  obtain ⟨c, cs, hhead, hc⟩ := h.head
  simp only [reserved, List.mem_cons, List.not_mem_nil, or_false, not_or] at hc
  rw [hhead, Line.standing, if_neg (by simp)]
  · rintro tail heq
    exact hc.2.1 (List.cons.inj heq).1
  · rintro tail heq
    exact hc.2.2.1 (List.cons.inj heq).1
  · rintro tail heq
    exact hc.2.2.2 (List.cons.inj heq).1

theorem Formed.within {depth : Nat} {entry : Entry} (h : entry.Formed depth) :
    ∀ line ∈ entry.lines depth, line.Within depth := by
  intro line hline
  rcases List.mem_append.mp hline with hline | hline
  · obtain ⟨remark, hremark, rfl⟩ := List.mem_map.mp hline
    obtain ⟨cs, rfl⟩ := h.remarks remark hremark
    exact Line.within_text (by decide)
  · rcases List.mem_cons.mp hline with rfl | hline
    · obtain ⟨c, cs, hhead, hc⟩ := h.head
      rw [hhead]
      exact Line.within_text fun hspace => hc (by simp [reserved, hspace])
    · exact (h.rest line hline).1

/-- No entry starts with a line that goes on with another one. -/
theorem Formed.standing_ne_rest {depth : Nat} {entries : List Entry}
    (h : ∀ entry ∈ entries, entry.Formed depth) :
    ∀ line ∈ (entries.flatMap (lines depth)).head?, ¬ line.standing depth = .rest := by
  cases entries with
  | nil => exact nofun
  | cons entry entries =>
    have hentry := h entry List.mem_cons_self
    obtain ⟨remarks, head, rest⟩ := entry
    intro line hline
    cases remarks with
    | nil =>
      obtain rfl := Option.some.inj hline
      rw [hentry.standing_head]
      exact nofun
    | cons remark remarks =>
      obtain rfl := Option.some.inj hline
      obtain ⟨cs, rfl⟩ := hentry.remarks remark List.mem_cons_self
      simp [Line.standing]

theorem Formed.standing_remark {depth : Nat} {entry : Entry} (h : entry.Formed depth) :
    ∀ line ∈ entry.remarks.map (Line.text depth), line.standing depth = .remark := by
  intro line hline
  obtain ⟨remark, hremark, rfl⟩ := List.mem_map.mp hline
  obtain ⟨cs, rfl⟩ := h.remarks remark hremark
  simp [Line.standing]

/-- An entry is cut off from the entries after it in one way only. -/
theorem lines_append_inj {depth : Nat} {entry entry' : Entry} {more more' : List Line}
    (hentry : entry.Formed depth) (hentry' : entry'.Formed depth)
    (hmore : ∀ line ∈ more.head?, ¬ line.standing depth = .rest)
    (hmore' : ∀ line ∈ more'.head?, ¬ line.standing depth = .rest)
    (h : entry.lines depth ++ more = entry'.lines depth ++ more') :
    entry = entry' ∧ more = more' := by
  simp only [lines, List.append_assoc, List.cons_append] at h
  -- the first cut is where the comments end, the second where a line no longer goes on
  obtain ⟨hremarks, htail⟩ := append_inj_of_forall hentry.standing_remark hentry'.standing_remark
    (by simp [hentry.standing_head]) (by simp [hentry'.standing_head]) h
  obtain ⟨hhead, htail⟩ := List.cons.inj htail
  obtain ⟨hrest, hmore⟩ := append_inj_of_forall (fun line hline => (hentry.rest line hline).2)
    (fun line hline => (hentry'.rest line hline).2) hmore hmore' htail
  have hremarks : entry.remarks = entry'.remarks :=
    List.map_injective_iff.mpr (fun _ _ heq => (Line.text.inj heq).2) hremarks
  refine ⟨?_, hmore⟩
  obtain ⟨remarks, head, rest⟩ := entry
  simp_all

/-- **The lines determine the entries.** -/
theorem flatMap_lines_inj {depth : Nat} {entries entries' : List Entry}
    (hentries : ∀ entry ∈ entries, entry.Formed depth)
    (hentries' : ∀ entry ∈ entries', entry.Formed depth)
    (h : entries.flatMap (lines depth) = entries'.flatMap (lines depth)) : entries = entries' := by
  induction entries generalizing entries' with
  | nil =>
    cases entries' with
    | nil => rfl
    | cons entry entries' => simp [lines] at h
  | cons entry entries ih =>
    cases entries' with
    | nil => simp [lines] at h
    | cons entry' entries' =>
      obtain ⟨hfirst, hlater⟩ := List.forall_mem_cons.mp hentries
      obtain ⟨hfirst', hlater'⟩ := List.forall_mem_cons.mp hentries'
      rw [List.flatMap_cons, List.flatMap_cons] at h
      obtain ⟨rfl, hmore⟩ := lines_append_inj hfirst hfirst' (Formed.standing_ne_rest hlater)
        (Formed.standing_ne_rest hlater') h
      rw [ih hlater hlater' hmore]

end Entry

/-! ### Layouts made of entries -/

/-- The lines of a layout, blank ones aside, are those of the entries. -/
structure Covers (depth : Nat) (layout : List Line) (entries : List Entry) : Prop where
  dense : Line.dense layout = entries.flatMap (Entry.lines depth)
  formed : ∀ entry ∈ entries, entry.Formed depth
  empty : entries = [] → layout = []

namespace Covers

theorem nil (depth : Nat) : Covers depth [] [] := ⟨rfl, by simp, fun _ => rfl⟩

theorem append {depth : Nat} {left right : List Line} {entries entries' : List Entry}
    (hleft : Covers depth left entries) (hright : Covers depth right entries') :
    Covers depth (left ++ right) (entries ++ entries') := by
  refine ⟨?_, List.forall_mem_append.mpr ⟨hleft.formed, hright.formed⟩, ?_⟩
  · rw [Line.dense_append, hleft.dense, hright.dense, List.flatMap_append]
  · intro hnil
    obtain ⟨hnil, hnil'⟩ := List.append_eq_nil_iff.mp hnil
    rw [hleft.empty hnil, hright.empty hnil', List.append_nil]

/-- Declarations of one kind are covered by their entries, with blank lines between
    them or without. -/
theorem flatMap {α : Type} {depth : Nat} {decls : List α} {layout : α → List Line}
    {entry : α → Entry} (h : ∀ decl ∈ decls, Covers depth (layout decl) [entry decl]) :
    Covers depth (decls.flatMap layout) (decls.map entry) := by
  induction decls with
  | nil => exact nil depth
  | cons decl decls ih =>
    obtain ⟨hhead, htail⟩ := List.forall_mem_cons.mp h
    exact hhead.append (ih htail)

theorem paragraphs {α : Type} {depth : Nat} {decls : List α} {layout : α → List Line}
    {entry : α → Entry} (h : ∀ decl ∈ decls, Covers depth (layout decl) [entry decl]) :
    Covers depth (Line.paragraphs (decls.map layout)) (decls.map entry) := by
  refine ⟨?_, (flatMap h).formed, ?_⟩
  · rw [Line.dense_paragraphs, ← (flatMap h).dense, Line.dense_flatMap, List.flatMap_map]
  · intro hnil
    obtain rfl := List.map_eq_nil_iff.mp hnil
    rfl

end Covers

/-! ### Options -/

namespace Text

theorem opens_ofInt (value : Int) : Opens [' ', '='] (ofInt value) := by
  cases value with
  | ofNat n =>
    exact opens_of_forall Nat.toDigits_ne_nil
      (fun c hc => Nat.isDigit_of_mem_toDigits (by decide) (by decide) hc) (by decide)
  | negSucc n => exact ⟨'-', _, rfl, by decide⟩

end Text

namespace SettingValue

theorem opens_heading {name : Name} {custom : Bool}
    (h : (⟨.settingName custom, name.text⟩ : TextPart).Lexical) :
    Text.Opens [' ', '='] (heading name custom) := by
  cases custom with
  | false => exact Text.opens_of_isIdentifier h (by decide)
  | true => exact ⟨'(', _, rfl, by decide⟩

/-- The lines of a value that is put after `lead`: it starts on that line, and all
    further lines go on with it. -/
def Starts (depth : Nat) (lead : Text) (lines : List Line) : Prop :=
  ∃ content rest, lines = .text depth (lead ++ content) :: rest ∧ Text.Opens [' ', '='] content ∧
    ∀ line ∈ rest, line.Within depth ∧ line.standing depth = .rest

theorem starts_filled {token : Text} (h : Text.Opens [' ', '='] token) (depth : Nat)
    (lead trail : Text) :
    Starts depth lead (Line.filled depth (lead ++ token ++ trail)) := by
  obtain ⟨c, cs, rfl, hc⟩ := h
  exact ⟨c :: cs ++ trail, [], by simp [Line.filled], ⟨c, cs ++ trail, rfl, hc⟩, by simp⟩

/-- Bracketed items: one line, or a line for each bracket and the deeper lines of the
    items between them. -/
theorem starts_enclosed {opening closing : Char} (hopening : opening ∉ [' ', '='])
    (hclosing : closing = '\x7d' ∨ closing = ']') {depth : Nat} {lead trail : Text}
    {items : List Line} (hitems : ∀ line ∈ items, line.Within (depth + 1)) :
    Starts depth lead (.text depth (lead ++ [opening]) :: items ++
      [.text depth (closing :: trail)]) := by
  refine ⟨[opening], _, rfl, ⟨opening, [], rfl, hopening⟩, ?_⟩
  intro line hline
  rcases List.mem_append.mp hline with hline | hline
  · exact ⟨(hitems line hline).of_succ, (hitems line hline).standing_eq⟩
  · obtain rfl := List.mem_singleton.mp hline
    rcases hclosing with rfl | rfl
    · exact ⟨Line.within_text (by decide), by simp [Line.standing]⟩
    · exact ⟨Line.within_text (by decide), by simp [Line.standing]⟩

theorem Starts.within {depth : Nat} {lead : Text} {lines : List Line}
    (h : Starts depth lead lines) (hlead : lead = [] ∨ Text.Opens [' ', '='] lead) :
    ∀ line ∈ lines, line.Within depth := by
  obtain ⟨content, rest, rfl, ⟨c, cs, rfl, hc⟩, hrest⟩ := h
  refine List.forall_mem_cons.mpr ⟨?_, fun line hline => (hrest line hline).1⟩
  rcases hlead with rfl | ⟨d, ds, rfl, hd⟩
  · exact Line.within_text fun hspace => hc (by simp [hspace])
  · exact Line.within_text fun hspace => hd (by simp [hspace])

mutual

theorem starts_layout : ∀ (value : SettingValue), (∀ part ∈ value.texts, part.Lexical) →
    ∀ (depth : Nat) (lead trail : Text), Starts depth lead (value.layout depth lead trail)
  | .string text, _, depth, lead, trail => by
    rw [layout]
    exact starts_filled ⟨'"', _, rfl, by decide⟩ depth lead trail
  | .identifier text, h, depth, lead, trail => by
    have htext : Text.isIdentifier text.toList = true := h ⟨.identifier, text⟩ (by simp [texts])
    rw [layout]
    exact starts_filled (Text.opens_of_isIdentifier htext (by decide)) depth lead trail
  | .integer value, _, depth, lead, trail => by
    rw [layout]
    exact starts_filled (Text.opens_ofInt value.toInt) depth lead trail
  | .float text, h, depth, lead, trail => by
    have hfloat : Text.isFloat text.toList = true := h ⟨.float, text⟩ (by simp [texts])
    obtain ⟨hne, hchars⟩ := Text.isFloat_iff.mp hfloat
    have hopens : Text.Opens [' ', '='] text.toList :=
      Text.opens_of_forall hne hchars (by decide)
    rw [layout]
    exact starts_filled hopens depth lead trail
  | .boolean true, _, depth, lead, trail => by
    rw [layout]
    exact starts_filled ⟨'t', _, rfl, by decide⟩ depth lead trail
  | .boolean false, _, depth, lead, trail => by
    rw [layout]
    exact starts_filled ⟨'f', _, rfl, by decide⟩ depth lead trail
  | .nested name custom value, h, depth, lead, trail => by
    have hopens := opens_heading (h ⟨.settingName custom, name.text⟩ (by simp [texts]))
    have hvalue : ∀ part ∈ value.texts, part.Lexical :=
      fun part hpart => h part (by simp [texts, hpart])
    -- what the value starts with does not matter here: the heading comes first
    obtain ⟨content, rest, hlayout, -, hrest⟩ :=
      starts_layout value hvalue depth (lead ++ heading name custom ++ joint value) trail
    refine ⟨heading name custom ++ joint value ++ content, rest, ?_, ?_, hrest⟩
    · rw [layout, hlayout]
      simp only [List.append_assoc]
    · exact (hopens.append _).append _
  | .map entries, h, depth, lead, trail => by
    have hentries := within_layoutEntries entries
      (fun part hpart => h part (by simpa [texts] using hpart)) (depth + 1)
    rw [layout]
    split
    · exact ⟨"\x7b\x7d".toList ++ trail, [], by simp, ⟨'\x7b', _, rfl, by decide⟩, by simp⟩
    · exact starts_enclosed (by decide) (Or.inl rfl) hentries
  | .list values, h, depth, lead, trail => by
    have hvalues := within_layoutEach values
      (fun part hpart => h part (by simpa [texts] using hpart)) (depth + 1)
    rw [layout]
    split
    · exact ⟨"[]".toList ++ trail, [], by simp, ⟨'[', _, rfl, by decide⟩, by simp⟩
    · exact starts_enclosed (by decide) (Or.inr rfl) hvalues

theorem within_layoutEntries : ∀ (entries : List (String × SettingValue)),
    (∀ part ∈ textsOfEntries entries, part.Lexical) → ∀ (depth : Nat),
      ∀ line ∈ layoutEntries depth entries, line.Within depth
  | [], _, _ => by simp [layoutEntries]
  | (key, value) :: entries, h, depth => by
    have hkey : Text.isIdentifier key.toList = true := h ⟨.mapKey, key⟩ (by simp [textsOfEntries])
    have hlead : Text.Opens [' ', '='] (key.toList ++ ": ".toList) :=
      (Text.opens_of_isIdentifier hkey (by decide)).append _
    have hvalue := starts_layout value (fun part hpart => h part (by simp [textsOfEntries, hpart]))
      depth (key.toList ++ ": ".toList) (if entries.isEmpty then [] else [','])
    rw [layoutEntries, List.forall_mem_append]
    refine ⟨hvalue.within (Or.inr hlead), ?_⟩
    exact within_layoutEntries entries (fun part hpart => h part (by simp [textsOfEntries, hpart]))
      depth

theorem within_layoutEach : ∀ (values : List SettingValue),
    (∀ part ∈ textsOfEach values, part.Lexical) → ∀ (depth : Nat),
      ∀ line ∈ layoutEach depth values, line.Within depth
  | [], _, _ => by simp [layoutEach]
  | value :: values, h, depth => by
    have hvalue := starts_layout value (fun part hpart => h part (by simp [textsOfEach, hpart]))
      depth [] (if values.isEmpty then [] else [','])
    rw [layoutEach, List.forall_mem_append]
    refine ⟨hvalue.within (Or.inl rfl), ?_⟩
    exact within_layoutEach values (fun part hpart => h part (by simp [textsOfEach, hpart])) depth

end

end SettingValue

namespace Setting

def entry (depth : Nat) (setting : Setting) : Entry :=
  match setting.layout depth "option ".toList ";".toList with
  | .text _ content :: rest => ⟨[], content, rest⟩
  | _ => ⟨[], [], []⟩

theorem exists_entry_eq {setting : Setting} (h : ∀ part ∈ setting.texts, part.Lexical)
    (depth : Nat) : ∃ content rest,
      setting.layout depth "option ".toList ";".toList =
        .text depth ("option ".toList ++ content) :: rest ∧
      setting.entry depth = ⟨[], "option ".toList ++ content, rest⟩ ∧
      Text.Opens [' ', '='] content ∧
      ∀ line ∈ rest, line.Within depth ∧ line.standing depth = .rest := by
  obtain ⟨content, rest, hlayout, hopens, hrest⟩ :=
    setting.toValue.starts_layout h depth "option ".toList ";".toList
  change setting.layout depth _ _ = _ at hlayout
  refine ⟨content, rest, hlayout, ?_, hopens, hrest⟩
  rw [entry, hlayout]

theorem covers {setting : Setting} (h : ∀ part ∈ setting.texts, part.Lexical) (depth : Nat) :
    Covers depth (setting.layout depth "option ".toList ";".toList) [setting.entry depth] := by
  obtain ⟨content, rest, hlayout, hentry, -, hrest⟩ := exists_entry_eq h depth
  have hdense : Line.dense rest = rest :=
    Line.dense_of_within fun line hline => (hrest line hline).1
  rw [hentry, hlayout]
  refine ⟨?_, ?_, by simp⟩
  · rw [Line.dense_text, hdense]
    simp [Entry.lines]
  · refine List.forall_mem_singleton.mpr ⟨by simp, ?_, hrest⟩
    exact ⟨'o', _, rfl, by decide⟩

theorem within_layoutItems {settings : List Setting}
    (h : ∀ setting ∈ settings, ∀ part ∈ setting.texts, part.Lexical) (depth : Nat) :
    ∀ line ∈ layoutItems depth settings, line.Within depth := by
  induction settings with
  | nil => simp [layoutItems]
  | cons setting settings ih =>
    obtain ⟨hhead, htail⟩ := List.forall_mem_cons.mp h
    have hsetting := setting.toValue.starts_layout hhead depth []
      (if settings.isEmpty then [] else [','])
    rw [layoutItems, List.forall_mem_append]
    exact ⟨hsetting.within (Or.inl rfl), ih htail⟩

end Setting

/-! ### Members and blocks -/

namespace Entry

def comments (documentation : String) : List Text :=
  (Text.lines documentation.toList).map Line.remark

def member (depth : Nat) (documentation : String) (declared : Text) (settings : List Setting) :
    Entry :=
  if settings.isEmpty then ⟨comments documentation, declared ++ ";".toList, []⟩
  else ⟨comments documentation, declared ++ " [".toList,
    Setting.layoutItems (depth + 1) settings ++ [.text depth "];".toList]⟩

def block (depth : Nat) (documentation : String) (header : Text) (entries : List Entry) : Entry :=
  if entries.isEmpty then ⟨comments documentation, header ++ " \x7b\x7d".toList, []⟩
  else ⟨comments documentation, header ++ " \x7b".toList,
    entries.flatMap (lines (depth + 1)) ++ [.text depth "\x7d".toList]⟩

theorem dense_comment (depth : Nat) (documentation : String) :
    Line.dense (Line.comment depth documentation) =
      (comments documentation).map (Line.text depth) := by
  rw [Line.comment, comments, List.map_map]
  apply List.filter_eq_self.mpr
  intro line hline
  obtain ⟨text, -, rfl⟩ := List.mem_map.mp hline
  rfl

theorem exists_of_mem_comments {documentation : String} :
    ∀ remark ∈ comments documentation, ∃ cs, remark = '/' :: cs := by
  intro remark hremark
  obtain ⟨line, -, rfl⟩ := List.mem_map.mp hremark
  cases line <;> exact ⟨_, rfl⟩

theorem covers_member {declared : Text} (hdeclared : Text.Opens reserved declared)
    {settings : List Setting}
    (h : ∀ setting ∈ settings, ∀ part ∈ setting.texts, part.Lexical) (depth : Nat)
    (documentation : String) :
    Covers depth (Line.comment depth documentation ++ Setting.layoutMember depth declared settings)
      [member depth documentation declared settings] := by
  have hitems := Setting.within_layoutItems h (depth + 1)
  refine ⟨?_, List.forall_mem_singleton.mpr ?_, by simp⟩
  · unfold Setting.layoutMember member
    split
    · simp [dense_comment, lines]
    · simp [dense_comment, lines, Line.dense_of_within hitems]
  · unfold member
    split
    · exact ⟨exists_of_mem_comments, hdeclared.append _, by simp⟩
    · refine ⟨exists_of_mem_comments, hdeclared.append _, ?_⟩
      intro line hline
      rcases List.mem_append.mp hline with hline | hline
      · exact ⟨(hitems line hline).of_succ, (hitems line hline).standing_eq⟩
      · obtain rfl := List.mem_singleton.mp hline
        exact ⟨Line.within_text (by decide), by simp [Line.standing]⟩

theorem covers_block {header : Text} (hheader : Text.Opens reserved header) {depth : Nat}
    {sections : List (List Line)} {entries : List Entry}
    (h : Covers (depth + 1) sections.flatten entries) (documentation : String) :
    Covers depth (Line.comment depth documentation ++ Line.block depth header sections)
      [block depth documentation header entries] := by
  -- the braces stand on one line in the layout if and only if they do in the entry
  have hiff : sections.flatten = [] ↔ entries = [] := by
    refine ⟨?_, h.empty⟩
    intro hnil
    have hdense := h.dense
    rw [hnil] at hdense
    cases entries with
    | nil => rfl
    | cons entry entries => simp [lines] at hdense
  refine ⟨?_, List.forall_mem_singleton.mpr ?_, by simp⟩
  · rw [Line.dense_append, dense_comment, Line.dense_block, h.dense]
    by_cases hnil : entries = []
    · simp [hiff, hnil, block, lines]
    · simp [hiff, hnil, block, lines]
  · unfold block
    split
    · exact ⟨exists_of_mem_comments, hheader.append _, by simp⟩
    · refine ⟨exists_of_mem_comments, hheader.append _, ?_⟩
      intro line hline
      rcases List.mem_append.mp hline with hline | hline
      · obtain ⟨entry, hentry, hline⟩ := List.mem_flatMap.mp hline
        have hwithin := (h.formed entry hentry).within line hline
        exact ⟨hwithin.of_succ, hwithin.standing_eq⟩
      · obtain rfl := List.mem_singleton.mp hline
        exact ⟨Line.within_text (by decide), by simp [Line.standing]⟩

end Entry

/-! ### The entries of declarations -/

def EnumValue.declared (value : EnumValue) : Text :=
  value.name.text.toList ++ " = ".toList ++ Text.ofInt value.tag.toInt

def EnumValue.entry (depth : Nat) (value : EnumValue) : Entry :=
  Entry.member depth value.documentation value.declared value.settings

def Field.entry (depth : Nat) (field : Field) : Entry :=
  Entry.member depth field.documentation field.declared field.settings

def Oneof.entry (depth : Nat) (oneof : Oneof) : Entry :=
  Entry.block depth oneof.documentation ("oneof ".toList ++ oneof.name.text.toList)
    (oneof.fields.map (Field.entry (depth + 1)))

def ExtensionRange.declared (range : ExtensionRange) : Text :=
  "extensions ".toList ++ Text.ofInt range.first.toInt ++ range.tail

def ExtensionRange.entry (depth : Nat) (range : ExtensionRange) : Entry :=
  Entry.member depth range.documentation range.declared []

def EnumDecl.body (depth : Nat) (decl : EnumDecl) : List Entry :=
  decl.settings.map (Setting.entry depth) ++ decl.values.map (EnumValue.entry depth)

def EnumDecl.entry (depth : Nat) (decl : EnumDecl) : Entry :=
  Entry.block depth decl.documentation ("enum ".toList ++ decl.name.text.toList)
    (decl.body (depth + 1))

/-- The entries inside a message, given those of its nested types. -/
def MessageCore.bodyWith (depth : Nat) (core : MessageCore) (nested : List Entry) : List Entry :=
  core.settings.map (Setting.entry depth) ++ core.fields.map (Field.entry depth) ++
    core.oneofs.map (Oneof.entry depth) ++
    core.extensionRanges.map (ExtensionRange.entry depth) ++ nested

def MessageCore.entryWith (depth : Nat) (core : MessageCore) (nested : List Entry) : Entry :=
  Entry.block depth core.documentation ("message ".toList ++ core.name.text.toList)
    (core.bodyWith (depth + 1) nested)

namespace TypeDecl

mutual

def entry (depth : Nat) : TypeDecl → Entry
  | .enum decl => decl.entry depth
  | .message core nested => core.entryWith depth (entries (depth + 1) nested)

def entries (depth : Nat) : List TypeDecl → List Entry
  | [] => []
  | t :: ts => entry depth t :: entries depth ts

end

theorem entries_eq_map (depth : Nat) (ts : List TypeDecl) :
    entries depth ts = ts.map (entry depth) := by
  induction ts with
  | nil => rfl
  | cons t ts ih => simp [entries, ih]

end TypeDecl

/-! ### Declarations are covered by their entries -/

theorem EnumValue.covers {value : EnumValue} (h : ∀ part ∈ value.texts, part.Lexical)
    (depth : Nat) : Covers depth (value.layout depth) [value.entry depth] := by
  simp only [texts, List.forall_mem_cons, List.forall_mem_flatMap] at h
  obtain ⟨-, hname, hsettings⟩ := h
  have hopens : Text.Opens Entry.reserved value.declared :=
    ((Text.opens_of_isIdentifier hname (by decide)).append _).append _
  exact Entry.covers_member hopens hsettings depth value.documentation

theorem Field.opens_declared {field : Field}
    (h : Text.isTypeRef field.typeRef.text.toList = true) :
    Text.Opens Entry.reserved field.declared := by
  obtain ⟨hne, -, hchars⟩ := Text.isTypeRef_iff.mp h
  have htype : Text.Opens Entry.reserved field.typeRef.text.toList :=
    Text.opens_of_forall hne hchars (by decide)
  have hlead : Text.Opens Entry.reserved (field.label.lead ++ field.typeRef.text.toList) := by
    cases hlabel : field.label with
    | singular => exact htype
    | required => exact ⟨'r', _, rfl, by decide⟩
    | optional => exact ⟨'o', _, rfl, by decide⟩
    | repeated => exact ⟨'r', _, rfl, by decide⟩
  exact (((hlead.append _).append _).append _).append _

theorem Field.covers {field : Field} (h : ∀ part ∈ field.texts, part.Lexical) (depth : Nat) :
    Covers depth (field.layout depth) [field.entry depth] := by
  simp only [texts, List.forall_mem_cons, List.forall_mem_flatMap] at h
  obtain ⟨-, htype, -, hsettings⟩ := h
  exact Entry.covers_member (opens_declared htype) hsettings depth field.documentation

theorem Oneof.covers_body {oneof : Oneof} (h : ∀ part ∈ oneof.texts, part.Lexical)
    (depth : Nat) : Covers depth (oneof.fields.flatMap (Field.layout depth))
      (oneof.fields.map (Field.entry depth)) := by
  simp only [texts, List.forall_mem_cons, List.forall_mem_flatMap] at h
  obtain ⟨-, -, hfields⟩ := h
  exact Covers.flatMap fun field hfield => Field.covers (hfields field hfield) depth

theorem Oneof.covers {oneof : Oneof} (h : ∀ part ∈ oneof.texts, part.Lexical) (depth : Nat) :
    Covers depth (oneof.layout depth) [oneof.entry depth] := by
  refine Entry.covers_block ⟨'o', _, rfl, by decide⟩ ?_ oneof.documentation
  simpa using covers_body h (depth + 1)

theorem ExtensionRange.covers (range : ExtensionRange) (depth : Nat) :
    Covers depth (range.layout depth) [range.entry depth] := by
  have hopens : Text.Opens Entry.reserved range.declared := ⟨'e', _, rfl, by decide⟩
  exact @Entry.covers_member _ hopens [] (by simp) depth range.documentation

theorem Setting.covers_statements {settings : List Setting}
    (h : ∀ setting ∈ settings, ∀ part ∈ setting.texts, part.Lexical) (depth : Nat) :
    Covers depth (layoutStatements depth settings) (settings.map (entry depth)) :=
  Covers.flatMap fun setting hsetting => Setting.covers (h setting hsetting) depth

theorem EnumDecl.covers_body {decl : EnumDecl} (h : ∀ part ∈ decl.texts, part.Lexical)
    (depth : Nat) : Covers depth
      (Setting.layoutStatements depth decl.settings ++
        decl.values.flatMap (EnumValue.layout depth))
      (decl.body depth) := by
  simp only [texts, List.forall_mem_cons, List.forall_mem_append, List.forall_mem_flatMap] at h
  obtain ⟨-, -, hsettings, hvalues⟩ := h
  exact (Setting.covers_statements hsettings depth).append
    (Covers.flatMap fun value hvalue => EnumValue.covers (hvalues value hvalue) depth)

theorem EnumDecl.covers {decl : EnumDecl} (h : ∀ part ∈ decl.texts, part.Lexical) (depth : Nat) :
    Covers depth (decl.layout depth) [decl.entry depth] := by
  refine Entry.covers_block ⟨'e', _, rfl, by decide⟩ ?_ decl.documentation
  simpa using covers_body h (depth + 1)

theorem MessageCore.covers_body {core : MessageCore} (h : ∀ part ∈ core.texts, part.Lexical)
    {depth : Nat} {nested : List TypeDecl}
    (hnested : ∀ t ∈ nested, Covers depth (t.layout depth) [t.entry depth]) :
    Covers depth
      (Setting.layoutStatements depth core.settings ++ core.fields.flatMap (Field.layout depth) ++
        Line.paragraphs (core.oneofs.map (Oneof.layout depth)) ++
        core.extensionRanges.flatMap (ExtensionRange.layout depth) ++
        Line.paragraphs (nested.map (TypeDecl.layout depth)))
      (core.bodyWith depth (nested.map (TypeDecl.entry depth))) := by
  simp only [texts, List.forall_mem_cons, List.forall_mem_append, List.forall_mem_flatMap] at h
  obtain ⟨-, -, ⟨⟨hsettings, hfields⟩, honeofs⟩, -⟩ := h
  have hmembers := Covers.flatMap fun field hfield => Field.covers (hfields field hfield) depth
  have hgroups := Covers.paragraphs fun oneof honeof => Oneof.covers (honeofs oneof honeof) depth
  have hranges : Covers depth (core.extensionRanges.flatMap (ExtensionRange.layout depth))
      (core.extensionRanges.map (ExtensionRange.entry depth)) :=
    Covers.flatMap fun range _ => range.covers depth
  exact ((((Setting.covers_statements hsettings depth).append hmembers).append hgroups).append
    hranges).append (Covers.paragraphs hnested)

theorem MessageCore.covers {core : MessageCore} (h : ∀ part ∈ core.texts, part.Lexical)
    {depth : Nat} {nested : List TypeDecl}
    (hnested : ∀ t ∈ nested, Covers (depth + 1) (t.layout (depth + 1)) [t.entry (depth + 1)]) :
    Covers depth (core.layoutWith depth (nested.map (TypeDecl.layout (depth + 1))))
      [core.entryWith depth (nested.map (TypeDecl.entry (depth + 1)))] := by
  refine Entry.covers_block ⟨'m', _, rfl, by decide⟩ ?_ core.documentation
  simpa using covers_body h hnested

namespace TypeDecl

mutual

theorem covers : ∀ (t : TypeDecl), (∀ part ∈ t.texts, part.Lexical) → ∀ (depth : Nat),
    Covers depth (t.layout depth) [t.entry depth]
  | .enum decl, h, depth => by
    rw [layout, entry]
    exact EnumDecl.covers h depth
  | .message core nested, h, depth => by
    simp only [texts, List.forall_mem_append] at h
    rw [layout, entry, layoutEach_eq_map, entries_eq_map]
    exact MessageCore.covers h.1 (coversEach nested h.2 (depth + 1))

theorem coversEach : ∀ (ts : List TypeDecl), (∀ part ∈ textsOfEach ts, part.Lexical) →
    ∀ (depth : Nat), ∀ t ∈ ts, Covers depth (t.layout depth) [t.entry depth]
  | [], _, _ => by simp
  | t :: ts, h, depth => by
    simp only [textsOfEach, List.forall_mem_append] at h
    exact List.forall_mem_cons.mpr ⟨covers t h.1 depth, coversEach ts h.2 depth⟩

end

end TypeDecl

end WireSchema
