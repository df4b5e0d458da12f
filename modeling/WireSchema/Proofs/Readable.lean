/-
  WireSchema/Proofs/Readable.lean
  ===============================
  **Options are uniquely readable.**  Two options that are written alike are the same
  option, and so it is for the two ways of writing several.  Beyond lexical validity
  this asks that no identifier is a truth value and that a float literal looks like
  one; strings may hold anything.

  The argument is about flat text, in which every value ends before a comma, a closing
  bracket, a semicolon or the end.

    * The kind of a value is read off the text (`SettingKind.ofText`), mostly from its
      first character, and for words from the character after the word.
    * A value of known kind can be cut off in one way only (`SettingValue.readable`), by
      induction on the value.
-/
import WireSchema.Codec.Setting
import WireSchema.Proofs.Flat
import WireSchema.Proofs.Literal

namespace WireSchema

/-! ### Legible texts -/

namespace Text

def isWordStart (c : Char) : Bool := c.isAlpha || c == '_'

def isTruth (text : Text) : Bool := text == "true".toList || text == "false".toList

/-- The characters that a numeral can start with. -/
def isNumeralStart (c : Char) : Bool := c.isDigit || c == '-' || c == '.'

/-- The characters that only numerals of floats have. -/
def isFloatMark (c : Char) : Bool := c == '.' || c == 'e' || c == 'E'

theorem isAlpha_of_isDigit {c : Char} (h : c.isDigit = true) : c.isAlpha = false := by
  have hle : c.toNat ≤ 57 := by
    simp only [Char.isDigit, Bool.and_eq_true, decide_eq_true_eq] at h
    exact h.2
  have hnot : ∀ n : Nat, 57 < n → ¬ n ≤ c.toNat := by
    intro n hn hge
    omega
  change (decide (65 ≤ c.toNat ∧ c.toNat ≤ 90) || decide (97 ≤ c.toNat) && decide (c.toNat ≤ 122)) =
    false
  simp [hnot]

theorem isWordStart_of_isNumeralStart {c : Char} (h : isNumeralStart c = true) :
    isWordStart c = false := by
  simp only [isNumeralStart, Bool.or_eq_true, beq_iff_eq] at h
  rcases h with (hdigit | rfl) | rfl
  · have hunder : c ≠ '_' := by
      rintro rfl
      exact nomatch hdigit
    simp [isWordStart, isAlpha_of_isDigit hdigit, hunder]
  · decide
  · decide

end Text

/-- Whether a text can play its role and cannot be taken for something else. -/
def TextPart.isLegible (part : TextPart) : Bool :=
  part.isLexical &&
    match part.role with
    | .identifier => !Text.isTruth part.text.toList
    | .float =>
      part.text.toList.head?.any Text.isNumeralStart && part.text.toList.any Text.isFloatMark
    | _ => true

def TextPart.Legible (part : TextPart) : Prop := part.isLegible = true

instance (part : TextPart) : Decidable part.Legible :=
  inferInstanceAs (Decidable (part.isLegible = true))

theorem TextPart.Legible.lexical {part : TextPart} (h : part.Legible) : part.Lexical := by
  simp only [Legible, isLegible, Bool.and_eq_true] at h
  exact h.1

def SettingValue.Legible (value : SettingValue) : Prop := ∀ part ∈ value.texts, part.Legible

/-- The key and the value of a map entry are legible. -/
def SettingValue.LegibleEntry (entry : String × SettingValue) : Prop :=
  (⟨.mapKey, entry.1⟩ : TextPart).Legible ∧ entry.2.Legible

def Setting.Legible (setting : Setting) : Prop := ∀ part ∈ setting.texts, part.Legible

namespace SettingValue

theorem legible_identifier_iff {text : String} : (identifier text).Legible ↔
    Text.isIdentifier text.toList = true ∧ Text.isTruth text.toList = false := by
  simp [Legible, texts, TextPart.Legible, TextPart.isLegible, TextPart.isLexical]

theorem legible_float_iff {text : String} : (float text).Legible ↔
    Text.isFloat text.toList = true ∧ text.toList.head?.any Text.isNumeralStart = true ∧
      text.toList.any Text.isFloatMark = true := by
  simp [Legible, texts, TextPart.Legible, TextPart.isLegible, TextPart.isLexical]

theorem legible_nested_iff {name : Name} {custom : Bool} {value : SettingValue} :
    (nested name custom value).Legible ↔
      (⟨.settingName custom, name.text⟩ : TextPart).Legible ∧ value.Legible := by
  simp [Legible, texts]

theorem legible_map_iff {entries : List (String × SettingValue)} :
    (map entries).Legible ↔ ∀ entry ∈ entries, LegibleEntry entry := by
  rw [Legible, texts]
  induction entries with
  | nil => simp [textsOfEntries]
  | cons entry entries ih =>
    simp only [textsOfEntries, List.cons_append, List.forall_mem_cons, List.forall_mem_append, ih,
      LegibleEntry, Legible, and_assoc]

theorem legible_list_iff {values : List SettingValue} :
    (list values).Legible ↔ ∀ value ∈ values, value.Legible := by
  rw [Legible, texts]
  induction values with
  | nil => simp [textsOfEach]
  | cons value values ih =>
    simp only [textsOfEach, List.forall_mem_cons, List.forall_mem_append, ih, Legible]

end SettingValue

/-! ### Where a value ends -/

namespace Text

/-- The characters that can follow a value. -/
def enders : List Char := [',', '\x7d', ']', ';']

/-- The text is at its end, or goes on after a value. -/
def Ended (text : Text) : Prop := ∀ c ∈ text.head?, c ∈ enders

theorem ended_nil : Ended [] := by
  intro c hc
  exact nomatch hc

theorem ended_cons {c : Char} (hc : c ∈ enders) (text : Text) : Ended (c :: text) := by
  intro d hd
  obtain rfl := Option.some.inj hd
  exact hc

theorem Ended.head?_not {text : Text} (h : Ended text) {p : Char → Bool}
    (hp : enders.any p = false) : ∀ c ∈ text.head?, ¬ p c = true := by
  intro c hc
  exact List.any_eq_false.mp hp c (h c hc)

/-- A token of characters that cannot follow a value is cut off in one way only. -/
theorem token_unique {p : Char → Bool} (hp : enders.any p = false) {token token' r s : Text}
    (h : ∀ c ∈ token, p c = true) (h' : ∀ c ∈ token', p c = true) (hr : Ended r) (hs : Ended s)
    (heq : token ++ r = token' ++ s) : token = token' ∧ r = s :=
  append_inj_of_forall h h' (hr.head?_not hp) (hs.head?_not hp) heq

theorem string_unique {p : Char → Bool} (hp : enders.any p = false) {text text' : String}
    {r s : Text} (h : ∀ c ∈ text.toList, p c = true) (h' : ∀ c ∈ text'.toList, p c = true)
    (hr : Ended r) (hs : Ended s) (heq : text.toList ++ r = text'.toList ++ s) :
    text = text' ∧ r = s := by
  obtain ⟨htext, hrest⟩ := token_unique hp h h' hr hs heq
  exact ⟨String.toList_inj.mp htext, hrest⟩

/-- The longest beginning of a token and what follows it are the token and what follows
    it. -/
theorem takeWhile_token {p : Char → Bool} {token r : Text} (h : ∀ c ∈ token, p c = true)
    (hr : ∀ c ∈ r.head?, ¬ p c = true) :
    (token ++ r).takeWhile p = token ∧ (token ++ r).dropWhile p = r := by
  rw [List.takeWhile_append_of_pos h, List.dropWhile_append_of_pos h]
  cases r with
  | nil => simp
  | cons c cs =>
    have hc : ¬ p c = true := hr c rfl
    simp [hc]

end Text

/-! ### Reading the kind of a value -/

namespace SettingKind

/-- The kind of a value that starts with a word: it is the name of a setting if the
    text goes on as a setting does. -/
def ofWord (word after : Text) : SettingKind :=
  if after.head? = some '.' ∨ after.head? = some ' ' then .nested
  else if Text.isTruth word then .boolean
  else .identifier

def ofNumeral (numeral : Text) : SettingKind :=
  if numeral.any Text.isFloatMark then .float else .integer

/-- The kind of the value that a text starts with. -/
def ofText : Text → Option SettingKind
  | [] => none
  | c :: cs =>
    if c = '"' then some .string
    else if c = '\x7b' then some .map
    else if c = '[' then some .list
    else if c = '(' then some .nested
    else if Text.isWordStart c then
      some (ofWord ((c :: cs).takeWhile Text.isWordChar) ((c :: cs).dropWhile Text.isWordChar))
    else some (ofNumeral ((c :: cs).takeWhile Text.isFloatChar))

theorem ofText_word {word after : Text} (hword : Text.isIdentifier word = true)
    (hafter : ∀ c ∈ after.head?, ¬ Text.isWordChar c = true) :
    ofText (word ++ after) = some (ofWord word after) := by
  obtain ⟨htake, hdrop⟩ := Text.takeWhile_token
    (fun c hc => Text.isWordChar_of_isIdentifier hword hc) hafter
  cases word with
  | nil => exact absurd hword Bool.false_ne_true
  | cons c cs =>
    have hstart : Text.isWordStart c = true := by
      simp only [Text.isIdentifier, Bool.and_eq_true] at hword
      exact hword.1
    have hne : ∀ d : Char, Text.isWordStart d = false → c ≠ d := by
      intro d hd
      apply ne_of_apply_ne Text.isWordStart
      rw [hstart, hd]
      decide
    rw [List.cons_append, ofText, if_neg (hne _ (by decide)), if_neg (hne _ (by decide)),
      if_neg (hne _ (by decide)), if_neg (hne _ (by decide)), if_pos hstart, ← List.cons_append,
      htake, hdrop]

theorem ofText_numeral {numeral after : Text} (hall : ∀ c ∈ numeral, Text.isFloatChar c = true)
    (hstart : numeral.head?.any Text.isNumeralStart = true)
    (hafter : ∀ c ∈ after.head?, ¬ Text.isFloatChar c = true) :
    ofText (numeral ++ after) = some (ofNumeral numeral) := by
  obtain ⟨htake, -⟩ := Text.takeWhile_token hall hafter
  cases numeral with
  | nil => exact nomatch hstart
  | cons c cs =>
    have hfirst : Text.isNumeralStart c = true := hstart
    have hne : ∀ d : Char, Text.isNumeralStart d = false → c ≠ d := by
      intro d hd
      apply ne_of_apply_ne Text.isNumeralStart
      rw [hfirst, hd]
      decide
    have hword : ¬ Text.isWordStart c = true := by
      rw [Text.isWordStart_of_isNumeralStart hfirst]
      exact Bool.false_ne_true
    rw [List.cons_append, ofText, if_neg (hne _ (by decide)), if_neg (hne _ (by decide)),
      if_neg (hne _ (by decide)), if_neg (hne _ (by decide)), if_neg hword, ← List.cons_append,
      htake]

end SettingKind

namespace Text

/-- The characters of an integer are digits and the minus sign. -/
theorem mem_ofInt {c : Char} {value : Int} (h : c ∈ ofInt value) : c.isDigit = true ∨ c = '-' := by
  by_contra hc
  rw [not_or, Bool.not_eq_true] at hc
  exact not_mem_ofInt hc.1 hc.2 value h

theorem isFloatChar_of_mem_ofInt {c : Char} {value : Int} (h : c ∈ ofInt value) :
    isFloatChar c = true := by
  rcases mem_ofInt h with hdigit | rfl
  · simp [isFloatChar, hdigit]
  · decide

theorem ofInt_head?_any (value : Int) : (ofInt value).head?.any isNumeralStart = true := by
  obtain ⟨c, cs, hcs, -⟩ := opens_ofInt value
  have hc : c ∈ ofInt value := by
    rw [hcs]
    exact List.mem_cons_self
  rw [hcs]
  rcases mem_ofInt hc with hdigit | rfl
  · simp [isNumeralStart, hdigit]
  · rfl

theorem ofInt_any_isFloatMark (value : Int) : (ofInt value).any isFloatMark = false := by
  rw [List.any_eq_false]
  intro c hc hmark
  simp only [isFloatMark, Bool.or_eq_true, beq_iff_eq] at hmark
  rcases mem_ofInt hc with hdigit | rfl
  · rcases hmark with (rfl | rfl) | rfl
    · exact nomatch hdigit
    · exact nomatch hdigit
    · exact nomatch hdigit
  · exact absurd hmark (by decide)

end Text

namespace SettingValue

def kind : SettingValue → SettingKind
  | .string _ => .string
  | .identifier _ => .identifier
  | .integer _ => .integer
  | .float _ => .float
  | .boolean _ => .boolean
  | .nested _ _ _ => .nested
  | .map _ => .map
  | .list _ => .list

/-- After the name of a setting the text goes on with a dot or a space. -/
theorem joint_head? (value : SettingValue) (after : Text) :
    (value.joint ++ after).head? = some '.' ∨ (value.joint ++ after).head? = some ' ' := by
  cases value with
  | nested => exact Or.inl rfl
  | _ => exact Or.inr rfl

theorem joint_head?_not (value : SettingValue) (after : Text) :
    ∀ c ∈ (value.joint ++ after).head?, ¬ Text.isWordChar c = true := by
  intro c hc
  rcases value.joint_head? after with h | h
  · obtain rfl := Option.some.inj (h.symm.trans hc)
    decide
  · obtain rfl := Option.some.inj (h.symm.trans hc)
    decide

theorem ofWord_of_ended {word after : Text} (h : Text.Ended after) :
    SettingKind.ofWord word after = if Text.isTruth word then .boolean else .identifier := by
  rw [SettingKind.ofWord, if_neg]
  rintro (hdot | hspace)
  · exact absurd (h _ hdot) (by decide)
  · exact absurd (h _ hspace) (by decide)

/-- **The kind of a legible value can be read off its text.** -/
theorem ofText_flat {value : SettingValue} (h : value.Legible) {after : Text}
    (hafter : Text.Ended after) : SettingKind.ofText (value.flat ++ after) = some value.kind := by
  cases value with
  | string text => simp [flat, Text.quoted, SettingKind.ofText, kind]
  | identifier text =>
    obtain ⟨hword, htruth⟩ := legible_identifier_iff.mp h
    rw [flat, SettingKind.ofText_word hword (hafter.head?_not (by decide)), ofWord_of_ended hafter,
      htruth]
    rfl
  | integer value =>
    rw [flat, SettingKind.ofText_numeral (fun c hc => Text.isFloatChar_of_mem_ofInt hc)
      (Text.ofInt_head?_any _) (hafter.head?_not (by decide)), SettingKind.ofNumeral,
      Text.ofInt_any_isFloatMark]
    rfl
  | float text =>
    obtain ⟨hfloat, hstart, hmark⟩ := legible_float_iff.mp h
    rw [flat, SettingKind.ofText_numeral (Text.isFloat_iff.mp hfloat).2 hstart
      (hafter.head?_not (by decide)), SettingKind.ofNumeral, if_pos hmark]
    rfl
  | boolean value =>
    cases value with
    | true =>
      rw [flat, SettingKind.ofText_word (by decide) (hafter.head?_not (by decide)),
        ofWord_of_ended hafter]
      rfl
    | false =>
      rw [flat, SettingKind.ofText_word (by decide) (hafter.head?_not (by decide)),
        ofWord_of_ended hafter]
      rfl
  | nested name custom value =>
    obtain ⟨hname, -⟩ := legible_nested_iff.mp h
    rw [flat, List.append_assoc, List.append_assoc]
    cases custom with
    | true => simp [heading, SettingKind.ofText, kind]
    | false =>
      have hword : Text.isIdentifier name.text.toList = true := hname.lexical
      rw [heading, if_neg Bool.false_ne_true,
        SettingKind.ofText_word hword (value.joint_head?_not _), SettingKind.ofWord,
        if_pos (value.joint_head? _)]
      rfl
  | map entries => simp [flat, SettingKind.ofText, kind]
  | list values => simp [flat, SettingKind.ofText, kind]

end SettingValue

theorem SettingValue.kind_eq_of_flat_append {value value' : SettingValue} (h : value.Legible)
    (h' : value'.Legible) {r s : Text} (hr : Text.Ended r) (hs : Text.Ended s)
    (heq : value.flat ++ r = value'.flat ++ s) : value.kind = value'.kind := by
  have hread := ofText_flat h hr
  rw [heq, ofText_flat h' hs] at hread
  exact (Option.some.inj hread).symm

/-! ### Reading in one way only -/

/-- The text of `a` cannot be read as that of another value, nor cut off elsewhere. -/
def Readable {α : Type} (text : α → Text) (P : α → Prop) (a : α) : Prop :=
  ∀ ⦃b : α⦄ ⦃r s : Text⦄, P b → Text.Ended r → Text.Ended s →
    text a ++ r = text b ++ s → a = b ∧ r = s

namespace Text

theorem ended_after (items : List Text) {closing : Char} (hclosing : closing ∈ enders) (r : Text) :
    Ended ((if items.isEmpty then [] else [',']) ++ (commaJoined items ++ closing :: r)) := by
  cases items with
  | nil => exact ended_cons hclosing r
  | cons item items => exact ended_cons (by decide) _

/-- Items that are read in one way only are so between commas, up to the bracket that
    closes them. -/
theorem commaJoined_unique {α : Type} {text : α → Text} {P : α → Prop} {closing : Char}
    (hclosing : closing ∈ enders) (hcomma : closing ≠ ',')
    (hopens : ∀ a, P a → Opens [closing] (text a)) {as bs : List α} {r s : Text}
    (has : ∀ a ∈ as, P a ∧ Readable text P a) (hbs : ∀ b ∈ bs, P b)
    (h : commaJoined (as.map text) ++ closing :: r = commaJoined (bs.map text) ++ closing :: s) :
    as = bs ∧ r = s := by
  -- an item cannot start with the closing bracket
  have hmore : ∀ {a : α} {items : List Text} {r s : Text}, P a →
      closing :: s ≠ commaJoined (text a :: items) ++ closing :: r := by
    intro a items r s ha heq
    obtain ⟨c, cs, hcs, hc⟩ := hopens a ha
    rw [commaJoined_cons, hcs] at heq
    exact hc (List.mem_singleton.mpr (List.cons.inj heq).1.symm)
  induction as generalizing bs with
  | nil =>
    cases bs with
    | nil => exact ⟨rfl, (List.cons.inj h).2⟩
    | cons b bs => exact absurd h (hmore (hbs b List.mem_cons_self))
  | cons a as ih =>
    obtain ⟨⟨ha, hread⟩, hatail⟩ := List.forall_mem_cons.mp has
    cases bs with
    | nil => exact absurd h.symm (hmore ha)
    | cons b bs =>
      obtain ⟨hb, hbtail⟩ := List.forall_mem_cons.mp hbs
      simp only [List.map_cons, commaJoined_cons, List.append_assoc] at h
      obtain ⟨rfl, hrest⟩ := hread hb (ended_after _ hclosing r) (ended_after _ hclosing s) h
      cases as with
      | nil =>
        cases bs with
        | nil => exact ⟨rfl, (List.cons.inj hrest).2⟩
        | cons b' bs => exact absurd (List.cons.inj hrest).1 hcomma
      | cons a' as =>
        cases bs with
        | nil => exact absurd (List.cons.inj hrest).1.symm hcomma
        | cons b' bs =>
          obtain ⟨hsame, hafter⟩ := ih hatail hbtail (List.cons.inj hrest).2
          exact ⟨by rw [hsame], hafter⟩

end Text

namespace SettingValue

/-- The name of a setting is read in one way only, up to what stands before its value. -/
theorem heading_unique {name name' : Name} {custom custom' : Bool} {r s : Text}
    (h : (⟨.settingName custom, name.text⟩ : TextPart).Legible)
    (h' : (⟨.settingName custom', name'.text⟩ : TextPart).Legible)
    (hr : ∀ c ∈ r.head?, ¬ Text.isWordChar c = true)
    (hs : ∀ c ∈ s.head?, ¬ Text.isWordChar c = true)
    (heq : heading name custom ++ r = heading name' custom' ++ s) :
    name = name' ∧ custom = custom' ∧ r = s := by
  have hparen : ∀ {name : Name} {r : Text}, (⟨.settingName false, name.text⟩ : TextPart).Legible →
      ∀ rest, name.text.toList ++ r ≠ '(' :: rest := by
    intro name r hname rest heq
    obtain ⟨c, cs, hcs, hc⟩ := @Text.opens_of_isIdentifier ['('] _ hname.lexical (by decide)
    rw [hcs] at heq
    exact hc (List.mem_singleton.mpr (List.cons.inj heq).1)
  cases custom with
  | true =>
    cases custom' with
    | true =>
      have hclosed : ')' ∉ name.text.toList :=
        Text.not_mem_of_isDotted h.lexical (by decide) (by decide)
      have hclosed' : ')' ∉ name'.text.toList :=
        Text.not_mem_of_isDotted h'.lexical (by decide) (by decide)
      simp only [heading, if_true, List.cons_append, List.append_assoc, List.nil_append,
        List.cons.injEq, true_and] at heq
      obtain ⟨hname, hrest⟩ := append_cons_inj hclosed hclosed' heq
      exact ⟨Name.eq_of_toList_eq hname, rfl, hrest⟩
    | false => exact absurd heq.symm (hparen h' _)
  | false =>
    cases custom' with
    | true => exact absurd heq (hparen h _)
    | false =>
      obtain ⟨hname, hrest⟩ := append_inj_of_forall
        (fun c hc => Text.isWordChar_of_isIdentifier h.lexical hc)
        (fun c hc => Text.isWordChar_of_isIdentifier h'.lexical hc) hr hs heq
      exact ⟨Name.eq_of_toList_eq hname, rfl, hrest⟩

theorem joint_unique {value value' : SettingValue} {r s : Text}
    (h : value.joint ++ r = value'.joint ++ s) : r = s := by
  have hjoint : ∀ value : SettingValue, value.joint = ['.'] ∨ value.joint = [' ', '=', ' '] := by
    intro value
    cases value with
    | nested => exact Or.inl rfl
    | _ => exact Or.inr rfl
  rcases hjoint value with hdot | hequals
  · rcases hjoint value' with hdot' | hequals'
    · simpa [hdot, hdot'] using h
    · simp [hdot, hequals'] at h
  · rcases hjoint value' with hdot' | hequals'
    · simp [hequals, hdot'] at h
    · simpa [hequals, hequals'] using h

theorem boolean_unique {value value' : Bool} {r s : Text}
    (h : (boolean value).flat ++ r = (boolean value').flat ++ s) :
    boolean value = boolean value' ∧ r = s := by
  cases value with
  | true =>
    cases value' with
    | true => exact ⟨rfl, List.append_cancel_left h⟩
    | false => exact absurd (List.cons.inj h).1 (by decide)
  | false =>
    cases value' with
    | true => exact absurd (List.cons.inj h).1 (by decide)
    | false => exact ⟨rfl, List.append_cancel_left h⟩

theorem opens_flat {value : SettingValue} (h : value.Legible) :
    Text.Opens [']'] value.flat := by
  cases value with
  | string text => exact ⟨'"', _, by rw [flat, Text.quoted]; rfl, by decide⟩
  | identifier text =>
    rw [flat]
    exact Text.opens_of_isIdentifier (legible_identifier_iff.mp h).1 (by decide)
  | integer value =>
    obtain ⟨c, cs, hcs, -⟩ := Text.opens_ofInt value.toInt
    rw [flat]
    exact Text.opens_of_forall (by simp [hcs]) (fun c hc => Text.isFloatChar_of_mem_ofInt hc)
      (by decide)
  | float text =>
    obtain ⟨hne, hall⟩ := Text.isFloat_iff.mp (legible_float_iff.mp h).1
    rw [flat]
    exact Text.opens_of_forall hne hall (by decide)
  | boolean value =>
    cases value with
    | true => exact ⟨'t', _, by rw [flat]; rfl, by decide⟩
    | false => exact ⟨'f', _, by rw [flat]; rfl, by decide⟩
  | nested name custom value =>
    rw [flat, List.append_assoc]
    apply Text.Opens.append
    cases custom with
    | true => exact ⟨'(', _, rfl, by decide⟩
    | false => exact Text.opens_of_isIdentifier (legible_nested_iff.mp h).1.lexical (by decide)
  | map entries => exact ⟨'\x7b', _, by rw [flat]; rfl, by decide⟩
  | list values => exact ⟨'[', _, by rw [flat]; rfl, by decide⟩

theorem opens_flatEntry {entry : String × SettingValue} (h : LegibleEntry entry) :
    Text.Opens ['\x7d'] (flatEntry entry) := by
  rw [flatEntry, List.append_assoc]
  exact (Text.opens_of_isIdentifier h.1.lexical (by decide)).append _

/-- An entry of a map is read in one way only if its value is: the key ends at the colon. -/
theorem readable_entry {entry : String × SettingValue} (h : LegibleEntry entry)
    (hvalue : Readable flat Legible entry.2) : Readable flatEntry LegibleEntry entry := by
  intro other r s hother hr hs heq
  obtain ⟨key, value⟩ := entry
  obtain ⟨key', value'⟩ := other
  have hcolon : ':' ∉ key.toList := Text.not_mem_of_isIdentifier h.1.lexical (by decide)
  have hcolon' : ':' ∉ key'.toList := Text.not_mem_of_isIdentifier hother.1.lexical (by decide)
  simp only [flatEntry, List.append_assoc] at heq
  obtain ⟨hkey, hafter⟩ := append_cons_inj hcolon hcolon' heq
  obtain ⟨rfl, hrest⟩ := hvalue hother.2 hr hs (List.cons.inj hafter).2
  exact ⟨by rw [String.toList_inj.mp hkey], hrest⟩

mutual

/-- **A legible value is read in one way only.** -/
theorem readable : ∀ value : SettingValue, value.Legible → Readable flat Legible value
  | value, h, other, r, s, hother, hr, hs, heq => by
    -- the two are of the same kind, so that only eight of the pairs are left
    have hkind := kind_eq_of_flat_append h hother hr hs heq
    cases value with
    | string text =>
      cases other with
      | string text' =>
        simp only [flat] at heq
        obtain ⟨rfl, hrest⟩ := Text.quoted_append_inj heq
        exact ⟨rfl, hrest⟩
      | _ => exact nomatch hkind
    | identifier text =>
      cases other with
      | identifier text' =>
        simp only [flat] at heq
        obtain ⟨rfl, hrest⟩ := Text.string_unique (by decide)
          (fun c hc => Text.isWordChar_of_isIdentifier (legible_identifier_iff.mp h).1 hc)
          (fun c hc => Text.isWordChar_of_isIdentifier (legible_identifier_iff.mp hother).1 hc)
          hr hs heq
        exact ⟨rfl, hrest⟩
      | _ => exact nomatch hkind
    | integer value =>
      cases other with
      | integer value' =>
        simp only [flat] at heq
        obtain ⟨htext, hrest⟩ := Text.token_unique (by decide)
          (fun c hc => Text.isFloatChar_of_mem_ofInt hc)
          (fun c hc => Text.isFloatChar_of_mem_ofInt hc) hr hs heq
        exact ⟨by rw [Int64.toInt_inj.mp (Text.ofInt_inj htext)], hrest⟩
      | _ => exact nomatch hkind
    | float text =>
      cases other with
      | float text' =>
        simp only [flat] at heq
        obtain ⟨rfl, hrest⟩ := Text.string_unique (by decide)
          (Text.isFloat_iff.mp (legible_float_iff.mp h).1).2
          (Text.isFloat_iff.mp (legible_float_iff.mp hother).1).2 hr hs heq
        exact ⟨rfl, hrest⟩
      | _ => exact nomatch hkind
    | boolean value =>
      cases other with
      | boolean value' => exact boolean_unique heq
      | _ => exact nomatch hkind
    | nested name custom value =>
      cases other with
      | nested name' custom' value' =>
        obtain ⟨hname, hvalue⟩ := legible_nested_iff.mp h
        obtain ⟨hname', hvalue'⟩ := legible_nested_iff.mp hother
        simp only [flat, List.append_assoc] at heq
        obtain ⟨rfl, rfl, hafter⟩ := heading_unique hname hname' (value.joint_head?_not _)
          (value'.joint_head?_not _) heq
        obtain ⟨rfl, hrest⟩ := readable value hvalue hvalue' hr hs (joint_unique hafter)
        exact ⟨rfl, hrest⟩
      | _ => exact nomatch hkind
    | map entries =>
      cases other with
      | map entries' =>
        have hentries := legible_map_iff.mp h
        simp only [flat, flatEntries_eq_map, List.cons_append, List.append_assoc, List.nil_append,
          List.cons.injEq, true_and] at heq
        obtain ⟨rfl, hrest⟩ := Text.commaJoined_unique (by decide) (by decide)
          (fun _ hentry => opens_flatEntry hentry)
          (fun entry hentry => ⟨hentries entry hentry, readableEntries entries hentries entry hentry⟩)
          (legible_map_iff.mp hother) heq
        exact ⟨rfl, hrest⟩
      | _ => exact nomatch hkind
    | list values =>
      cases other with
      | list values' =>
        have hvalues := legible_list_iff.mp h
        simp only [flat, flatEach_eq_map, List.cons_append, List.append_assoc, List.nil_append,
          List.cons.injEq, true_and] at heq
        obtain ⟨rfl, hrest⟩ := Text.commaJoined_unique (by decide) (by decide)
          (fun _ hvalue => opens_flat hvalue)
          (fun value hvalue => ⟨hvalues value hvalue, readableEach values hvalues value hvalue⟩)
          (legible_list_iff.mp hother) heq
        exact ⟨rfl, hrest⟩
      | _ => exact nomatch hkind

theorem readableEntries : ∀ entries : List (String × SettingValue),
    (∀ entry ∈ entries, LegibleEntry entry) →
      ∀ entry ∈ entries, Readable flatEntry LegibleEntry entry
  | [], _ => by simp
  | (key, value) :: entries, h => by
    obtain ⟨hentry, hentries⟩ := List.forall_mem_cons.mp h
    exact List.forall_mem_cons.mpr ⟨readable_entry hentry (readable value hentry.2),
      readableEntries entries hentries⟩

theorem readableEach : ∀ values : List SettingValue, (∀ value ∈ values, value.Legible) →
    ∀ value ∈ values, Readable flat Legible value
  | [], _ => by simp
  | value :: values, h => by
    obtain ⟨hvalue, hvalues⟩ := List.forall_mem_cons.mp h
    exact List.forall_mem_cons.mpr ⟨readable value hvalue, readableEach values hvalues⟩

end

end SettingValue

/-! ### Settings -/

namespace Setting

variable {settings settings' : List Setting}

theorem Legible.lexical {setting : Setting} (h : setting.Legible) :
    ∀ part ∈ setting.texts, part.Lexical :=
  fun part hpart => (h part hpart).lexical

theorem toValue_inj {setting setting' : Setting} (h : setting.toValue = setting'.toValue) :
    setting = setting' := by
  obtain ⟨name, custom, value⟩ := setting
  obtain ⟨name', custom', value'⟩ := setting'
  obtain ⟨rfl, rfl, rfl⟩ := SettingValue.nested.inj h
  rfl

theorem readable {setting : Setting} (h : setting.Legible) : Readable flat Legible setting := by
  intro other r s hother hr hs heq
  obtain ⟨hvalue, hrest⟩ := setting.toValue.readable h hother hr hs heq
  exact ⟨toValue_inj hvalue, hrest⟩

theorem flatStatement_append (setting : Setting) (text : Text) :
    setting.flatStatement ++ text = "option ".toList ++ (setting.flat ++ (";".toList ++ text)) := by
  change "option ".toList ++ setting.flat ++ ";".toList ++ text = _
  rw [List.append_assoc, List.append_assoc]

/-- Statements are read one by one: each ends with its semicolon. -/
theorem eq_of_flatMap_flatStatement_eq (h : ∀ setting ∈ settings, setting.Legible)
    (h' : ∀ setting ∈ settings', setting.Legible)
    (heq : settings.flatMap flatStatement = settings'.flatMap flatStatement) :
    settings = settings' := by
  have hended : ∀ text, Text.Ended (";".toList ++ text) := by
    intro text
    exact Text.ended_cons (by decide) text
  induction settings generalizing settings' with
  | nil =>
    cases settings' with
    | nil => rfl
    | cons setting' settings' => exact nomatch heq
  | cons setting settings ih =>
    cases settings' with
    | nil => exact nomatch heq
    | cons setting' settings' =>
      obtain ⟨hhead, htail⟩ := List.forall_mem_cons.mp h
      obtain ⟨hhead', htail'⟩ := List.forall_mem_cons.mp h'
      rw [List.flatMap_cons, List.flatMap_cons, flatStatement_append, flatStatement_append] at heq
      obtain ⟨rfl, hrest⟩ := readable hhead hhead' (hended _) (hended _)
        (List.append_cancel_left heq)
      obtain rfl := ih htail htail' (List.append_cancel_left hrest)
      rfl

theorem eq_of_commaJoined_flat_eq (h : ∀ setting ∈ settings, setting.Legible)
    (h' : ∀ setting ∈ settings', setting.Legible)
    (heq : Text.commaJoined (settings.map flat) = Text.commaJoined (settings'.map flat)) :
    settings = settings' := by
  have hclosed : Text.commaJoined (settings.map flat) ++ [']'] =
      Text.commaJoined (settings'.map flat) ++ [']'] := by rw [heq]
  exact (Text.commaJoined_unique (by decide) (by decide)
    (fun setting hsetting => setting.toValue.opens_flat hsetting)
    (fun setting hsetting => ⟨h setting hsetting, readable (h setting hsetting)⟩) h' hclosed).1

/-- **Options are uniquely readable**, alone, in a bracketed list and as statements. -/
theorem uniquely_readable :
    (∀ setting setting' : Setting, setting.Legible → setting'.Legible →
      setting.render = setting'.render → setting = setting') ∧
    (∀ settings settings' : List Setting, (∀ setting ∈ settings, setting.Legible) →
      (∀ setting ∈ settings', setting.Legible) → inline settings = inline settings' →
      settings = settings') ∧
    (∀ settings settings' : List Setting, (∀ setting ∈ settings, setting.Legible) →
      (∀ setting ∈ settings', setting.Legible) → statements settings = statements settings' →
      settings = settings') := by
  refine ⟨?_, ?_, ?_⟩
  · intro setting setting' h h' heq
    have hflat := flat_eq_of_render_eq h.lexical h'.lexical heq
    exact (readable h h' Text.ended_nil Text.ended_nil (by rw [hflat])).1
  · intro settings settings' h h' heq
    have hitems : Text.itemLines (settings.map render) = Text.itemLines (settings'.map render) := by
      cases settings with
      | nil =>
        cases settings' with
        | nil => rfl
        | cons setting' settings' => exact nomatch heq
      | cons setting settings =>
        cases settings' with
        | nil => exact nomatch heq
        | cons setting' settings' =>
          simpa only [inline, List.append_assoc, List.append_cancel_left_eq,
            List.append_cancel_right_eq] using heq
    have hflat := flat_eq_of_itemLines_eq (fun setting hsetting => (h setting hsetting).lexical)
      (fun setting hsetting => (h' setting hsetting).lexical) hitems
    exact eq_of_commaJoined_flat_eq h h' hflat
  · intro settings settings' h h' heq
    have hflat := flat_eq_of_statements_eq (fun setting hsetting => (h setting hsetting).lexical)
      (fun setting hsetting => (h' setting hsetting).lexical) heq
    exact eq_of_flatMap_flatStatement_eq h h' hflat

/-- A custom setting with the given value deep inside of it. -/
def deep (value : SettingValue) : Setting :=
  ⟨⟨"a.limits", by decide⟩, true,
    .nested ⟨"ceiling", by decide⟩ false
      (.map [("rest", .list []), ("k", .list [value, .float "-1.e+3", .boolean true])])⟩

instance (setting : Setting) : Decidable setting.Legible :=
  inferInstanceAs (Decidable (∀ part ∈ setting.texts, part.Legible))

/-- A string that looks like two items is told from two items, and what is written alike
    is the same, as a list of one and as two statements. -/
theorem readable_deep :
    (deep (.string "],\n\"")).Legible ∧ (deep (.list [.string "", .integer (-1)])).Legible ∧
    (deep (.string "],\n\"")).render ≠ (deep (.list [.string "", .integer (-1)])).render ∧
    inline [deep (.identifier ("tr" ++ "uth"))] = inline [deep (.identifier "truth")] ∧
    [deep (.identifier ("tr" ++ "uth"))] = [deep (.identifier "truth")] ∧
    statements [deep (.float ".5"), deep (.float ("." ++ "5"))] =
      statements [deep (.float (".5" ++ "")), deep (.float ".5")] ∧
    [deep (.float ".5"), deep (.float ("." ++ "5"))] =
      [deep (.float (".5" ++ "")), deep (.float ".5")] := by
  obtain ⟨hrender, hinline, hstatements⟩ := uniquely_readable
  refine ⟨by decide, by decide, ?_, by decide +kernel, ?_, by decide +kernel, ?_⟩
  · intro heq
    exact absurd (hrender _ _ (by decide) (by decide) heq) (by decide)
  · exact hinline _ _ (by decide) (by decide) (by decide +kernel)
  · exact hstatements _ _ (by decide) (by decide) (by decide +kernel)

end Setting

end WireSchema
