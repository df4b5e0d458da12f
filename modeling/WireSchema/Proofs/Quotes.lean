/-
  WireSchema/Proofs/Quotes.lean
  =============================
  **Literals in rendered text.**  Every string that an option holds, at any depth of maps,
  lists and nested settings, and every import stands in the rendered text as its literal.
  The text of a declaration is cut into lines and put together again once for each block,
  bracketed list and map around it, and the literals come through unchanged: a literal has
  no line end in it, so it is never cut.

  `Text.Quotes` says that a text holds the literals of some strings, one after the other.
  It is stated for any text, so that nothing has to be assumed about names and tokens, and
  it is kept by everything that declarations are put together with.
-/
import WireSchema.Proofs.Indentation
import WireSchema.Proofs.Literal

namespace WireSchema

namespace Text

/-! ### Characters of a literal -/

theorem isControl_of_mem_hexByte {n : Nat} {c : Char} (h : c ∈ hexByte n) : isControl c = false := by
  have hdigit : ∀ m : Fin 16, isControl (Nat.digitChar m) = false := by decide
  simp only [hexByte, List.mem_cons, List.not_mem_nil, or_false] at h
  rcases h with rfl | rfl
  · exact hdigit ⟨n / 16 % 16, Nat.mod_lt _ (by decide)⟩
  · exact hdigit ⟨n % 16, Nat.mod_lt _ (by decide)⟩

theorem isControl_of_mem_escape {c d : Char} (h : d ∈ escape c) : isControl d = false := by
  have hshort : ∀ short : Text, short.all (fun d => !isControl d) = true → d ∈ short →
      isControl d = false := by
    intro short hall hmem
    simpa using List.all_eq_true.mp hall d hmem
  unfold escape at h
  split at h
  · exact hshort _ (by decide) h
  · exact hshort _ (by decide) h
  · exact hshort _ (by decide) h
  · exact hshort _ (by decide) h
  · exact hshort _ (by decide) h
  · split at h
    · rcases List.mem_append.mp (show d ∈ ['\\', 'x'] ++ hexByte c.toNat from h) with h | h
      · exact hshort _ (by decide) h
      · exact isControl_of_mem_hexByte h
    · rename_i hplain
      rw [List.mem_singleton.mp h]
      exact Bool.eq_false_iff.mpr hplain

/-- A literal holds no control character, neither escaped nor by itself. -/
theorem isControl_of_mem_quoted {s : String} {c : Char} (h : c ∈ quoted s) :
    isControl c = false := by
  rcases List.mem_append.mp (show c ∈ ('"' :: s.toList.flatMap escape) ++ ['"'] from h) with h | h
  · rcases List.mem_cons.mp h with rfl | h
    · decide
    · obtain ⟨d, -, hd⟩ := List.mem_flatMap.mp h
      exact isControl_of_mem_escape hd
  · rw [List.mem_singleton.mp h]
    decide

/-! ### Texts that quote strings -/

/-- The literals of the strings stand in the text, one after the other. -/
inductive Quotes : Text → List String → Prop
  | none (text : Text) : Quotes text []
  | next (before : Text) (s : String) {rest : Text} {strings : List String}
    (h : Quotes rest strings) : Quotes (before ++ (quoted s ++ rest)) (s :: strings)

/-- Several texts quote the strings, one text after the other. -/
inductive QuotesEach : List Text → List String → Prop
  | nil : QuotesEach [] []
  | cons {text : Text} {texts : List Text} {strings others : List String}
    (h : Quotes text strings) (hrest : QuotesEach texts others) :
    QuotesEach (text :: texts) (strings ++ others)

namespace Quotes

theorem prepend (before : Text) {text : Text} {strings : List String} (h : Quotes text strings) :
    Quotes (before ++ text) strings := by
  cases h with
  | none text => exact .none _
  | next start s h =>
    rw [← List.append_assoc]
    exact .next (before ++ start) s h

theorem append {left right : Text} {strings others : List String} (h : Quotes left strings)
    (h' : Quotes right others) : Quotes (left ++ right) (strings ++ others) := by
  induction h with
  | none text => exact h'.prepend text
  | next before s _ ih =>
    rw [List.append_assoc, List.append_assoc]
    exact .next before s ih

theorem follow {text : Text} {strings : List String} (h : Quotes text strings) (after : Text) :
    Quotes (text ++ after) strings := by
  simpa using h.append (.none after)

theorem literal (s : String) : Quotes (quoted s) [s] := by
  simpa using Quotes.next [] s (.none [])

/-- An empty text has no room for a literal. -/
theorem eq_nil {strings : List String} (h : Quotes [] strings) : strings = [] := by
  cases hstrings : strings with
  | nil => rfl
  | cons s rest =>
    rw [hstrings] at h
    generalize htext : ([] : Text) = text at h
    cases h with
    | next before s h => simp [quoted] at htext

theorem flatMap {α : Type} {entries : List α} {render : α → Text} {strings : α → List String}
    (h : ∀ entry ∈ entries, Quotes (render entry) (strings entry)) :
    Quotes (entries.flatMap render) (entries.flatMap strings) := by
  induction entries with
  | nil => exact .none []
  | cons entry entries ih =>
    obtain ⟨hhead, htail⟩ := List.forall_mem_cons.mp h
    exact hhead.append (ih htail)

/-- A string that a text quotes stands in it as its literal. -/
theorem infix_of_mem {text : Text} {strings : List String} (h : Quotes text strings) {s : String}
    (hs : s ∈ strings) : quoted s <:+: text := by
  induction h with
  | none text => exact absurd hs List.not_mem_nil
  | next before t h ih =>
    rcases List.mem_cons.mp hs with rfl | hs
    · exact ⟨before, _, by rw [List.append_assoc]⟩
    · obtain ⟨start, rest, rfl⟩ := ih hs
      exact ⟨before ++ quoted t ++ start, rest, by simp only [List.append_assoc]⟩

end Quotes

namespace QuotesEach

theorem map {α : Type} {entries : List α} {render : α → Text} {strings : α → List String}
    (h : ∀ entry ∈ entries, Quotes (render entry) (strings entry)) :
    QuotesEach (entries.map render) (entries.flatMap strings) := by
  induction entries with
  | nil => exact .nil
  | cons entry entries ih =>
    obtain ⟨hhead, htail⟩ := List.forall_mem_cons.mp h
    exact .cons hhead (ih htail)

theorem append {texts more : List Text} {strings others : List String}
    (h : QuotesEach texts strings) (h' : QuotesEach more others) :
    QuotesEach (texts ++ more) (strings ++ others) := by
  induction h with
  | nil => exact h'
  | cons hhead _ ih =>
    rw [List.append_assoc]
    exact .cons hhead ih

/-- What keeps the literals of one text keeps those of several. -/
theorem map_change {change : Text → Text}
    (hchange : ∀ {text : Text} {strings : List String}, Quotes text strings →
      Quotes (change text) strings)
    {texts : List Text} {strings : List String} (h : QuotesEach texts strings) :
    QuotesEach (texts.map change) strings := by
  induction h with
  | nil => exact .nil
  | cons hhead _ ih => exact .cons (hchange hhead) ih

theorem flatten {texts : List Text} {strings : List String} (h : QuotesEach texts strings) :
    Quotes texts.flatten strings := by
  induction h with
  | nil => exact .none []
  | cons hhead _ ih => exact hhead.append ih

/-- A text that is left out because it is empty quotes nothing. -/
theorem filter {texts : List Text} {strings : List String} (h : QuotesEach texts strings) :
    QuotesEach (texts.filter fun text => !text.isEmpty) strings := by
  induction h with
  | nil => exact .nil
  | @cons text texts strings others hhead _ ih =>
    cases text with
    | nil =>
      rw [hhead.eq_nil]
      exact ih
    | cons c cs => exact .cons hhead ih

/-- The literals of several texts stand on the texts they are quoted in. -/
theorem exists_infix {texts : List Text} {strings : List String} (h : QuotesEach texts strings)
    {s : String} (hs : s ∈ strings) : ∃ text ∈ texts, quoted s <:+: text := by
  induction h with
  | nil => exact absurd hs List.not_mem_nil
  | cons hhead _ ih =>
    rcases List.mem_append.mp hs with hs | hs
    · exact ⟨_, List.mem_cons_self, hhead.infix_of_mem hs⟩
    · obtain ⟨text, htext, hinfix⟩ := ih hs
      exact ⟨text, List.mem_cons_of_mem _ htext, hinfix⟩

end QuotesEach

/-! ### Lines -/

/-- A text without line ends stands on the first line of what it starts. -/
theorem lines_clean_append {piece : Text} (hclean : Clean piece) (hne : piece ≠ []) (text : Text) :
    lines (piece ++ text) =
      match lines text with
      | [] => [piece]
      | line :: rest => (piece ++ line) :: rest := by
  induction piece with
  | nil => exact absurd rfl hne
  | cons c cs ih =>
    obtain ⟨hfeed, hreturn⟩ := hclean
    rw [List.mem_cons, not_or] at hfeed hreturn
    rw [List.cons_append, lines_cons (Ne.symm hfeed.1) (fun hc => absurd hc.symm hreturn.1)]
    cases cs with
    | nil => cases hlines : lines text <;> simp [hlines, consLine]
    | cons d ds =>
      rw [ih ⟨hfeed.2, hreturn.2⟩ (by simp)]
      cases lines text <;> rfl

namespace QuotesEach

/-- Texts that quote nothing. -/
theorem none (texts : List Text) : QuotesEach texts [] := by
  induction texts with
  | nil => exact .nil
  | cons text texts ih => exact .cons (.none text) ih

/-- A character in front of a text takes no literal apart. -/
theorem lines_cons (c : Char) {text : Text} {strings : List String}
    (h : QuotesEach (lines text) strings) : QuotesEach (lines (c :: text)) strings := by
  by_cases hfeed : c = '\n'
  · rw [hfeed, lines_newline]
    exact .cons (.none []) h
  by_cases hcut : c = '\r' ∧ ∃ cs, text = '\n' :: cs
  · -- the carriage return joins the line end behind it
    obtain ⟨rfl, cs, rfl⟩ := hcut
    rwa [lines_newline, ← lines_crlf] at h
  · rw [Text.lines_cons hfeed (fun hc cs htext => hcut ⟨hc, cs, htext⟩)]
    cases hlines : lines text with
    | nil =>
      rw [hlines] at h
      cases h with
      | nil => exact .none _
    | cons line rest =>
      rw [hlines] at h
      cases h with
      | cons hhead hrest => exact .cons (hhead.prepend [c]) hrest

theorem lines_prepend (before : Text) {text : Text} {strings : List String}
    (h : QuotesEach (lines text) strings) : QuotesEach (lines (before ++ text)) strings := by
  induction before with
  | nil => exact h
  | cons c cs ih => exact lines_cons c ih

/-- A literal stands on one line. -/
theorem lines_literal (s : String) {text : Text} {strings : List String}
    (h : QuotesEach (lines text) strings) :
    QuotesEach (lines (quoted s ++ text)) (s :: strings) := by
  rw [lines_clean_append (clean_quoted s) (by simp [quoted])]
  cases hlines : lines text with
  | nil =>
    rw [hlines] at h
    cases h with
    | nil => exact .cons (.literal s) .nil
  | cons line rest =>
    rw [hlines] at h
    cases h with
    | cons hhead hrest =>
      exact .cons ((Quotes.literal s).append hhead) hrest

end QuotesEach

namespace Quotes

/-- Cutting a text into lines cuts no literal. -/
theorem lines {text : Text} {strings : List String} (h : Quotes text strings) :
    QuotesEach (Text.lines text) strings := by
  induction h with
  | none text => exact .none _
  | next before s _ ih => exact QuotesEach.lines_prepend before (QuotesEach.lines_literal s ih)

theorem indentLine {line : Text} {strings : List String} (h : Quotes line strings) :
    Quotes (Text.indentLine line) strings := by
  have hline : ∃ margin : Text, Text.indentLine line = margin ++ line ++ ['\n'] := by
    cases line with
    | nil => exact ⟨[], rfl⟩
    | cons c cs => exact ⟨[' ', ' '], rfl⟩
  obtain ⟨margin, heq⟩ := hline
  rw [heq]
  exact (h.prepend margin).follow ['\n']

/-- Shifting a text leaves its literals as they are. -/
theorem indent {text : Text} {strings : List String} (h : Quotes text strings) :
    Quotes (Text.indent text) strings := by
  rw [Text.indent, List.flatMap_def]
  exact (h.lines.map_change indentLine).flatten

end Quotes

/-! ### Parts, blocks and bracketed items -/

namespace QuotesEach

theorem joinBlank {texts : List Text} {strings : List String} (h : QuotesEach texts strings) :
    Quotes (Text.joinBlank texts) strings := by
  induction h with
  | nil => exact .none []
  | @cons text texts strings others hhead hrest ih =>
    cases texts with
    | nil =>
      cases hrest with
      | nil => simpa [Text.joinBlank] using hhead
    | cons next rest => exact hhead.append (ih.prepend ['\n'])

theorem paragraphs {texts : List Text} {strings : List String} (h : QuotesEach texts strings) :
    Quotes (Text.paragraphs texts) strings :=
  h.filter.joinBlank

theorem block (header : Text) {sections : List Text} {strings : List String}
    (h : QuotesEach sections strings) : Quotes (Text.block header sections) strings := by
  have hkept := h.filter
  unfold Text.block
  split
  · rename_i hempty
    rw [hempty] at hkept
    cases hkept with
    | nil => exact .none _
  · exact ((hkept.map_change Quotes.indent).joinBlank.prepend _).follow _

theorem withCommas {items : List Text} {strings : List String} (h : QuotesEach items strings) :
    QuotesEach (Text.withCommas items) strings := by
  induction h with
  | nil => exact .nil
  | @cons item items strings others hhead hrest ih =>
    cases items with
    | nil => exact .cons hhead hrest
    | cons next rest => exact .cons (hhead.follow [',']) ih

theorem itemLines {items : List Text} {strings : List String} (h : QuotesEach items strings) :
    Quotes (Text.itemLines items) strings := by
  rw [Text.itemLines, List.flatMap_def]
  exact (h.withCommas.map_change Quotes.indent).flatten

theorem enclosed (opening closing : Char) {items : List Text} {strings : List String}
    (h : QuotesEach items strings) : Quotes (Text.enclosed opening closing items) strings := by
  have hitems := (h.itemLines.prepend [opening, '\n']).follow [closing]
  cases h with
  | nil => exact .none _
  | cons hhead hrest => exact hitems

end QuotesEach

end Text

end WireSchema
