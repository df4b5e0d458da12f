/-
  WireSchema/Proofs/Squeezed.lean
  ===============================
  **Text without its whitespace.**  `squeeze` takes the whitespace out of a text, except
  for what stands inside of string literals.  A scan of the text from its start decides
  what that is: a quote opens a literal, and the next quote that no backslash escapes
  closes it.

  Texts are put together from literals and from characters that are no quotes (`Lexed`).
  Of such texts, squeezing commutes with everything that maps and lists are built with:
  what is left of bracketed items are the brackets, the squeezed items and the commas
  between them, however deep the items were indented.
-/
import WireSchema.Proofs.Flat
import WireSchema.Proofs.Quotes

namespace WireSchema

namespace Text

/-! ### Inside and outside of literals -/

/-- Where a scan of a text has come to: outside of literals, inside of one, or inside of
    one behind a backslash. -/
inductive Spot
  | outside
  | inside
  | escaped
  deriving DecidableEq, Repr

def Spot.next : Spot → Char → Spot
  | .outside, c => if c = '"' then .inside else .outside
  | .inside, c => if c = '"' then .outside else if c = '\\' then .escaped else .inside
  | .escaped, _ => .inside

def markedFrom : Spot → Text → List (Char × Bool)
  | _, [] => []
  | spot, c :: cs => (c, decide (spot = .outside)) :: markedFrom (spot.next c) cs

/-- The characters of a text, each with whether the scan reaches it outside of literals.
    Of the quotes, the opening ones are. -/
def marked (text : Text) : List (Char × Bool) := markedFrom .outside text

/-- A text without the whitespace outside of its literals. -/
def squeeze (text : Text) : Text :=
  ((marked text).filter fun mark => !(mark.2 && mark.1.isWhitespace)).map Prod.fst

/-- Every literal that is opened in the text is closed in it. -/
def Closed (text : Text) : Prop := text.foldl Spot.next .outside = .outside

@[simp] theorem marked_nil : marked [] = [] := rfl

@[simp] theorem squeeze_nil : squeeze [] = [] := rfl

theorem markedFrom_append (spot : Spot) (left right : Text) :
    markedFrom spot (left ++ right) =
      markedFrom spot left ++ markedFrom (left.foldl Spot.next spot) right := by
  induction left generalizing spot with
  | nil => rfl
  | cons c cs ih =>
    rw [List.cons_append, markedFrom, ih, markedFrom, List.cons_append, List.foldl_cons]

theorem map_fst_markedFrom (spot : Spot) (text : Text) :
    (markedFrom spot text).map Prod.fst = text := by
  induction text generalizing spot with
  | nil => rfl
  | cons c cs ih => rw [markedFrom, List.map_cons, ih]

theorem marked_append {left : Text} (h : Closed left) (right : Text) :
    marked (left ++ right) = marked left ++ marked right := by
  rw [marked, markedFrom_append, h]
  rfl

theorem squeeze_append {left : Text} (h : Closed left) (right : Text) :
    squeeze (left ++ right) = squeeze left ++ squeeze right := by
  rw [squeeze, marked_append h, List.filter_append, List.map_append]
  rfl

theorem Closed.append {left right : Text} (h : Closed left) (h' : Closed right) :
    Closed (left ++ right) := by
  rw [Closed, List.foldl_append, h, h']

theorem closed_singleton {c : Char} (h : c ≠ '"') : Closed [c] := if_neg h

theorem marked_cons {c : Char} (h : c ≠ '"') (text : Text) :
    marked (c :: text) = (c, true) :: marked text :=
  marked_append (closed_singleton h) text

theorem squeeze_cons {c : Char} (h : c ≠ '"') (text : Text) :
    squeeze (c :: text) = (if c.isWhitespace then [] else [c]) ++ squeeze text := by
  rw [squeeze, marked_cons h]
  by_cases hspace : c.isWhitespace = true
  · simp [hspace, squeeze]
  · simp [hspace, squeeze]

/-! ### Literals -/

/-- Read from inside of a literal, the text leads to the spot, and none of its characters
    stands outside. -/
def Inner (text : Text) (spot : Spot) : Prop :=
  text.foldl Spot.next .inside = spot ∧ ∀ mark ∈ markedFrom .inside text, mark.2 = false

theorem Inner.append {left right : Text} {spot : Spot} (h : Inner left .inside)
    (h' : Inner right spot) : Inner (left ++ right) spot := by
  obtain ⟨hend, hmarks⟩ := h
  refine ⟨by rw [List.foldl_append, hend, h'.1], ?_⟩
  rw [markedFrom_append, hend]
  exact List.forall_mem_append.mpr ⟨hmarks, h'.2⟩

theorem inner_singleton {c : Char} (hquote : c ≠ '"') (hbackslash : c ≠ '\\') :
    Inner [c] .inside := by
  constructor
  · simp [Spot.next, hquote, hbackslash]
  · simp [markedFrom]

theorem inner_escape (c : Char) : Inner ['\\', c] .inside := by
  constructor
  · simp [Spot.next]
  · simp [markedFrom, Spot.next]

theorem inner_hexDigit {c : Char} {n : Nat} (h : Json.Lexer.hexValue? c = some n) :
    Inner [c] .inside := by
  apply inner_singleton
  · rintro rfl
    exact nomatch h
  · rintro rfl
    exact nomatch h

/-- The scanner takes a literal from behind its opening quote up to the quote that closes
    it. -/
theorem exists_inner_of_scanBody {text chars after : Text}
    (h : scanBody text = some (chars, after)) :
    ∃ body, text = body ++ after ∧ Inner body .outside := by
  fun_induction scanBody text generalizing chars with
  | case1 => exact nomatch h
  | case2 rest =>
    obtain ⟨-, rfl⟩ := Prod.mk.inj (Option.some.inj h)
    exact ⟨['"'], rfl, rfl, by decide⟩
  | case3 high low rest ih =>
    simp only [hexChar?, Option.bind_eq_bind, Option.bind_eq_some_iff] at h
    obtain ⟨c, ⟨m, hhigh, n, hlow, -⟩, ⟨inner, rest'⟩, hrest, heq⟩ := h
    obtain ⟨-, rfl⟩ := Prod.mk.inj (Option.some.inj heq)
    obtain ⟨body, rfl, hbody⟩ := ih hrest
    refine ⟨['\\', 'x'] ++ ([high] ++ ([low] ++ body)), rfl, ?_⟩
    exact (inner_escape 'x').append
      ((inner_hexDigit hhigh).append ((inner_hexDigit hlow).append hbody))
  | case4 escaped rest hx ih =>
    simp only [Option.bind_eq_bind, Option.bind_eq_some_iff] at h
    obtain ⟨c, -, ⟨inner, rest'⟩, hrest, heq⟩ := h
    obtain ⟨-, rfl⟩ := Prod.mk.inj (Option.some.inj heq)
    obtain ⟨body, rfl, hbody⟩ := ih hrest
    exact ⟨['\\', escaped] ++ body, rfl, (inner_escape escaped).append hbody⟩
  | case5 => exact nomatch h
  | case6 c rest hquote hx hescape hlone ih =>
    simp only [Option.bind_eq_bind, Option.bind_eq_some_iff] at h
    obtain ⟨⟨inner, rest'⟩, hrest, heq⟩ := h
    obtain ⟨-, rfl⟩ := Prod.mk.inj (Option.some.inj heq)
    obtain ⟨body, rfl, hbody⟩ := ih hrest
    have hbackslash : c ≠ '\\' := by
      rintro rfl
      cases hcut : body ++ rest' with
      | nil => exact hlone rfl hcut
      | cons d ds => exact hescape d ds rfl hcut
    exact ⟨[c] ++ body, rfl, (inner_singleton hquote hbackslash).append hbody⟩

/-- A literal is closed, and only its opening quote stands outside. -/
theorem closed_of_scan {literal : Text} {s : String} (h : scan literal = some (s, [])) :
    Closed literal ∧ ∀ mark ∈ marked literal, mark.2 = true → mark.1 = '"' := by
  unfold scan at h
  split at h
  · rename_i rest
    obtain ⟨⟨chars, after⟩, hbody, heq⟩ := Option.bind_eq_some_iff.mp h
    obtain ⟨-, rfl⟩ := Prod.mk.inj (Option.some.inj heq)
    obtain ⟨body, rfl, hend, hmarks⟩ := exists_inner_of_scanBody hbody
    rw [List.append_nil]
    refine ⟨hend, List.forall_mem_cons.mpr ⟨fun _ => rfl, ?_⟩⟩
    intro mark hmark houtside
    exact absurd houtside (by rw [hmarks mark hmark]; decide)
  · exact nomatch h

theorem scan_quoted_nil (s : String) : scan (quoted s) = some (s, []) := by
  simpa using scan_quoted s []

theorem closed_quoted (s : String) : Closed (quoted s) := (closed_of_scan (scan_quoted_nil s)).1

@[simp] theorem squeeze_quoted (s : String) : squeeze (quoted s) = quoted s := by
  have hkept : ∀ mark ∈ marked (quoted s), (!(mark.2 && mark.1.isWhitespace)) = true := by
    intro mark hmark
    by_cases houtside : mark.2 = true
    · rw [(closed_of_scan (scan_quoted_nil s)).2 mark hmark houtside]
      simp [Char.isWhitespace]
    · simp [houtside]
  rw [squeeze, List.filter_eq_self.mpr hkept]
  exact map_fst_markedFrom _ _

/-! ### Texts made of literals and other characters -/

inductive Lexed : Text → Prop
  | nil : Lexed []
  | literal (s : String) {rest : Text} (h : Lexed rest) : Lexed (quoted s ++ rest)
  | char {c : Char} (hc : c ≠ '"') {rest : Text} (h : Lexed rest) : Lexed (c :: rest)

theorem squeeze_quoted_append (s : String) (text : Text) :
    squeeze (quoted s ++ text) = quoted s ++ squeeze text := by
  rw [squeeze_append (closed_quoted s), squeeze_quoted]

namespace Lexed

theorem closed {text : Text} (h : Lexed text) : Closed text := by
  induction h with
  | nil => rfl
  | literal s _ ih => exact (closed_quoted s).append ih
  | char hc _ ih => exact (closed_singleton hc).append ih

theorem append {left right : Text} (h : Lexed left) (h' : Lexed right) : Lexed (left ++ right) := by
  induction h with
  | nil => exact h'
  | literal s _ ih =>
    rw [List.append_assoc]
    exact .literal s ih
  | char hc _ ih => exact .char hc ih

theorem flatMap {α : Type} {entries : List α} {render : α → Text}
    (h : ∀ entry ∈ entries, Lexed (render entry)) : Lexed (entries.flatMap render) := by
  induction entries with
  | nil => exact .nil
  | cons entry entries ih =>
    obtain ⟨hhead, htail⟩ := List.forall_mem_cons.mp h
    exact hhead.append (ih htail)

theorem of_not_mem {text : Text} (h : '"' ∉ text) : Lexed text := by
  induction text with
  | nil => exact .nil
  | cons c cs ih =>
    rw [List.mem_cons, not_or] at h
    exact .char (Ne.symm h.1) (ih h.2)

theorem squeeze {text : Text} (h : Lexed text) : Lexed (Text.squeeze text) := by
  induction h with
  | nil => exact .nil
  | literal s _ ih =>
    rw [squeeze_quoted_append]
    exact .literal s ih
  | char hc _ ih =>
    rw [squeeze_cons hc]
    split
    · exact ih
    · exact .char hc ih

end Lexed

theorem squeeze_flatMap {α : Type} {entries : List α} {render : α → Text}
    (h : ∀ entry ∈ entries, Lexed (render entry)) :
    squeeze (entries.flatMap render) = entries.flatMap fun entry => squeeze (render entry) := by
  induction entries with
  | nil => rfl
  | cons entry entries ih =>
    obtain ⟨hhead, htail⟩ := List.forall_mem_cons.mp h
    rw [List.flatMap_cons, squeeze_append hhead.closed, ih htail, List.flatMap_cons]

/-! ### Lines -/

/-- The lines are made of literals and other characters, and of the text nothing is lost in
    them but whitespace. -/
structure SqueezedLines (text : Text) : Prop where
  lexed : ∀ line ∈ lines text, Lexed line
  squeezed : (lines text).flatMap squeeze = squeeze text

/-- A piece of a line in front of a text joins its first line. -/
theorem squeezed_consLine {piece text : Text} (hpiece : Lexed piece)
    (hlines : lines (piece ++ text) = match lines text with
      | [] => [piece]
      | line :: rest => (piece ++ line) :: rest)
    (h : SqueezedLines text) : SqueezedLines (piece ++ text) := by
  obtain ⟨hlexed, hsqueezed⟩ := h
  cases hcut : lines text with
  | nil =>
    rw [hcut] at hlines hsqueezed
    constructor
    · rw [hlines]
      exact List.forall_mem_singleton.mpr hpiece
    · rw [hlines, squeeze_append hpiece.closed, ← hsqueezed]
      simp
  | cons line rest =>
    rw [hcut] at hlines hsqueezed hlexed
    obtain ⟨hline, hrest⟩ := List.forall_mem_cons.mp hlexed
    constructor
    · rw [hlines]
      exact List.forall_mem_cons.mpr ⟨hpiece.append hline, hrest⟩
    · rw [hlines, squeeze_append hpiece.closed, ← hsqueezed, List.flatMap_cons,
        squeeze_append hpiece.closed, List.append_assoc, List.flatMap_cons]

theorem squeezed_newline {text : Text} (h : SqueezedLines text) : SqueezedLines ('\n' :: text) := by
  constructor
  · rw [lines_newline]
    exact List.forall_mem_cons.mpr ⟨.nil, h.lexed⟩
  · rw [lines_newline, squeeze_cons (by decide), ← h.squeezed]
    rfl

/-- Cutting a text into lines cuts no literal. -/
theorem Lexed.squeezedLines {text : Text} (h : Lexed text) : SqueezedLines text := by
  induction h with
  | nil => exact ⟨nofun, rfl⟩
  | literal s _ ih =>
    refine squeezed_consLine ?_ (lines_clean_append (clean_quoted s) (by simp [quoted]) _) ih
    simpa using Lexed.literal s .nil
  | @char c hc text _ ih =>
    by_cases hfeed : c = '\n'
    · subst hfeed
      exact squeezed_newline ih
    by_cases hcut : c = '\r' ∧ ∃ cs, text = '\n' :: cs
    · -- the carriage return joins the line end behind it
      obtain ⟨rfl, cs, rfl⟩ := hcut
      have hlines : lines ('\r' :: '\n' :: cs) = lines ('\n' :: cs) := by simp
      constructor
      · rw [hlines]
        exact ih.lexed
      · rw [hlines, ih.squeezed, squeeze_cons hc]
        rfl
    · refine squeezed_consLine (.char hc .nil) ?_ ih
      rw [List.singleton_append, lines_cons hfeed fun hreturn cs hcs => hcut ⟨hreturn, cs, hcs⟩]
      cases lines text <;> rfl

theorem Lexed.indentLine {line : Text} (h : Lexed line) : Lexed (Text.indentLine line) := by
  have hline : Lexed (line ++ ['\n']) := h.append (.char (by decide) .nil)
  cases line with
  | nil => exact hline
  | cons c cs => exact .char (by decide) (.char (by decide) hline)

theorem squeeze_indentLine {line : Text} (h : Lexed line) :
    squeeze (indentLine line) = squeeze line := by
  have hline : squeeze (line ++ ['\n']) = squeeze line := by
    rw [squeeze_append h.closed, squeeze_cons (by decide)]
    simp [Char.isWhitespace]
  cases line with
  | nil => exact hline
  | cons c cs =>
    rw [← hline, indentLine, List.cons_append, squeeze_cons (by decide), List.cons_append,
      squeeze_cons (by decide)]
    rfl

theorem Lexed.indent {text : Text} (h : Lexed text) : Lexed (Text.indent text) :=
  Lexed.flatMap fun line hline => (h.squeezedLines.lexed line hline).indentLine

/-- Shifting a text changes whitespace only. -/
theorem squeeze_indent {text : Text} (h : Lexed text) : squeeze (indent text) = squeeze text := by
  have hlexed := h.squeezedLines.lexed
  rw [indent, squeeze_flatMap fun line hline => (hlexed line hline).indentLine,
    ← h.squeezedLines.squeezed]
  exact List.flatMap_congr fun line hline => squeeze_indentLine (hlexed line hline)

/-! ### Bracketed items -/

theorem Lexed.withCommas {items : List Text} (h : ∀ item ∈ items, Lexed item) :
    ∀ item ∈ Text.withCommas items, Lexed item := by
  intro text htext
  rcases mem_withCommas htext with hmem | ⟨item, hmem, rfl⟩
  · exact h text hmem
  · exact (h item hmem).append (.char (by decide) .nil)

theorem flatMap_squeeze_withCommas {items : List Text} (h : ∀ item ∈ items, Lexed item) :
    (withCommas items).flatMap squeeze = commaJoined (items.map squeeze) := by
  induction items with
  | nil => rfl
  | cons item items ih =>
    obtain ⟨hhead, htail⟩ := List.forall_mem_cons.mp h
    rw [List.map_cons, commaJoined_cons, ← ih htail]
    cases items with
    | nil => simp [withCommas]
    | cons next rest =>
      have hcomma : squeeze [','] = [','] := by decide
      rw [withCommas, List.flatMap_cons, squeeze_append hhead.closed, hcomma]
      · rfl
      · exact List.cons_ne_nil next rest

theorem Lexed.itemLines {items : List Text} (h : ∀ item ∈ items, Lexed item) :
    Lexed (Text.itemLines items) :=
  Lexed.flatMap fun item hitem => (Lexed.withCommas h item hitem).indent

theorem squeeze_itemLines {items : List Text} (h : ∀ item ∈ items, Lexed item) :
    squeeze (itemLines items) = commaJoined (items.map squeeze) := by
  have hitems := Lexed.withCommas h
  rw [itemLines, squeeze_flatMap fun item hitem => (hitems item hitem).indent,
    ← flatMap_squeeze_withCommas h]
  exact List.flatMap_congr fun item hitem => squeeze_indent (hitems item hitem)

/-- A character that stands for itself in a squeezed text. -/
def IsMark (c : Char) : Prop := c ≠ '"' ∧ c.isWhitespace = false

instance (c : Char) : Decidable (IsMark c) :=
  inferInstanceAs (Decidable (c ≠ '"' ∧ c.isWhitespace = false))

theorem squeeze_mark {c : Char} (h : IsMark c) (text : Text) :
    squeeze (c :: text) = c :: squeeze text := by
  rw [squeeze_cons h.1, h.2]
  rfl

theorem Lexed.enclosed {opening closing : Char} (hopening : IsMark opening)
    (hclosing : IsMark closing) {items : List Text} (h : ∀ item ∈ items, Lexed item) :
    Lexed (Text.enclosed opening closing items) := by
  unfold Text.enclosed
  split
  · exact .char hopening.1 (.char hclosing.1 .nil)
  · exact .char hopening.1 (.char (by decide) ((Lexed.itemLines h).append
      (.char hclosing.1 .nil)))

/-- Of bracketed items the brackets and the items with commas between them are left. -/
theorem squeeze_enclosed {opening closing : Char} (hopening : IsMark opening)
    (hclosing : IsMark closing) {items : List Text} (h : ∀ item ∈ items, Lexed item) :
    squeeze (enclosed opening closing items) =
      opening :: commaJoined (items.map squeeze) ++ [closing] := by
  unfold enclosed
  split
  · rw [squeeze_mark hopening, squeeze_mark hclosing]
    rfl
  · rw [List.cons_append, squeeze_mark hopening, List.cons_append, squeeze_cons (by decide),
      squeeze_append (Lexed.itemLines h).closed, squeeze_itemLines h, squeeze_mark hclosing]
    rfl

end Text

end WireSchema
