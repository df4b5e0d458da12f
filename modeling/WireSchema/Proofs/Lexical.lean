/-
  WireSchema/Proofs/Lexical.lean
  ==============================
  **Texts that are tokens.**  The builders accept any text that is not empty.  A
  declaration is lexically valid if its texts are what a schema file can hold:
  names are identifiers, a type reference is made of the characters of type names,
  a float literal of those of numbers.  Documentation may be anything without a
  carriage return, and string values, which are not among the texts, anything at all.

  What the proofs use of it are the characters that do not occur in a token and
  those it cannot start with.
-/
import WireSchema.Proofs.Indentation

namespace WireSchema

namespace Text

/-! ### Characters -/

/-- The characters of an identifier. -/
def isWordChar (c : Char) : Bool := c.isAlphanum || c == '_'

/-- The characters of a type reference.  Characters outside ASCII count as letters. -/
def isTypeChar (c : Char) : Bool :=
  isWordChar c || decide (128 ≤ c.toNat) || ".<>,".toList.contains c

/-- The characters of a float literal. -/
def isFloatChar (c : Char) : Bool := c.isDigit || ".eE+-".toList.contains c

/-! ### Tokens -/

/-- A letter or underscore, and any letters, digits and underscores after it. -/
def isIdentifier : Text → Bool
  | [] => false
  | c :: cs => (c.isAlpha || c == '_') && cs.all isWordChar

/-- Identifiers with dots between them. -/
def isDotted (text : Text) : Bool := (text.splitOn '.').all isIdentifier

/-- The word `option` is no type reference: a field of that type would be written like
    an option. -/
def isTypeRef (text : Text) : Bool :=
  text != [] && text != "option".toList && text.all isTypeChar

def isFloat (text : Text) : Bool := text != [] && text.all isFloatChar

end Text

/-- Whether a text can play its role in a schema file. -/
def TextPart.isLexical (part : TextPart) : Bool :=
  match part.role with
  | .name => Text.isIdentifier part.text.toList
  | .typeRef => Text.isTypeRef part.text.toList
  | .documentation => !part.text.toList.contains '\r'
  | .settingName false => Text.isIdentifier part.text.toList
  | .settingName true => Text.isDotted part.text.toList
  | .identifier => Text.isIdentifier part.text.toList
  | .float => Text.isFloat part.text.toList
  | .mapKey => Text.isIdentifier part.text.toList

def TextPart.Lexical (part : TextPart) : Prop := part.isLexical = true

instance (part : TextPart) : Decidable part.Lexical :=
  inferInstanceAs (Decidable (part.isLexical = true))

namespace Text

/-! ### What does not occur in a token -/

theorem isWordChar_of_isIdentifier {text : Text} (h : isIdentifier text = true) {c : Char}
    (hc : c ∈ text) : isWordChar c = true := by
  cases text with
  | nil => exact nomatch hc
  | cons d ds =>
    simp only [isIdentifier, Bool.and_eq_true, Bool.or_eq_true, List.all_eq_true] at h
    rcases List.mem_cons.mp hc with rfl | hc
    · rcases h.1 with halpha | hunder
      · simp [isWordChar, Char.isAlphanum, halpha]
      · simp [isWordChar, hunder]
    · exact h.2 c hc

theorem not_mem_of_isIdentifier {text : Text} (h : isIdentifier text = true) {c : Char}
    (hc : isWordChar c = false) : c ∉ text := by
  intro hmem
  rw [isWordChar_of_isIdentifier h hmem] at hc
  exact nomatch hc

theorem eq_or_mem_of_mem_intercalate {sep c : Char} {parts : List Text}
    (h : c ∈ [sep].intercalate parts) : c = sep ∨ ∃ part ∈ parts, c ∈ part := by
  induction parts with
  | nil => exact nomatch h
  | cons part parts ih =>
    cases parts with
    | nil => exact Or.inr ⟨part, List.mem_cons_self, by simpa using h⟩
    | cons next rest =>
      rw [List.intercalate_cons_cons, List.mem_append, List.mem_append, List.mem_singleton] at h
      rcases h with (h | h) | h
      · exact Or.inr ⟨part, List.mem_cons_self, h⟩
      · exact Or.inl h
      · rcases ih h with hsep | ⟨other, hother, hc⟩
        · exact Or.inl hsep
        · exact Or.inr ⟨other, List.mem_cons_of_mem _ hother, hc⟩

theorem not_mem_of_isDotted {text : Text} (h : isDotted text = true) {c : Char}
    (hc : isWordChar c = false) (hdot : c ≠ '.') : c ∉ text := by
  intro hmem
  rw [← @List.intercalate_splitOn _ text _ _ '.'] at hmem
  rcases eq_or_mem_of_mem_intercalate hmem with hsep | ⟨part, hpart, hin⟩
  · exact hdot hsep
  · exact not_mem_of_isIdentifier (List.all_eq_true.mp h part hpart) hc hin

theorem isTypeRef_iff {text : Text} : isTypeRef text = true ↔
    text ≠ [] ∧ text ≠ "option".toList ∧ ∀ c ∈ text, isTypeChar c = true := by
  simp only [isTypeRef, Bool.and_eq_true, bne_iff_ne, List.all_eq_true, and_assoc]

theorem isFloat_iff {text : Text} : isFloat text = true ↔
    text ≠ [] ∧ ∀ c ∈ text, isFloatChar c = true := by
  simp only [isFloat, Bool.and_eq_true, bne_iff_ne, List.all_eq_true]

theorem not_mem_of_isTypeRef {text : Text} (h : isTypeRef text = true) {c : Char}
    (hc : isTypeChar c = false) : c ∉ text := by
  intro hmem
  rw [(isTypeRef_iff.mp h).2.2 c hmem] at hc
  exact nomatch hc

theorem not_mem_of_isFloat {text : Text} (h : isFloat text = true) {c : Char}
    (hc : isFloatChar c = false) : c ∉ text := by
  intro hmem
  rw [(isFloat_iff.mp h).2 c hmem] at hc
  exact nomatch hc

theorem mem_of_mem_lines {text line : Text} (h : line ∈ lines text) {c : Char} (hc : c ∈ line) :
    c ∈ text := by
  fun_induction lines text generalizing line with
  | case1 => exact absurd h List.not_mem_nil
  | case2 cs ih =>
    rcases List.mem_cons.mp h with rfl | h
    · exact absurd hc List.not_mem_nil
    · exact List.mem_cons_of_mem _ (ih h hc)
  | case3 cs ih =>
    rcases List.mem_cons.mp h with rfl | h
    · exact absurd hc List.not_mem_nil
    · exact List.mem_cons_of_mem _ (List.mem_cons_of_mem _ (ih h hc))
  | case4 d cs hd hcut ih =>
    cases hlines : lines cs with
    | nil =>
      rw [hlines, consLine, List.mem_singleton] at h
      subst h
      exact List.mem_cons.mpr (Or.inl (List.mem_singleton.mp hc))
    | cons first rest =>
      rw [hlines, consLine] at h
      rw [hlines] at ih
      rcases List.mem_cons.mp h with rfl | h
      · rcases List.mem_cons.mp hc with rfl | hc
        · exact List.mem_cons_self
        · exact List.mem_cons_of_mem _ (ih List.mem_cons_self hc)
      · exact List.mem_cons_of_mem _ (ih (List.mem_cons_of_mem _ h) hc)

theorem clean_of_isIdentifier {text : Text} (h : isIdentifier text = true) : Clean text :=
  ⟨not_mem_of_isIdentifier h (by decide), not_mem_of_isIdentifier h (by decide)⟩

/-! ### What a token cannot start with -/

/-- The text has a first character, and it is none of the given ones. -/
def Opens (others : List Char) (text : Text) : Prop := ∃ c cs, text = c :: cs ∧ c ∉ others

theorem Opens.append {others : List Char} {text : Text} (h : Opens others text) (more : Text) :
    Opens others (text ++ more) := by
  obtain ⟨c, cs, rfl, hc⟩ := h
  exact ⟨c, cs ++ more, rfl, hc⟩

theorem opens_of_forall {others : List Char} {text : Text} {p : Char → Bool} (hne : text ≠ [])
    (h : ∀ c ∈ text, p c = true) (hothers : others.any p = false) : Opens others text := by
  obtain ⟨c, cs, rfl⟩ := List.exists_cons_of_ne_nil hne
  refine ⟨c, cs, rfl, ?_⟩
  intro hmem
  exact List.any_eq_false.mp hothers c hmem (h c List.mem_cons_self)

theorem opens_of_isIdentifier {others : List Char} {text : Text} (h : isIdentifier text = true)
    (hothers : others.any isWordChar = false) : Opens others text := by
  refine opens_of_forall ?_ (fun c hc => isWordChar_of_isIdentifier h hc) hothers
  rintro rfl
  exact nomatch h

end Text

/-- Lexically valid declarations keep their lines. -/
theorem TextPart.Lexical.unbroken {part : TextPart} (h : part.Lexical) : part.Unbroken := by
  obtain ⟨role, text⟩ := part
  cases role with
  | name => exact Text.clean_of_isIdentifier h
  | typeRef =>
    exact ⟨Text.not_mem_of_isTypeRef h (by decide), Text.not_mem_of_isTypeRef h (by decide)⟩
  | documentation =>
    have habsent : '\r' ∉ text.toList := by
      simpa [Lexical, isLexical] using h
    intro line hline hreturn
    exact habsent (Text.mem_of_mem_lines hline (List.mem_of_getLast? hreturn))
  | settingName custom =>
    cases custom with
    | false => exact Text.clean_of_isIdentifier h
    | true =>
      exact ⟨Text.not_mem_of_isDotted h (by decide) (by decide),
        Text.not_mem_of_isDotted h (by decide) (by decide)⟩
  | identifier => exact Text.clean_of_isIdentifier h
  | float =>
    exact ⟨Text.not_mem_of_isFloat h (by decide), Text.not_mem_of_isFloat h (by decide)⟩
  | mapKey => exact Text.clean_of_isIdentifier h

end WireSchema
