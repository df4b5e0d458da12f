/-
  WireSchema/Proofs/Literal.lean
  ==============================
  **Reading string literals.**  A scanner for string literals: after the opening quote
  it takes characters and escapes until a quote closes the literal.  An escape is a
  backslash with one of five characters after it, or with `x` and two hexadecimal
  digits.

  The scanner reads every literal back, whatever follows it (`scan_quoted`).  So a
  literal ends where it ends: no text that comes after it can be taken for a part of it.
-/
import WireSchema.Json.Token
import WireSchema.Text.Quoted

namespace WireSchema

namespace Text

/-! ### The scanner -/

/-- The character that a backslash and the given character stand for. -/
def shortEscape? : Char → Option Char
  | '"' => some '"'
  | '\\' => some '\\'
  | 'n' => some '\n'
  | 'r' => some '\r'
  | 't' => some '\t'
  | _ => none

/-- The character whose number has the two hexadecimal digits. -/
def hexChar? (high low : Char) : Option Char := do
  let high ← Json.Lexer.hexValue? high
  let low ← Json.Lexer.hexValue? low
  return Char.ofNat (16 * high + low)

/-- Reads the rest of a literal, its closing quote included: the characters it stands
    for, and the text after it. -/
def scanBody : Text → Option (Text × Text)
  | [] => none
  | '"' :: rest => some ([], rest)
  | '\\' :: 'x' :: high :: low :: rest => do
    let c ← hexChar? high low
    let (chars, after) ← scanBody rest
    return (c :: chars, after)
  | '\\' :: escaped :: rest => do
    let c ← shortEscape? escaped
    let (chars, after) ← scanBody rest
    return (c :: chars, after)
  | ['\\'] => none
  | c :: rest => do
    let (chars, after) ← scanBody rest
    return (c :: chars, after)

/-- Reads a literal: the string it stands for, and the text after it. -/
def scan : Text → Option (String × Text)
  | '"' :: rest => do
    let (chars, after) ← scanBody rest
    return (String.ofList chars, after)
  | _ => none

/-! ### Escapes -/

theorem hexValue?_hexDigit (n : Nat) : Json.Lexer.hexValue? (hexDigit n) = some (n % 16) := by
  have hdigits : ∀ d < 16, Json.Lexer.hexValue? (Nat.digitChar d) = some d := by decide
  exact hdigits (n % 16) (Nat.mod_lt n (by decide))

theorem hexChar?_hexByte {c : Char} (h : isControl c = true) :
    hexChar? (hexDigit (c.toNat / 16)) (hexDigit c.toNat) = some c := by
  have hsmall : c.toNat < 256 := by
    simp only [isControl, Bool.or_eq_true, decide_eq_true_eq, beq_iff_eq] at h
    omega
  have hnumber : 16 * (c.toNat / 16 % 16) + c.toNat % 16 = c.toNat := by omega
  simp [hexChar?, hexValue?_hexDigit, hnumber]

/-- A character that is no quote and no backslash stands for itself. -/
theorem scanBody_cons {c : Char} (hquote : c ≠ '"') (hbackslash : c ≠ '\\') {rest chars after : Text}
    (h : scanBody rest = some (chars, after)) : scanBody (c :: rest) = some (c :: chars, after) := by
  rw [scanBody]
  · simp [h]
  all_goals simp [hquote, hbackslash]

/-- One step of the scanner: it takes an escape as the character that was escaped. -/
theorem scanBody_escape {rest chars after : Text} (h : scanBody rest = some (chars, after))
    (c : Char) : scanBody (escape c ++ rest) = some (c :: chars, after) := by
  unfold escape
  split
  · simp [scanBody, shortEscape?, h]
  · simp [scanBody, shortEscape?, h]
  · simp [scanBody, shortEscape?, h]
  · simp [scanBody, shortEscape?, h]
  · simp [scanBody, shortEscape?, h]
  · rename_i hquote hbackslash _ _ _
    by_cases hcontrol : isControl c = true
    · simp [hcontrol, hexByte, scanBody, hexChar?_hexByte hcontrol, h]
    · rw [if_neg hcontrol]
      exact scanBody_cons hquote hbackslash h

/-- The scanner takes the escapes of all characters one after the other. -/
theorem scanBody_flatMap_escape (chars after : Text) :
    scanBody (chars.flatMap escape ++ '"' :: after) = some (chars, after) := by
  induction chars with
  | nil => simp [scanBody]
  | cons c chars ih =>
    rw [List.flatMap_cons, List.append_assoc]
    exact scanBody_escape ih c

/-! ### Literals -/

/-- **A literal is read back, and reading stops where it ends.** -/
theorem scan_quoted (s : String) (after : Text) : scan (quoted s ++ after) = some (s, after) := by
  simp [quoted, scan, scanBody_flatMap_escape]

theorem quoted_append_inj {s t : String} {after after' : Text}
    (h : quoted s ++ after = quoted t ++ after') : s = t ∧ after = after' := by
  have hscan : some (s, after) = some (t, after') := by
    rw [← scan_quoted, h, scan_quoted]
  exact Prod.mk.inj (Option.some.inj hscan)

end Text

end WireSchema
