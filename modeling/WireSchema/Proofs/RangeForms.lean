/-
  WireSchema/Proofs/RangeForms.lean
  =================================
  **The three forms of an extension range.**  A range is written as its documentation and
  one statement, which says

    * `extensions S;`         if the range is the single tag `S`;
    * `extensions S to max;`  if it ends at the largest tag of the wire format;
    * `extensions S to E;`    otherwise.

  A range can be both of the first two, and then the order in which the forms are tried
  decides: `specified` tries them as they are listed, and `ExtensionRange.tail` tries the
  open end first.  One range is both, the largest tag by itself, and so this is the only one
  that is not written as it is specified (`tail_eq_specifiedTail_iff`).
-/
import WireSchema.Proofs.Indentation
import WireSchema.Proofs.RoundTrip

namespace WireSchema

namespace ExtensionRange

/-! ### The specified statement -/

/-- The statement of a range, given what is written after its first tag. -/
def statement (first : Int32) (tail : Text) : Text :=
  "extensions ".toList ++ Text.ofInt first.toInt ++ tail ++ ";".toList

/-- What is to be written after the first tag.  A single tag is looked for first. -/
def specifiedTail (first last : Int32) : Text :=
  if first = last then []
  else if last = maxTag then " to max".toList
  else " to ".toList ++ Text.ofInt last.toInt

/-- The statement that is specified for the tags from `first` to `last`. -/
def specified (first last : Int32) : Text := statement first (specifiedTail first last)

theorem statement_inj {first : Int32} {tail tail' : Text} :
    statement first tail = statement first tail' ↔ tail = tail' := by
  constructor
  · intro heq
    exact List.append_cancel_left (List.append_cancel_right heq)
  · rintro rfl
    rfl

theorem clean_statement (first : Int32) {tail : Text} (htail : Text.Clean tail) :
    Text.Clean (statement first tail) := by
  have hlead : Text.Clean ("extensions ".toList ++ Text.ofInt first.toInt) :=
    Text.Clean.append (by decide) (Text.clean_ofInt _)
  exact (hlead.append htail).append (by decide)

/-! ### The written statement -/

theorem render_eq_statement (range : ExtensionRange) :
    range.render =
      Text.comment range.documentation ++ (statement range.first range.tail ++ ['\n']) := by
  have hend : [';', '\n'] = ";".toList ++ ['\n'] := rfl
  unfold render statement
  rw [hend]
  simp only [List.append_assoc]

theorem tail_of_last_eq_maxTag {range : ExtensionRange} (h : range.last = maxTag) :
    range.tail = " to max".toList := if_pos h

/-- The two orders in which the forms are tried differ on a single range. -/
theorem tail_eq_specifiedTail_iff (range : ExtensionRange) :
    range.tail = specifiedTail range.first range.last ↔
      ¬ (range.first = maxTag ∧ range.last = maxTag) := by
  constructor
  · rintro heq ⟨hfirst, hlast⟩
    rw [tail_of_last_eq_maxTag hlast, specifiedTail, if_pos (hfirst.trans hlast.symm)] at heq
    exact nomatch heq
  · intro hnot
    by_cases hlast : range.last = maxTag
    · have hne : range.first ≠ range.last := by
        intro heq
        exact hnot ⟨heq.trans hlast, hlast⟩
      rw [tail_of_last_eq_maxTag hlast, specifiedTail, if_neg hne, if_pos hlast]
    · by_cases heq : range.first = range.last
      · rw [tail, if_neg hlast, if_pos heq.symm, specifiedTail, if_pos heq]
      · rw [tail, if_neg hlast, if_neg (Ne.symm heq), specifiedTail, if_neg heq, if_neg hlast]

/-- **A range is written in its specified form, unless it is the largest tag by itself.**
    Every range is made from its parts, is read back from its own JSON and, if it is a single
    tag, is the one `single` gives.  Whichever way it was obtained, it is written as its
    documentation and one line.  A range that ends at the largest tag is written with an open
    end, and the line is the specified one exactly if the range does not also start there. -/
theorem render_as_specified_iff (range : ExtensionRange) :
    make range.documentation range.first range.last = .ok range ∧
    decode range.encode = .ok range ∧
    (range.first = range.last → single range.documentation range.first = range) ∧
    ∃ line : Text, '\n' ∉ line ∧
      range.render = Text.comment range.documentation ++ (line ++ ['\n']) ∧
      (range.last = maxTag → line = statement range.first " to max".toList) ∧
      (line = specified range.first range.last ↔
        ¬ (range.first = maxTag ∧ range.last = maxTag)) := by
  refine ⟨range.make_parts, range.decode_encode, ?_, statement range.first range.tail, ?_,
    range.render_eq_statement, ?_, ?_⟩
  · intro heq
    have hparts := range.make_parts
    rw [← heq, make_self] at hparts
    exact Except.ok.inj hparts
  · exact (clean_statement range.first range.clean_tail).1
  · intro hlast
    rw [tail_of_last_eq_maxTag hlast]
  · rw [specified, statement_inj]
    exact range.tail_eq_specifiedTail_iff

/-- The largest tag by itself is not written as a single tag. -/
theorem single_not_as_specified :
    ¬ ∀ (documentation : String) (tag : Int32), (single documentation tag).render =
      Text.comment documentation ++ (specified tag tag ++ ['\n']) := by
  intro h
  have hlargest := h "" maxTag
  rw [render_eq_statement] at hlargest
  have hline := List.append_cancel_right (List.append_cancel_left hlargest)
  have htail : (single "" maxTag).tail = specifiedTail maxTag maxTag := statement_inj.mp hline
  exact (tail_eq_specifiedTail_iff (single "" maxTag)).mp htail ⟨rfl, rfl⟩

end ExtensionRange

end WireSchema
