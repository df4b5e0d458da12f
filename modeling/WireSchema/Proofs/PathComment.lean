/-
  WireSchema/Proofs/PathComment.lean
  ==================================
  **What the path of a file can declare.**  A line of a text declares something if it is
  neither empty nor a comment.  A file starts with its path in a comment, and this comment
  is meant to declare nothing, whatever the path is.

  The path is written as it is.  So the comment ends where the path has its first line feed,
  and what comes after that are lines of the file.  Exactly this is what they do: the lines
  of the path after its first one, less those that are empty or comments, stand before
  everything that the file declares, and nothing else depends on the path.

  Everything follows from one equation: the declaring lines of a text that has a line feed in
  it are those before the line feed and those after it.
-/
import WireSchema.Proofs.CodeLines

namespace WireSchema

namespace Text

/-! ### Lines that declare something -/

/-- Whether a line is neither empty nor a comment. -/
def declares (line : Text) : Bool := !line.isEmpty && !isRemark line

/-- The lines of a text that declare something.  The text is cut at every line feed. -/
def declaredLines (text : Text) : List Text := (text.splitOn '\n').filter declares

theorem declares_eq_false_iff {line : Text} :
    declares line = false ↔ line = [] ∨ isRemark line = true := by
  cases line with
  | nil => simp [declares]
  | cons c cs => simp [declares]

/-- **A line feed parts the lines before it from the lines after it.** -/
theorem declaredLines_append_newline (left right : Text) :
    declaredLines (left ++ '\n' :: right) = declaredLines left ++ declaredLines right := by
  rw [declaredLines, List.splitOn_append_cons_self, List.filter_append]
  rfl

theorem declaredLines_joinBlank (parts : List Text) :
    declaredLines (joinBlank parts) = parts.flatMap declaredLines := by
  induction parts with
  | nil => rfl
  | cons part parts ih =>
    cases parts with
    | nil => simp [joinBlank]
    | cons next rest =>
      have hjoin : joinBlank (part :: next :: rest) =
          part ++ '\n' :: joinBlank (next :: rest) := rfl
      rw [hjoin, declaredLines_append_newline, ih, ← List.flatMap_cons]

/-- Neither the blank lines between parts nor the parts that are left out matter. -/
theorem declaredLines_paragraphs (parts : List Text) :
    declaredLines (paragraphs parts) = parts.flatMap declaredLines := by
  rw [paragraphs, declaredLines_joinBlank]
  induction parts with
  | nil => rfl
  | cons part parts ih =>
    cases part with
    | nil => exact ih
    | cons c cs => simpa using ih

/-! ### Paths -/

/-- The lines of a path after its first one. -/
def laterLines (path : String) : List Text := (path.toList.splitOn '\n').tail

theorem laterLines_of_not_mem {path : String} (h : '\n' ∉ path.toList) : laterLines path = [] := by
  rw [laterLines, List.splitOn_eq_singleton h]
  rfl

/-- A comment with a path in it declares what the later lines of the path declare. -/
theorem declaredLines_remark (path : String) :
    declaredLines ("// ".toList ++ path.toList) = (laterLines path).filter declares := by
  obtain ⟨line, lines, hlines⟩ := List.exists_cons_of_ne_nil (List.splitOn_ne_nil '\n' path.toList)
  have hsplit : ("// ".toList ++ path.toList).splitOn '\n' = ("// ".toList ++ line) :: lines := by
    simp [List.splitOn_cons_eq_if_modifyHead, hlines]
  rw [declaredLines, hsplit, laterLines, hlines]
  rfl

end Text

namespace SchemaFile

theorem declaredLines_pathLine (file : SchemaFile) (rest : Text) :
    Text.declaredLines (file.pathLine ++ rest) =
      (Text.laterLines file.path).filter Text.declares ++ Text.declaredLines rest := by
  unfold pathLine
  split
  · rename_i hpath
    rw [hpath]
    rfl
  · rw [List.append_assoc, List.singleton_append, Text.declaredLines_append_newline,
      Text.declaredLines_remark]

/-- Of what a file declares, only the beginning depends on its path. -/
theorem declaredLines_render (file : SchemaFile) :
    Text.declaredLines file.render =
      (Text.laterLines file.path).filter Text.declares ++
        (Text.declaredLines (file.dialectLine ++ file.packageLine) ++
          file.parts.tail.flatMap Text.declaredLines) := by
  have hparts : file.parts =
      (file.pathLine ++ (file.dialectLine ++ file.packageLine)) :: file.parts.tail := by
    rw [← List.append_assoc]
    rfl
  rw [render, Text.declaredLines_paragraphs, hparts, List.flatMap_cons, declaredLines_pathLine,
    List.append_assoc, List.tail_cons]

/-- **What the path of a file can declare.**  The lines that declare something in a file with a
    path are those of the path after its first line, and then those of the file without a path.
    So the path declares nothing if and only if each of its lines after the first is empty or a
    comment, which a path without a line feed cannot miss. -/
theorem declaredLines_render_path (file : SchemaFile) (path : String) :
    Text.declaredLines ({ file with path } : SchemaFile).render =
        (Text.laterLines path).filter Text.declares ++
          Text.declaredLines ({ file with path := "" } : SchemaFile).render ∧
    (Text.declaredLines ({ file with path } : SchemaFile).render =
        Text.declaredLines ({ file with path := "" } : SchemaFile).render ↔
      ∀ line ∈ Text.laterLines path, line = [] ∨ Text.isRemark line = true) ∧
    ('\n' ∉ path.toList →
      Text.declaredLines ({ file with path } : SchemaFile).render =
        Text.declaredLines ({ file with path := "" } : SchemaFile).render) := by
  have hlines : Text.declaredLines ({ file with path } : SchemaFile).render =
      (Text.laterLines path).filter Text.declares ++
        Text.declaredLines ({ file with path := "" } : SchemaFile).render := by
    rw [declaredLines_render, declaredLines_render]
    rfl
  have hiff : Text.declaredLines ({ file with path } : SchemaFile).render =
        Text.declaredLines ({ file with path := "" } : SchemaFile).render ↔
      ∀ line ∈ Text.laterLines path, line = [] ∨ Text.isRemark line = true := by
    rw [hlines, List.append_left_eq_self, List.filter_eq_nil_iff]
    simp only [Bool.not_eq_true, Text.declares_eq_false_iff]
  refine ⟨hlines, hiff, ?_⟩
  intro hfeed
  rw [hiff, Text.laterLines_of_not_mem hfeed]
  exact fun line hline => absurd hline List.not_mem_nil

/-- A file that declares an empty message. -/
def lone : SchemaFile where
  types :=
    [.message
      { name := ⟨"Lone", by decide⟩
        qualifiedName := ""
        documentation := ""
        settings := []
        fields := []
        oneofs := []
        extensionRanges := [] }
      []]

/-- A path that looks like a declaration after a carriage return declares nothing. -/
theorem declaredLines_lone_path :
    '\n' ∉ "a.proto\rmessage Stray \x7b\x7d".toList ∧
    Text.declaredLines ({ lone with path := "a.proto\rmessage Stray \x7b\x7d" } : SchemaFile).render =
      ["message Lone \x7b\x7d".toList] := by
  have hfeed : '\n' ∉ "a.proto\rmessage Stray \x7b\x7d".toList := by decide
  refine ⟨hfeed, ?_⟩
  rw [(declaredLines_render_path lone _).2.2 hfeed]
  decide

/-- **A path can declare a message.**  The comment with the path ends at a line feed in the path,
    and what comes after it is a declaration. -/
theorem path_can_declare :
    ¬ ∀ (file : SchemaFile) (path : String),
      Text.declaredLines ({ file with path } : SchemaFile).render =
        Text.declaredLines ({ file with path := "" } : SchemaFile).render := by
  intro hall
  have hsame := hall lone "a.proto\nmessage Stray \x7b\x7d"
  exact absurd hsame (by decide)

end SchemaFile

end WireSchema
