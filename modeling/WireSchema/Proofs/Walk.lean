/-
  WireSchema/Proofs/Walk.lean
  ===========================
  **Types by their paths.**  A path says where a type stands in a file: its first
  number picks one of the types of the file, and each further number one of the
  types declared directly inside the type so far.

  Paths are compared as words are: a type comes before the types inside it, and
  all that stands inside a type comes before its next sibling.  The list of all
  types follows this order and leaves out no path (`TypeDecl.places`).
-/
import WireSchema.File

namespace WireSchema

abbrev Path := List Nat

/-! ### The type at a path -/

/-- The type inside this one at a path; the empty path leads to the type itself. -/
def TypeDecl.inner? (t : TypeDecl) : Path → Option TypeDecl
  | [] => some t
  | i :: path => t.nestedTypes[i]?.bind fun u => u.inner? path

/-- The type of a file at a path; the empty path leads nowhere. -/
def SchemaFile.type? (file : SchemaFile) : Path → Option TypeDecl
  | [] => none
  | i :: path => file.types[i]?.bind fun t => t.inner? path

/-! ### All places -/

namespace TypeDecl

mutual

/-- The type and every type inside it, each with its path. -/
def places : TypeDecl → List (Path × TypeDecl)
  | .enum decl => [([], .enum decl)]
  | .message core nested => ([], .message core nested) :: placesFrom 0 nested

/-- Several siblings and every type inside them, each with its path; the siblings
    are numbered from `n`. -/
def placesFrom (n : Nat) : List TypeDecl → List (Path × TypeDecl)
  | [] => []
  | t :: ts => (places t).map (fun place => (n :: place.1, place.2)) ++ placesFrom (n + 1) ts

end

mutual

theorem map_places : ∀ (t : TypeDecl), t.places.map Prod.snd = t.flatten
  | .enum decl => by simp [places, flatten]
  | .message core nested => by simp [places, flatten, map_placesFrom 0 nested]

theorem map_placesFrom (n : Nat) : ∀ (ts : List TypeDecl),
    (placesFrom n ts).map Prod.snd = flattenAll ts
  | [] => rfl
  | t :: ts => by
    have hhead : (t.places.map fun place => (n :: place.1, place.2)).map Prod.snd = t.flatten := by
      rw [List.map_map]
      exact map_places t
    rw [placesFrom, List.map_append, hhead, map_placesFrom (n + 1) ts, flattenAll]

end

mutual

/-- A type stands at a place if the path leads to it. -/
theorem mem_places : ∀ (t : TypeDecl) {path : Path} {u : TypeDecl},
    (path, u) ∈ t.places ↔ t.inner? path = some u
  | .enum decl, path, u => by
    cases path <;> simp [places, inner?, nestedTypes, eq_comm]
  | .message core nested, path, u => by
    cases path with
    | nil => simp [places, inner?, mem_placesFrom 0 nested, eq_comm]
    | cons i path => simp [places, inner?, mem_placesFrom 0 nested, nestedTypes, and_assoc]

theorem mem_placesFrom (n : Nat) : ∀ (ts : List TypeDecl) {path : Path} {u : TypeDecl},
    (path, u) ∈ placesFrom n ts ↔
      ∃ i rest, path = (n + i) :: rest ∧ (ts[i]?.bind fun t => t.inner? rest) = some u
  | [], path, u => by simp [placesFrom]
  | t :: ts, path, u => by
    have hhead : (path, u) ∈ t.places.map (fun place => (n :: place.1, place.2)) ↔
        ∃ rest, path = n :: rest ∧ t.inner? rest = some u := by
      constructor
      · intro hmem
        obtain ⟨⟨rest, v⟩, hplace, hpair⟩ := List.mem_map.mp hmem
        obtain ⟨rfl, rfl⟩ := Prod.mk.inj hpair
        exact ⟨rest, rfl, (mem_places t).mp hplace⟩
      · rintro ⟨rest, rfl, hinner⟩
        exact List.mem_map.mpr ⟨(rest, u), (mem_places t).mpr hinner, rfl⟩
    rw [placesFrom, List.mem_append, hhead, mem_placesFrom (n + 1) ts]
    -- counted from `n + 1`, the sibling `i` is the sibling `i + 1` counted from `n`
    constructor
    · rintro (⟨rest, rfl, hinner⟩ | ⟨i, rest, rfl, hinner⟩)
      · exact ⟨0, rest, rfl, hinner⟩
      · exact ⟨i + 1, rest, by rw [Nat.add_assoc, Nat.add_comm 1 i], hinner⟩
    · rintro ⟨i, rest, rfl, hinner⟩
      cases i with
      | zero => exact Or.inl ⟨rest, rfl, hinner⟩
      | succ i => exact Or.inr ⟨i, rest, by rw [Nat.add_assoc, Nat.add_comm 1 i], hinner⟩

end

/-- Siblings numbered from `n` have paths that start with `n` or more. -/
theorem exists_le_of_mem_placesFrom {n : Nat} {ts : List TypeDecl} {place : Path × TypeDecl}
    (h : place ∈ placesFrom n ts) : ∃ i rest, n ≤ i ∧ place.1 = i :: rest := by
  obtain ⟨i, rest, hpath, -⟩ := (mem_placesFrom n ts).mp h
  exact ⟨n + i, rest, Nat.le_add_right n i, hpath⟩

mutual

/-- The places come in the order of their paths. -/
theorem pairwise_places : ∀ (t : TypeDecl), t.places.Pairwise fun a b => a.1 < b.1
  | .enum decl => by simp [places]
  | .message core nested => by
    refine List.pairwise_cons.mpr ⟨?_, pairwise_placesFrom 0 nested⟩
    intro place hplace
    obtain ⟨i, rest, -, hpath⟩ := exists_le_of_mem_placesFrom hplace
    rw [hpath]
    exact List.nil_lt_cons i rest

theorem pairwise_placesFrom (n : Nat) : ∀ (ts : List TypeDecl),
    (placesFrom n ts).Pairwise fun a b => a.1 < b.1
  | [] => List.Pairwise.nil
  | t :: ts => by
    refine List.pairwise_append.mpr ⟨?_, pairwise_placesFrom (n + 1) ts, ?_⟩
    · refine List.pairwise_map.mpr ((pairwise_places t).imp fun hlt => ?_)
      exact List.cons_lt_cons_self.mpr hlt
    · intro first hfirst second hsecond
      obtain ⟨place, -, rfl⟩ := List.mem_map.mp hfirst
      obtain ⟨i, rest, hle, hpath⟩ := exists_le_of_mem_placesFrom hsecond
      rw [hpath]
      exact List.cons_lt_cons_iff.mpr (Or.inl hle)

end

end TypeDecl

namespace SchemaFile

def places (file : SchemaFile) : List (Path × TypeDecl) := TypeDecl.placesFrom 0 file.types

theorem map_places (file : SchemaFile) : file.places.map Prod.snd = file.allTypes :=
  TypeDecl.map_placesFrom 0 file.types

theorem pairwise_places (file : SchemaFile) : file.places.Pairwise fun a b => a.1 < b.1 :=
  TypeDecl.pairwise_placesFrom 0 file.types

theorem mem_places {file : SchemaFile} {path : Path} {t : TypeDecl} :
    (path, t) ∈ file.places ↔ file.type? path = some t := by
  cases path with
  | nil => simp [places, TypeDecl.mem_placesFrom, type?]
  | cons i path => simp [places, TypeDecl.mem_placesFrom, type?, and_assoc]

end SchemaFile

end WireSchema
