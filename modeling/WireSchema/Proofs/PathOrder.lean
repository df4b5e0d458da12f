/-
  WireSchema/Proofs/PathOrder.lean
  ================================
  **All types, in the order of their paths.**  The list of all types of a file is filled by
  walking through the types, each before those inside it.  This module says which type
  stands at which place of the list: the k-th entry is the type at the k-th path, where
  paths are compared as words are.  Nothing is lost and nothing comes twice, because every
  path has its entry and there are no more entries than paths.

  What stands inside a type has a path that goes on from the path of the type.  These
  entries are one run of the list, and the type is the first of them
  (`TypeDecl.exists_places_of_inner?`).
-/
import WireSchema.Proofs.Walk
import Mathlib.Data.Set.Card

namespace WireSchema

/-! ### Paths that go on -/

/-- A place inside a type, seen from where the path to the type starts. -/
def TypeDecl.under (path : Path) (place : Path × TypeDecl) : Path × TypeDecl :=
  (path ++ place.1, place.2)

namespace TypeDecl

theorem map_under_nil (places : List (Path × TypeDecl)) : places.map (under []) = places :=
  List.map_id places

theorem map_under_map_under (path rest : Path) (places : List (Path × TypeDecl)) :
    (places.map (under rest)).map (under path) = places.map (under (path ++ rest)) := by
  simp [under, Function.comp_def]

theorem inner?_append (t : TypeDecl) (path rest : Path) :
    t.inner? (path ++ rest) = (t.inner? path).bind fun u => u.inner? rest := by
  induction path generalizing t with
  | nil => rfl
  | cons i path ih =>
    simp only [List.cons_append, inner?]
    cases t.nestedTypes[i]? with
    | none => rfl
    | some u => exact ih u

/-! ### The places inside a type are one run -/

/-- A type stands first, and the types inside it follow. -/
theorem places_eq (t : TypeDecl) : t.places = ([], t) :: placesFrom 0 t.nestedTypes := by
  cases t with
  | enum decl => rfl
  | message core nested => rw [places, nestedTypes]

theorem length_places (t : TypeDecl) : t.places.length = t.flatten.length := by
  rw [← map_places t, List.length_map]

theorem exists_placesFrom {ts : List TypeDecl} {i : Nat} {t : TypeDecl} (h : ts[i]? = some t)
    (n : Nat) :
    ∃ before after, placesFrom n ts = before ++ t.places.map (under [n + i]) ++ after := by
  induction ts generalizing i n with
  | nil => exact nomatch h
  | cons first ts ih =>
    cases i with
    | zero =>
      obtain rfl : first = t := Option.some.inj h
      exact ⟨[], placesFrom (n + 1) ts, rfl⟩
    | succ i =>
      obtain ⟨before, after, heq⟩ := ih h (n + 1)
      refine ⟨first.places.map (under [n]) ++ before, after, ?_⟩
      have hindex : n + 1 + i = n + (i + 1) := by omega
      rw [hindex] at heq
      rw [placesFrom, heq]
      simp only [List.append_assoc]
      rfl

/-- If the places of a type are a run of those of one of several siblings, they are a run of
    the places of all siblings. -/
theorem exists_placesFrom_of_run {ts : List TypeDecl} {i : Nat} {t u : TypeDecl} {path : Path}
    (h : ts[i]? = some t)
    (hrun : ∃ before after, t.places = before ++ u.places.map (under path) ++ after) :
    ∃ before after, placesFrom 0 ts = before ++ u.places.map (under (i :: path)) ++ after := by
  obtain ⟨before, after, hsiblings⟩ := exists_placesFrom h 0
  obtain ⟨inBefore, inAfter, hplaces⟩ := hrun
  refine ⟨before ++ inBefore.map (under [i]), inAfter.map (under [i]) ++ after, ?_⟩
  rw [hsiblings, Nat.zero_add, hplaces]
  simp only [List.map_append, map_under_map_under, List.append_assoc]
  rfl

/-- **The places inside a type are one run of the places around it.** -/
theorem exists_places_of_inner? {t u : TypeDecl} {path : Path} (h : t.inner? path = some u) :
    ∃ before after, t.places = before ++ u.places.map (under path) ++ after := by
  induction path generalizing t with
  | nil =>
    obtain rfl := Option.some.inj h
    refine ⟨[], [], ?_⟩
    rw [map_under_nil, List.nil_append, List.append_nil]
  | cons i path ih =>
    obtain ⟨v, hv, hinner⟩ := Option.bind_eq_some_iff.mp h
    obtain ⟨before, after, hrun⟩ := exists_placesFrom_of_run hv (ih hinner)
    refine ⟨([], t) :: before, after, ?_⟩
    rw [places_eq, hrun]
    rfl

end TypeDecl

/-! ### Runs of a list -/

/-- An entry of a list without repetition belongs to a run of it exactly if its index does. -/
theorem mem_run_iff {α : Type} {before run after : List α} {k : Nat} {entry : α}
    (hnodup : (before ++ run ++ after).Nodup)
    (hentry : (before ++ run ++ after)[k]? = some entry) :
    entry ∈ run ↔ before.length ≤ k ∧ k < before.length + run.length := by
  have hrun : ∀ j, j < run.length →
      (before ++ run ++ after)[before.length + j]? = run[j]? := by
    intro j hj
    rw [List.append_assoc, List.getElem?_append_right (Nat.le_add_right _ _),
      Nat.add_sub_cancel_left, List.getElem?_append_left hj]
  constructor
  · intro hmem
    obtain ⟨j, hj⟩ := List.mem_iff_getElem?.mp hmem
    have hlt : j < run.length := (List.getElem?_eq_some_iff.mp hj).1
    have hsame : (before ++ run ++ after)[k]? = (before ++ run ++ after)[before.length + j]? := by
      rw [hentry, hrun j hlt, hj]
    have hk : k < (before ++ run ++ after).length := (List.getElem?_eq_some_iff.mp hentry).1
    have heq : k = before.length + j := (List.getElem?_inj hk hnodup).mp hsame
    omega
  · rintro ⟨hle, hlt⟩
    obtain ⟨j, rfl⟩ := Nat.exists_eq_add_of_le hle
    rw [hrun j (by omega)] at hentry
    exact List.mem_of_getElem? hentry

/-! ### The places of a file -/

namespace SchemaFile

variable {file : SchemaFile} {path : Path} {t : TypeDecl}

theorem type?_append (h : file.type? path = some t) (rest : Path) :
    file.type? (path ++ rest) = t.inner? rest := by
  cases path with
  | nil => exact nomatch h
  | cons i path =>
    obtain ⟨u, hu, hinner⟩ := Option.bind_eq_some_iff.mp h
    rw [List.cons_append, type?, hu, Option.bind_some, TypeDecl.inner?_append, hinner,
      Option.bind_some]

theorem exists_places_of_type? (h : file.type? path = some t) :
    ∃ before after, file.places = before ++ t.places.map (TypeDecl.under path) ++ after := by
  cases path with
  | nil => exact nomatch h
  | cons i path =>
    obtain ⟨u, hu, hinner⟩ := Option.bind_eq_some_iff.mp h
    exact TypeDecl.exists_placesFrom_of_run hu (TypeDecl.exists_places_of_inner? hinner)

/-- A place is inside a type exactly if its path goes on from the path of the type. -/
theorem mem_under_iff (h : file.type? path = some t) {place : Path × TypeDecl}
    (hplace : place ∈ file.places) :
    place ∈ t.places.map (TypeDecl.under path) ↔ path <+: place.1 := by
  constructor
  · intro hmem
    obtain ⟨inner, -, rfl⟩ := List.mem_map.mp hmem
    exact List.prefix_append path inner.1
  · rintro ⟨rest, hrest⟩
    have htype : file.type? (path ++ rest) = some place.2 := by
      rw [hrest]
      exact mem_places.mp hplace
    rw [type?_append h] at htype
    have hinner : (rest, place.2) ∈ t.places := (TypeDecl.mem_places t).mpr htype
    exact List.mem_map.mpr ⟨(rest, place.2), hinner, Prod.ext hrest rfl⟩

/-! ### The main statement -/

/-- The paths of a file that lead to a type, in the order in which the types are listed. -/
def paths (file : SchemaFile) : List Path := file.places.map Prod.fst

theorem pairwise_paths (file : SchemaFile) : file.paths.Pairwise (· < ·) :=
  List.pairwise_map.mpr file.pairwise_places

/-- No path comes twice, since none comes before itself. -/
theorem nodup_paths (file : SchemaFile) : file.paths.Nodup := by
  apply file.pairwise_paths.imp
  rintro path other hlt rfl
  exact List.lt_irrefl path hlt

theorem mem_paths : path ∈ file.paths ↔ (file.type? path).isSome := by
  rw [paths, List.mem_map, Option.isSome_iff_exists]
  constructor
  · rintro ⟨place, hplace, rfl⟩
    exact ⟨place.2, mem_places.mp hplace⟩
  · rintro ⟨t, ht⟩
    exact ⟨(path, t), mem_places.mpr ht, rfl⟩

theorem ncard_paths (file : SchemaFile) :
    {path | (file.type? path).isSome}.ncard = file.allTypes.length := by
  have hset : {path | (file.type? path).isSome} = (file.paths.toFinset : Set Path) := by
    ext path
    rw [Finset.mem_coe, List.mem_toFinset, mem_paths]
    rfl
  rw [hset, Set.ncard_coe_finset, List.toFinset_card_of_nodup file.nodup_paths, paths,
    ← file.map_places, List.length_map, List.length_map]

/-- The entries for a type and all that is inside it are one run. -/
theorem exists_run (h : file.type? path = some t) :
    ∃ start, file.paths[start]? = some path ∧
      (file.allTypes.drop start).take t.flatten.length = t.flatten ∧
      ∀ (k : Nat) (other : Path), file.paths[k]? = some other →
        (path <+: other ↔ start ≤ k ∧ k < start + t.flatten.length) := by
  obtain ⟨before, after, hplaces⟩ := exists_places_of_type? h
  have hnodup : file.places.Nodup := .of_map Prod.fst file.nodup_paths
  have hlength : (t.places.map (TypeDecl.under path)).length = t.flatten.length := by
    rw [List.length_map, TypeDecl.length_places]
  refine ⟨before.length, ?_, ?_, ?_⟩
  · rw [paths, hplaces, TypeDecl.places_eq]
    simp [TypeDecl.under]
  · have htypes : (t.places.map (TypeDecl.under path)).map Prod.snd = t.flatten := by
      rw [List.map_map]
      exact TypeDecl.map_places t
    rw [← file.map_places, hplaces, List.map_append, List.map_append, htypes, List.append_assoc,
      List.drop_left' (List.length_map _), List.take_left]
  · intro k other hother
    rw [paths, List.getElem?_map, Option.map_eq_some_iff] at hother
    obtain ⟨place, hplace, rfl⟩ := hother
    rw [← mem_under_iff h (List.mem_of_getElem? hplace), ← hlength]
    rw [hplaces] at hnodup hplace
    exact mem_run_iff hnodup hplace

/-- **The k-th of all types is the type at the k-th path.**  The paths that lead to a type can
    be listed in order, each once, and there are as many of them as there are entries in the
    list of all types; each entry is the type at the path of the same index.  The entries for
    a type and all that is inside it are one run, which starts with the type. -/
theorem allTypes_in_path_order (file : SchemaFile) :
    ∃ paths : List Path,
      paths.Pairwise (· < ·) ∧
      (∀ path, path ∈ paths ↔ (file.type? path).isSome) ∧
      List.Forall₂ (fun path t => file.type? path = some t) paths file.allTypes ∧
      {path | (file.type? path).isSome}.ncard = file.allTypes.length ∧
      ∀ path t, file.type? path = some t → ∃ start, paths[start]? = some path ∧
        (file.allTypes.drop start).take t.flatten.length = t.flatten ∧
        ∀ (k : Nat) (other : Path), paths[k]? = some other →
          (path <+: other ↔ start ≤ k ∧ k < start + t.flatten.length) := by
  refine ⟨file.paths, file.pairwise_paths, fun path => mem_paths, ?_, file.ncard_paths,
    fun path t => exists_run⟩
  rw [paths, ← file.map_places, List.forall₂_map_left_iff, List.forall₂_map_right_iff]
  exact List.forall₂_same.mpr fun place hplace => mem_places.mp hplace

end SchemaFile

end WireSchema
