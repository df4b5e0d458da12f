/-
  WireSchema/Proofs/FirstClash.lean
  =================================
  **A tag check reports the first clash.**  The entries of a scope stand in one list:
  the values of all its enums, or the fields of a message with the members of its
  oneofs and the fields of the extend blocks that name it.  The check passes if and
  only if their tags are distinct, and then counts them.  Otherwise it stops at the
  first entry whose tag is held by an entry before it.  That holder is the only one,
  since everything before the clash is distinct, and nothing after the clash is looked
  at.

  The check is also one pass with a table from tags to names (`tally`), in which every
  entry is put into the table before it is known whether it replaces another one.  The
  table holds each tag so far with its only holder (`Tabulates`), so what is replaced
  is the holder, and the size of the table is the number of entries.
-/
import WireSchema.Proofs.TagLaw
import Mathlib.Order.Bounds.Defs

namespace WireSchema

/-! ### Clashes by place -/

/-- The tag at place `j` is held at place `i`, before it. -/
def HeldBefore (tags : List Int32) (i j : Nat) : Prop :=
  i < j ∧ j < tags.length ∧ tags[i]? = tags[j]?

/-- The first clash of a list is at place `j`: `entry` is the first whose tag is held
    before it, and `holder`, at place `i`, is the only entry that holds it there. -/
structure ClashAt {α : Type} (tag : α → Int32) (entries : List α) (i j : Nat)
    (holder entry : α) : Prop where
  least : IsLeast {k | ∃ h, HeldBefore (entries.map tag) h k} j
  unique : ∀ h, HeldBefore (entries.map tag) h j ↔ h = i
  holder : entries[i]? = some holder
  entry : entries[j]? = some entry

section Places

variable {α : Type} {tag : α → Int32} {before after : List α} {holder entry : α}

/-- Among entries with distinct tags no tag is held before. -/
theorem not_heldBefore_of_nodup {k : Nat} (hnodup : (before.map tag).Nodup)
    (hk : k < before.length) (h : Nat) :
    ¬ HeldBefore ((before ++ entry :: after).map tag) h k := by
  rintro ⟨hlt, -, hsame⟩
  have hlength : h < (before.map tag).length := by rw [List.length_map]; omega
  have hlength' : k < (before.map tag).length := by rwa [List.length_map]
  rw [List.map_append, List.getElem?_append_left hlength, List.getElem?_append_left hlength',
    List.getElem?_inj hlength hnodup] at hsame
  omega

/-- A tag after distinct ones is held before it by the one entry that has it. -/
theorem heldBefore_iff {i : Nat} (hnodup : (before.map tag).Nodup)
    (hholder : before[i]? = some holder) (htag : tag holder = tag entry) (h : Nat) :
    HeldBefore ((before ++ entry :: after).map tag) h before.length ↔ h = i := by
  have hi : i < (before.map tag).length := by
    rw [List.length_map]
    exact (List.getElem?_eq_some_iff.mp hholder).1
  have hlast : ((before ++ entry :: after).map tag)[before.length]? = (before.map tag)[i]? := by
    simp [hholder, htag]
  constructor
  · rintro ⟨hlt, -, hsame⟩
    have hlength : h < (before.map tag).length := by rwa [List.length_map]
    rw [hlast, List.map_append, List.getElem?_append_left hlength,
      List.getElem?_inj hlength hnodup] at hsame
    exact hsame
  · rintro rfl
    refine ⟨by rwa [List.length_map] at hi, by simp, ?_⟩
    rw [hlast, List.map_append, List.getElem?_append_left hi]

theorem exists_clashAt (hnodup : (before.map tag).Nodup) (hholder : holder ∈ before)
    (htag : tag holder = tag entry) :
    ∃ i, ClashAt tag (before ++ entry :: after) i before.length holder entry := by
  obtain ⟨i, hi⟩ := List.mem_iff_getElem?.mp hholder
  have hlt : i < before.length := (List.getElem?_eq_some_iff.mp hi).1
  have hheld : ∀ h, HeldBefore ((before ++ entry :: after).map tag) h before.length ↔ h = i :=
    heldBefore_iff hnodup hi htag
  refine ⟨i, ⟨⟨i, (hheld i).mpr rfl⟩, ?_⟩, hheld, ?_, by simp⟩
  · rintro k ⟨h, hk⟩
    by_contra hlater
    exact not_heldBefore_of_nodup hnodup (by omega) h hk
  · rw [List.getElem?_append_left hlt, hi]

/-- A clash among views of the entries is a clash among what is viewed. -/
theorem ClashAt.map {β : Type} {view : β → α} {entries : List β} {i j : Nat} {first second : β}
    (h : ClashAt (fun entry => tag (view entry)) entries i j first second) :
    ClashAt tag (entries.map view) i j (view first) (view second) := by
  obtain ⟨hleast, hunique, hholder, hentry⟩ := h
  have htags : (entries.map view).map tag = entries.map fun entry => tag (view entry) := by
    rw [List.map_map]
    rfl
  refine ⟨by rwa [htags], by rwa [htags], ?_, ?_⟩
  · rw [List.getElem?_map, hholder, Option.map_some]
  · rw [List.getElem?_map, hentry, Option.map_some]

/-! ### What the search depends on -/

/-- Among entries with distinct tags a tag finds its only holder. -/
theorem find?_holder {seen : List α} (hnodup : (seen.map tag).Nodup) (hholder : holder ∈ seen)
    (htag : tag holder = tag entry) :
    (seen.find? fun other => tag other == tag entry) = some holder := by
  cases hfind : seen.find? fun other => tag other == tag entry with
  | none => exact absurd (beq_iff_eq.mpr htag) (List.find?_eq_none.mp hfind holder hholder)
  | some other =>
    have hother : tag other = tag entry := by simpa using List.find?_some hfind
    have hmem := List.mem_of_find?_eq_some hfind
    rw [List.inj_on_of_nodup_map hnodup hmem hholder (hother.trans htag.symm)]

/-- The first clash is found from the entries up to it; what comes after is never
    looked at. -/
theorem firstClash_eq_some {seen : List α} (hnodup : ((seen.reverse ++ before).map tag).Nodup)
    (hholder : holder ∈ seen.reverse ++ before) (htag : tag holder = tag entry) :
    firstClash tag seen (before ++ entry :: after) = some (holder, entry) := by
  induction before generalizing seen with
  | nil =>
    rw [List.append_nil] at hnodup hholder
    have hseen : (seen.map tag).Nodup := by
      rw [List.map_reverse, List.nodup_reverse] at hnodup
      exact hnodup
    have hfind := find?_holder hseen (List.mem_reverse.mp hholder) htag
    simp only [List.nil_append, firstClash, hfind]
  | cons first before ih =>
    -- the first entry is new, so the search moves it over to those seen
    have hnew : (seen.find? fun other => tag other == tag first) = none := by
      rw [List.find?_eq_none]
      intro other hother hsame
      exact not_nodup_of_clash rfl (List.mem_reverse.mpr hother) (beq_iff_eq.mp hsame) hnodup
    have hmove : (first :: seen).reverse ++ before = seen.reverse ++ first :: before := by simp
    simp only [List.cons_append, firstClash, hnew]
    exact ih (by rwa [hmove]) (by rwa [hmove])

theorem firstClash_eq_none {entries : List α} (hnodup : (entries.map tag).Nodup) :
    firstClash tag [] entries = none := by
  cases hclash : firstClash tag [] entries with
  | none => rfl
  | some clash =>
    obtain ⟨before, after, hsplit, -, hholder, htag⟩ :=
      exists_of_firstClash_eq_some (by simp) hclash
    exact absurd hnodup (not_nodup_of_clash hsplit hholder htag)

end Places

/-! ### One pass with a table -/

section Tally

variable {α : Type} (tag : α → Int32) (name : α → Name)

/-- Goes through entries with a table of the names that hold the tags so far.  Every
    entry is put into the table; one that replaces another stops the pass, with the
    name that was replaced. -/
def tally (table : Std.HashMap Int32 Name) :
    List α → Except (Name × α) (Std.HashMap Int32 Name)
  | [] => .ok table
  | entry :: entries =>
    let replaced := table[tag entry]?
    let table := table.insert (tag entry) (name entry)
    match replaced with
    | some first => .error (first, entry)
    | none => tally table entries

/-- The table holds the tags of exactly the entries seen, each with the name of its
    holder. -/
structure Tabulates (table : Std.HashMap Int32 Name) (seen : List α) : Prop where
  getElem?_eq : ∀ key, table[key]? = (seen.find? fun entry => tag entry == key).map name
  size_eq : table.size = seen.length

variable {tag name}

theorem tabulates_empty : Tabulates tag name ∅ [] := ⟨fun key => by simp, by simp⟩

theorem Tabulates.insert {table : Std.HashMap Int32 Name} {seen : List α}
    (h : Tabulates tag name table seen) {entry : α}
    (hnew : (seen.find? fun other => tag other == tag entry) = none) :
    Tabulates tag name (table.insert (tag entry) (name entry)) (entry :: seen) := by
  constructor
  · intro key
    rw [Std.HashMap.getElem?_insert, List.find?_cons, h.getElem?_eq key]
    cases hkey : tag entry == key <;> rfl
  · have habsent : tag entry ∉ table := by
      rw [Std.HashMap.mem_iff_isSome_getElem?, h.getElem?_eq, hnew]
      simp
    rw [Std.HashMap.size_insert, if_neg habsent, h.size_eq, List.length_cons]

/-- The pass stops where the search finds a clash, and else ends with the table of all
    entries. -/
theorem Tabulates.tally_eq {table : Std.HashMap Int32 Name} {seen : List α}
    (h : Tabulates tag name table seen) (entries : List α) :
    match firstClash tag seen entries with
    | some (holder, entry) => tally tag name table entries = .error (name holder, entry)
    | none => ∃ full, tally tag name table entries = .ok full ∧
        full.size = seen.length + entries.length := by
  induction entries generalizing table seen with
  | nil => exact ⟨table, rfl, h.size_eq⟩
  | cons entry entries ih =>
    have hlookup := h.getElem?_eq (tag entry)
    simp only [firstClash, tally, hlookup]
    cases hfind : seen.find? fun other => tag other == tag entry with
    | some holder => rfl
    | none =>
      have hrest := ih (h.insert hfind)
      simpa only [Option.map_none, List.length_cons, Nat.add_right_comm, Nat.add_assoc] using hrest

theorem tally_append (table : Std.HashMap Int32 Name) (left right : List α) :
    tally tag name table (left ++ right) =
      tally tag name table left >>= fun table => tally tag name table right := by
  induction left generalizing table with
  | nil => rfl
  | cons entry left ih =>
    simp only [List.cons_append, tally]
    cases table[tag entry]? with
    | some first => rfl
    | none => exact ih _

end Tally

/-- The tags of enums, checked by two nested loops with one table. -/
def tallyEnums (decls : List EnumDecl) : Report :=
  match decls.foldlM
      (fun table decl => tally (fun entry => entry.2.tag) (fun entry => entry.2.name) table
        (decl.values.map fun value => (decl.name, value))) ∅ with
  | .error (first, entry) =>
    ⟨[.duplicateEnumTag entry.2.tag first entry.2.name entry.1],
      some (.duplicateEnumTag entry.2.tag)⟩
  | .ok table => ⟨[.distinctEnumTags table.size], none⟩

/-- The tags of a message, checked by one loop with a table. -/
def tallyFields (core : MessageCore) (extendBlocks : List ExtendBlock) : Report :=
  match tally Field.tag Field.name ∅ (core.scope extendBlocks) with
  | .error (first, field) =>
    ⟨[.duplicateFieldTag field.tag first field.name core.name],
      some (.duplicateFieldTag core.title field.tag)⟩
  | .ok table => ⟨[.distinctFieldTags core.name table.size], none⟩

theorem checkEnumTags_eq_tallyEnums (decls : List EnumDecl) :
    checkEnumTags decls = tallyEnums decls := by
  have hloops : ∀ table : Std.HashMap Int32 Name,
      decls.foldlM
        (fun table decl => tally (fun entry => entry.2.tag) (fun entry => entry.2.name) table
          (decl.values.map fun value => (decl.name, value))) table =
      tally (fun entry => entry.2.tag) (fun entry => entry.2.name) table (enumEntries decls) := by
    induction decls with
    | nil => exact fun table => rfl
    | cons decl decls ih =>
      intro table
      rw [enumEntries, List.flatMap_cons, tally_append, List.foldlM_cons]
      congr 1
      funext table
      exact ih table
  have hempty : Tabulates (fun entry : Name × EnumValue => entry.2.tag)
      (fun entry => entry.2.name) ∅ [] := tabulates_empty
  have hpass := hempty.tally_eq (enumEntries decls)
  rw [tallyEnums, hloops, checkEnumTags]
  split at hpass
  · rename_i holder entry hclash
    simp only [hclash, hpass]
  · rename_i hclash
    obtain ⟨full, hfull, hsize⟩ := hpass
    simp only [hclash, hfull, hsize, List.length_nil, Nat.zero_add]

theorem checkFieldTags_eq_tallyFields (core : MessageCore) (extendBlocks : List ExtendBlock) :
    checkFieldTags core extendBlocks = tallyFields core extendBlocks := by
  have hempty : Tabulates Field.tag Field.name ∅ [] := tabulates_empty
  have hpass := hempty.tally_eq (core.scope extendBlocks)
  rw [tallyFields, checkFieldTags]
  split at hpass
  · rename_i holder entry hclash
    simp only [hclash, hpass]
  · rename_i hclash
    obtain ⟨full, hfull, hsize⟩ := hpass
    simp only [hclash, hfull, hsize, List.length_nil, Nat.zero_add]

/-! ### Reports -/

/-- The events of a report, each with its level. -/
def Report.log (report : Report) : List (Level × Event) :=
  report.events.map fun event => (event.level, event)

/-- `decl` is declared right after the enums `earlier`, and in it `value` right after the
    values `before`. -/
structure DeclaredAt (decls earlier : List EnumDecl) (decl : EnumDecl) (before : List EnumValue)
    (value : EnumValue) : Prop where
  outer : earlier ++ [decl] <+: decls
  inner : before ++ [value] <+: decl.values

theorem map_enumEntries (decls : List EnumDecl) :
    (enumEntries decls).map Prod.snd = decls.flatMap EnumDecl.values := by
  simp [enumEntries, List.map_flatMap, Function.comp_def]

/-- An entry of several enums is declared by one of them. -/
theorem exists_declaredAt {decls : List EnumDecl} {front back : List (Name × EnumValue)}
    {entry : Name × EnumValue} (h : enumEntries decls = front ++ entry :: back) :
    ∃ earlier decl before, DeclaredAt decls earlier decl before entry.2 ∧ entry.1 = decl.name ∧
      front = enumEntries earlier ++ before.map fun value => (decl.name, value) := by
  induction decls generalizing front with
  | nil => simp [enumEntries] at h
  | cons decl decls ih =>
    -- beyond the first enum the entry is found among the other ones
    have hlater : ∀ front' : List (Name × EnumValue),
        front = decl.values.map (fun value => (decl.name, value)) ++ front' →
        enumEntries decls = front' ++ entry :: back →
        ∃ earlier found before, DeclaredAt (decl :: decls) earlier found before entry.2 ∧
          entry.1 = found.name ∧
          front = enumEntries earlier ++ before.map fun value => (found.name, value) := by
      rintro front' rfl hrest
      obtain ⟨earlier, found, before, hplace, hname, rfl⟩ := ih hrest
      refine ⟨decl :: earlier, found, before, ⟨?_, hplace.inner⟩, hname, ?_⟩
      · exact (List.prefix_cons_inj decl).mpr hplace.outer
      · rw [enumEntries, enumEntries, List.flatMap_cons, List.append_assoc]
    rw [enumEntries, List.flatMap_cons] at h
    rcases List.append_eq_append_iff.mp h with ⟨front', hfront, hrest⟩ | ⟨own, hown, hrest⟩
    · exact hlater front' hfront hrest
    · cases own with
      | nil => exact hlater [] (by simpa using hown.symm) hrest.symm
      | cons first own =>
        obtain ⟨rfl, -⟩ := List.cons.inj hrest
        obtain ⟨before, rest, hvalues, rfl, hcons⟩ := List.map_eq_append_iff.mp hown
        obtain ⟨value, after, rfl, rfl, -⟩ := List.map_eq_cons_iff.mp hcons
        refine ⟨[], decl, before, ⟨?_, ?_⟩, rfl, rfl⟩
        · exact ⟨decls, rfl⟩
        · exact ⟨after, by rw [hvalues, List.append_assoc]; rfl⟩

/-- Where a value is declared says which entries come before it. -/
theorem DeclaredAt.enumEntries_eq {decls earlier : List EnumDecl} {decl : EnumDecl}
    {before : List EnumValue} {value : EnumValue}
    (h : DeclaredAt decls earlier decl before value) :
    ∃ back, enumEntries decls =
      (enumEntries earlier ++ before.map fun value => (decl.name, value)) ++
        (decl.name, value) :: back := by
  obtain ⟨⟨later, rfl⟩, ⟨after, hvalues⟩⟩ := h
  refine ⟨after.map (fun value => (decl.name, value)) ++ enumEntries later, ?_⟩
  simp [enumEntries, ← hvalues]

/-! ### Enums -/

theorem checkEnumTags_of_nodup {decls : List EnumDecl}
    (h : ((decls.flatMap EnumDecl.values).map EnumValue.tag).Nodup) :
    checkEnumTags decls =
      ⟨[.distinctEnumTags (decls.flatMap EnumDecl.values).length], none⟩ := by
  rw [← map_enumEntries, List.map_map] at h
  have hclash : firstClash (fun entry : Name × EnumValue => entry.2.tag) [] (enumEntries decls) =
    none := firstClash_eq_none h
  simp only [checkEnumTags, hclash]
  rw [← map_enumEntries, List.length_map]

/-- The report on a value whose tag is the first one held before. -/
theorem checkEnumTags_of_clash {decls : List EnumDecl} {front back : List (Name × EnumValue)}
    {holder entry : Name × EnumValue} (h : enumEntries decls = front ++ entry :: back)
    (hnodup : (front.map fun entry => entry.2.tag).Nodup) (hholder : holder ∈ front)
    (htag : holder.2.tag = entry.2.tag) :
    checkEnumTags decls =
      ⟨[.duplicateEnumTag entry.2.tag holder.2.name entry.2.name entry.1],
        some (.duplicateEnumTag entry.2.tag)⟩ := by
  have hclash : firstClash (fun entry : Name × EnumValue => entry.2.tag) [] (enumEntries decls) =
      some (holder, entry) := by
    rw [h]
    exact firstClash_eq_some hnodup hholder htag
  simp only [checkEnumTags, hclash]

/-- If not all tags of the values are distinct, the first clash is reported. -/
theorem exists_enum_clash {decls : List EnumDecl}
    (h : ¬ ((decls.flatMap EnumDecl.values).map EnumValue.tag).Nodup) :
    ∃ i j holder earlier decl before value,
      ClashAt EnumValue.tag (decls.flatMap EnumDecl.values) i j holder value ∧
      DeclaredAt decls earlier decl before value ∧
      j = (earlier.flatMap EnumDecl.values).length + before.length ∧
      ∀ decls' decl', decl'.name = decl.name → DeclaredAt decls' earlier decl' before value →
        checkEnumTags decls' =
          ⟨[.duplicateEnumTag value.tag holder.name value.name decl.name],
            some (.duplicateEnumTag value.tag)⟩ := by
  rw [← map_enumEntries, List.map_map] at h
  rcases hclash : firstClash (fun entry : Name × EnumValue => entry.2.tag) [] (enumEntries decls)
    with _ | ⟨holder, entry⟩
  · exact absurd (nodup_of_firstClash_eq_none (by simp) hclash) h
  · obtain ⟨front, back, hsplit, hnodup, hholder, htag⟩ :=
      exists_of_firstClash_eq_some (by simp) hclash
    rw [List.reverse_nil, List.nil_append] at hsplit
    obtain ⟨i, hat⟩ := @exists_clashAt _ _ front back _ _ hnodup hholder htag
    obtain ⟨earlier, decl, before, hplace, hname, rfl⟩ := exists_declaredAt hsplit
    rw [← hsplit] at hat
    refine ⟨i, _, holder.2, earlier, decl, before, entry.2, ?_, hplace, rfl, ?_⟩
    · have hlength : (enumEntries earlier ++ before.map fun value => (decl.name, value)).length =
          (earlier.flatMap EnumDecl.values).length + before.length := by
        simp [← map_enumEntries]
      have hvalues : ClashAt EnumValue.tag ((enumEntries decls).map Prod.snd) i _ holder.2 entry.2 :=
        hat.map
      rwa [map_enumEntries, hlength] at hvalues
    · intro decls' decl' hname' hplace'
      obtain ⟨back', hsplit'⟩ := hplace'.enumEntries_eq
      rw [hname', ← hname] at hsplit'
      rw [← hname] at hnodup hholder ⊢
      exact checkEnumTags_of_clash hsplit' hnodup hholder htag

/-! ### Messages -/

theorem checkFieldTags_of_nodup {core : MessageCore} {extendBlocks : List ExtendBlock}
    (h : ((core.tagHolders extendBlocks).map Field.tag).Nodup) :
    checkFieldTags core extendBlocks =
      ⟨[.distinctFieldTags core.name (core.tagHolders extendBlocks).length], none⟩ := by
  simp only [checkFieldTags, core.scope_eq_tagHolders, firstClash_eq_none h]

/-- If not all tags of a message are distinct, the first clash is reported. -/
theorem exists_field_clash {core : MessageCore} {extendBlocks : List ExtendBlock}
    (h : ¬ ((core.tagHolders extendBlocks).map Field.tag).Nodup) :
    ∃ i j holder field, ClashAt Field.tag (core.tagHolders extendBlocks) i j holder field ∧
      ∀ core' extendBlocks', core'.name = core.name → core'.title = core.title →
        (core.tagHolders extendBlocks).take (j + 1) <+: core'.tagHolders extendBlocks' →
        checkFieldTags core' extendBlocks' =
          ⟨[.duplicateFieldTag field.tag holder.name field.name core.name],
            some (.duplicateFieldTag core.title field.tag)⟩ := by
  rcases hclash : firstClash Field.tag [] (core.tagHolders extendBlocks) with _ | ⟨holder, field⟩
  · exact absurd (nodup_of_firstClash_eq_none (by simp) hclash) h
  · obtain ⟨before, after, hsplit, hnodup, hholder, htag⟩ :=
      exists_of_firstClash_eq_some (by simp) hclash
    rw [List.reverse_nil, List.nil_append] at hsplit
    obtain ⟨i, hat⟩ := @exists_clashAt _ _ before after _ _ hnodup hholder htag
    rw [← hsplit] at hat
    refine ⟨i, before.length, holder, field, hat, ?_⟩
    intro core' extendBlocks' hname htitle hprefix
    have htake : (core.tagHolders extendBlocks).take (before.length + 1) = before ++ [field] := by
      rw [hsplit, List.take_length_add_append, List.take_succ_cons, List.take_zero]
    rw [htake] at hprefix
    obtain ⟨after', hsplit'⟩ := hprefix
    rw [List.append_assoc] at hsplit'
    have hclash' : firstClash Field.tag [] (core'.tagHolders extendBlocks') =
        some (holder, field) := by
      rw [← hsplit']
      exact firstClash_eq_some hnodup hholder htag
    simp only [checkFieldTags, core'.scope_eq_tagHolders, hclash', hname, htitle]

/-! ### The law -/

/-- **A tag check reports the first clash.**  For enums and for a message alike: the check
    is a pass with a table, it passes if and only if the tags are distinct, and it then
    counts the entries.  Otherwise it reports the first clash and its only holder, and
    nothing after the clash has any influence. -/
theorem tag_checks_report_first_clash :
    (∀ decls : List EnumDecl,
      checkEnumTags decls = tallyEnums decls ∧
      ((checkEnumTags decls).fault = none ↔
        ((decls.flatMap EnumDecl.values).map EnumValue.tag).Nodup) ∧
      ((checkEnumTags decls).fault = none → (checkEnumTags decls).log =
        [(.trace, .distinctEnumTags (decls.flatMap EnumDecl.values).length)]) ∧
      ∀ error, (checkEnumTags decls).fault = some error →
        ∃ i j holder earlier decl before value,
          ClashAt EnumValue.tag (decls.flatMap EnumDecl.values) i j holder value ∧
          DeclaredAt decls earlier decl before value ∧
          j = (earlier.flatMap EnumDecl.values).length + before.length ∧
          error = .duplicateEnumTag value.tag ∧
          (checkEnumTags decls).log =
            [(.debug, .duplicateEnumTag value.tag holder.name value.name decl.name)] ∧
          ∀ decls' decl', decl'.name = decl.name →
            DeclaredAt decls' earlier decl' before value →
            checkEnumTags decls' = checkEnumTags decls) ∧
    ∀ (core : MessageCore) (extendBlocks : List ExtendBlock),
      checkFieldTags core extendBlocks = tallyFields core extendBlocks ∧
      ((checkFieldTags core extendBlocks).fault = none ↔
        ((core.tagHolders extendBlocks).map Field.tag).Nodup) ∧
      ((checkFieldTags core extendBlocks).fault = none → (checkFieldTags core extendBlocks).log =
        [(.trace, .distinctFieldTags core.name (core.tagHolders extendBlocks).length)]) ∧
      ∀ error, (checkFieldTags core extendBlocks).fault = some error →
        ∃ i j holder field,
          ClashAt Field.tag (core.tagHolders extendBlocks) i j holder field ∧
          error = .duplicateFieldTag core.title field.tag ∧
          (checkFieldTags core extendBlocks).log =
            [(.debug, .duplicateFieldTag field.tag holder.name field.name core.name)] ∧
          ∀ core' extendBlocks', core'.name = core.name → core'.title = core.title →
            (core.tagHolders extendBlocks).take (j + 1) <+: core'.tagHolders extendBlocks' →
            checkFieldTags core' extendBlocks' = checkFieldTags core extendBlocks := by
  constructor
  · intro decls
    refine ⟨checkEnumTags_eq_tallyEnums decls, ?_⟩
    by_cases hnodup : ((decls.flatMap EnumDecl.values).map EnumValue.tag).Nodup
    · rw [checkEnumTags_of_nodup hnodup]
      exact ⟨iff_of_true rfl hnodup, fun _ => rfl, nofun⟩
    · obtain ⟨i, j, holder, earlier, decl, before, value, hat, hplace, hj, hreport⟩ :=
        exists_enum_clash hnodup
      have hself := hreport decls decl rfl hplace
      rw [hself]
      refine ⟨iff_of_false nofun hnodup, nofun, ?_⟩
      rintro error hfault
      obtain rfl := Option.some.inj hfault
      exact ⟨i, j, holder, earlier, decl, before, value, hat, hplace, hj, rfl, rfl, hreport⟩
  · intro core extendBlocks
    refine ⟨checkFieldTags_eq_tallyFields core extendBlocks, ?_⟩
    by_cases hnodup : ((core.tagHolders extendBlocks).map Field.tag).Nodup
    · rw [checkFieldTags_of_nodup hnodup]
      exact ⟨iff_of_true rfl hnodup, fun _ => rfl, nofun⟩
    · obtain ⟨i, j, holder, field, hat, hreport⟩ := exists_field_clash hnodup
      have hself := hreport core extendBlocks rfl rfl (List.take_prefix _ _)
      rw [hself]
      refine ⟨iff_of_false nofun hnodup, nofun, ?_⟩
      rintro error hfault
      obtain rfl := Option.some.inj hfault
      exact ⟨i, j, holder, field, hat, rfl, rfl, hreport⟩

/-- Two enums with the tags 1 and 2 each, in different order. -/
def sharing : List EnumDecl :=
  [ { name := ⟨"Left", by decide⟩, qualifiedName := "", documentation := "", settings := []
      values := [⟨⟨"A", by decide⟩, 1, "", []⟩, ⟨⟨"B", by decide⟩, 2, "", []⟩] },
    { name := ⟨"Right", by decide⟩, qualifiedName := "", documentation := "", settings := []
      values := [⟨⟨"C", by decide⟩, 2, "", []⟩, ⟨⟨"D", by decide⟩, 1, "", []⟩] } ]

/-- The clash that is reported is the one on the tag 2, which comes up again first. -/
theorem checkEnumTags_sharing :
    (checkEnumTags sharing).fault = some (.duplicateEnumTag 2) ∧
    ∃ i j holder value,
      ClashAt EnumValue.tag (sharing.flatMap EnumDecl.values) i j holder value ∧
      value.tag = 2 ∧ holder.name.text = "B" ∧ value.name.text = "C" := by
  have hfault : (checkEnumTags sharing).fault = some (.duplicateEnumTag 2) := by decide
  have hlog : (checkEnumTags sharing).log = [(.debug, .duplicateEnumTag 2 ⟨"B", by decide⟩
      ⟨"C", by decide⟩ ⟨"Right", by decide⟩)] := by decide
  obtain ⟨-, -, -, hclash⟩ := tag_checks_report_first_clash.1 sharing
  obtain ⟨i, j, holder, -, decl, -, value, hat, -, -, -, hevents, -⟩ := hclash _ hfault
  rw [hlog] at hevents
  simp only [List.cons.injEq, Prod.mk.injEq, Event.duplicateEnumTag.injEq] at hevents
  obtain ⟨⟨-, htag, hholder, hvalue, -⟩, -⟩ := hevents
  exact ⟨hfault, i, j, holder, value, hat, htag.symm, by rw [← hholder], by rw [← hvalue]⟩

end WireSchema
