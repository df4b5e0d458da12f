/-
  WireSchema/Proofs/Skeleton.lean
  ===============================
  **The text of a type determines its skeleton.**  The skeleton of a type is all of
  it but the resolved names and the options: kinds, names, tags, labels, type
  references, extension ranges and the lines of the documentation, in their order and
  at every depth.  Two lexically valid types that are written alike have the same
  skeleton.

  The proof reads a layout back.  The lines of a text determine the entries; entries
  of one kind stand together, so that a list of entries falls into its sections; and
  what stands inside a block are entries again, one level deeper.
-/
import WireSchema.Proofs.Heads

namespace WireSchema

/-! ### Skeletons -/

structure ValueSkeleton where
  name : Name
  tag : Int32
  documentation : List Text
  deriving DecidableEq, Repr

structure FieldSkeleton where
  label : Label
  typeRef : TypeRef
  name : Name
  tag : Int32
  documentation : List Text
  deriving DecidableEq, Repr

structure OneofSkeleton where
  name : Name
  documentation : List Text
  fields : List FieldSkeleton
  deriving DecidableEq, Repr

structure RangeSkeleton where
  first : Int32
  last : Int32
  documentation : List Text
  deriving DecidableEq, Repr

/-- A type without resolved names and options.  Documentation is kept by its lines. -/
inductive Skeleton
  | enum (name : Name) (documentation : List Text) (values : List ValueSkeleton)
  | message (name : Name) (documentation : List Text) (fields : List FieldSkeleton)
    (oneofs : List OneofSkeleton) (ranges : List RangeSkeleton) (nested : List Skeleton)

def EnumValue.skeleton (value : EnumValue) : ValueSkeleton :=
  ⟨value.name, value.tag, Text.lines value.documentation.toList⟩

def Field.skeleton (field : Field) : FieldSkeleton :=
  ⟨field.label, field.typeRef, field.name, field.tag, Text.lines field.documentation.toList⟩

def Oneof.skeleton (oneof : Oneof) : OneofSkeleton :=
  ⟨oneof.name, Text.lines oneof.documentation.toList, oneof.fields.map Field.skeleton⟩

def ExtensionRange.skeleton (range : ExtensionRange) : RangeSkeleton :=
  ⟨range.first, range.last, Text.lines range.documentation.toList⟩

namespace TypeDecl

mutual

def skeleton : TypeDecl → Skeleton
  | .enum decl =>
    .enum decl.name (Text.lines decl.documentation.toList) (decl.values.map EnumValue.skeleton)
  | .message core nested =>
    .message core.name (Text.lines core.documentation.toList) (core.fields.map Field.skeleton)
      (core.oneofs.map Oneof.skeleton) (core.extensionRanges.map ExtensionRange.skeleton)
      (skeletons nested)

def skeletons : List TypeDecl → List Skeleton
  | [] => []
  | t :: ts => skeleton t :: skeletons ts

end

end TypeDecl

/-! ### Sections -/

theorem filter_kind {entries : List Entry} {kind : EntryKind}
    (h : ∀ entry ∈ entries, entry.kind = kind) (other : EntryKind) :
    (entries.filter fun entry => decide (entry.kind = other)) =
      if kind = other then entries else [] := by
  by_cases hkind : kind = other
  · rw [if_pos hkind]
    exact List.filter_eq_self.mpr fun entry hentry => by simp [h entry hentry, hkind]
  · rw [if_neg hkind]
    exact List.filter_eq_nil_iff.mpr fun entry hentry => by simp [h entry hentry, hkind]

/-- Entries of the five kinds, listed kind by kind. -/
structure Sorted (settings members oneofs ranges types : List Entry) : Prop where
  settings : ∀ entry ∈ settings, entry.kind = .setting
  members : ∀ entry ∈ members, entry.kind = .member
  oneofs : ∀ entry ∈ oneofs, entry.kind = .oneof
  ranges : ∀ entry ∈ ranges, entry.kind = .range
  types : ∀ entry ∈ types, entry.kind = .type

theorem Sorted.filter_eq {settings members oneofs ranges types : List Entry}
    (h : Sorted settings members oneofs ranges types) (kind : EntryKind) :
    ((settings ++ members ++ oneofs ++ ranges ++ types).filter fun entry =>
      decide (entry.kind = kind)) =
      match kind with
      | .setting => settings
      | .member => members
      | .oneof => oneofs
      | .range => ranges
      | .type => types := by
  simp only [List.filter_append, filter_kind h.settings, filter_kind h.members,
    filter_kind h.oneofs, filter_kind h.ranges, filter_kind h.types]
  cases kind <;> simp

theorem Sorted.inj {settings members oneofs ranges types : List Entry}
    {settings' members' oneofs' ranges' types' : List Entry}
    (h : Sorted settings members oneofs ranges types)
    (h' : Sorted settings' members' oneofs' ranges' types')
    (heq : settings ++ members ++ oneofs ++ ranges ++ types =
      settings' ++ members' ++ oneofs' ++ ranges' ++ types') :
    members = members' ∧ oneofs = oneofs' ∧ ranges = ranges' ∧ types = types' := by
  have hfilter := fun kind => congrArg
    (fun entries => entries.filter fun entry : Entry => decide (entry.kind = kind)) heq
  simp only [h.filter_eq, h'.filter_eq] at hfilter
  exact ⟨hfilter .member, hfilter .oneof, hfilter .range, hfilter .type⟩

/-- What one view of the members of a list determines, it determines of the list. -/
theorem map_eq_map_of_imp {α β γ : Type} {view : α → β} {result : α → γ} {as bs : List α}
    (himp : ∀ a ∈ as, ∀ b ∈ bs, view a = view b → result a = result b)
    (h : as.map view = bs.map view) : as.map result = bs.map result := by
  induction as generalizing bs with
  | nil =>
    cases bs with
    | nil => rfl
    | cons b bs => exact nomatch h
  | cons a as ih =>
    cases bs with
    | nil => exact nomatch h
    | cons b bs =>
      obtain ⟨hhead, htail⟩ := List.cons.inj h
      have hfirst := himp a List.mem_cons_self b List.mem_cons_self hhead
      have hrest : as.map result = bs.map result := by
        apply ih ?_ htail
        intro a' ha' b' hb'
        exact himp a' (List.mem_cons_of_mem _ ha') b' (List.mem_cons_of_mem _ hb')
      rw [List.map_cons, List.map_cons, hfirst, hrest]

/-! ### Entries determine skeletons -/

theorem EnumValue.skeleton_eq {depth : Nat} {value value' : EnumValue}
    (h : ∀ part ∈ value.texts, part.Lexical) (h' : ∀ part ∈ value'.texts, part.Lexical)
    (heq : value.entry depth = value'.entry depth) : value.skeleton = value'.skeleton := by
  simp only [texts, List.forall_mem_cons] at h h'
  obtain ⟨hdocumentation, hdeclared⟩ := Entry.member_inj heq
  obtain ⟨hname, htag⟩ := declared_inj h.2.1 h'.2.1 hdeclared
  rw [skeleton, skeleton, hname, htag, hdocumentation]

theorem Field.skeleton_eq {depth : Nat} {field field' : Field}
    (h : ∀ part ∈ field.texts, part.Lexical) (h' : ∀ part ∈ field'.texts, part.Lexical)
    (heq : field.entry depth = field'.entry depth) : field.skeleton = field'.skeleton := by
  obtain ⟨hdocumentation, hdeclared⟩ := Entry.member_inj heq
  obtain ⟨hlabel, htype, hname, htag⟩ := declared_inj h h' hdeclared
  rw [skeleton, skeleton, hlabel, htype, hname, htag, hdocumentation]

theorem ExtensionRange.skeleton_eq {depth : Nat} {range range' : ExtensionRange}
    (heq : range.entry depth = range'.entry depth) : range.skeleton = range'.skeleton := by
  obtain ⟨hdocumentation, hdeclared⟩ := Entry.member_inj heq
  obtain ⟨hfirst, hlast⟩ := declared_inj hdeclared
  rw [skeleton, skeleton, hfirst, hlast, hdocumentation]

theorem Oneof.skeleton_eq {depth : Nat} {oneof oneof' : Oneof}
    (h : ∀ part ∈ oneof.texts, part.Lexical) (h' : ∀ part ∈ oneof'.texts, part.Lexical)
    (heq : oneof.entry depth = oneof'.entry depth) : oneof.skeleton = oneof'.skeleton := by
  obtain ⟨hdocumentation, hheader, hentries⟩ := Entry.block_inj
    (covers_body h (depth + 1)).formed (covers_body h' (depth + 1)).formed heq
  simp only [texts, List.forall_mem_cons, List.forall_mem_flatMap] at h h'
  have hfields : oneof.fields.map Field.skeleton = oneof'.fields.map Field.skeleton := by
    apply map_eq_map_of_imp ?_ hentries
    intro field hfield field' hfield' hsame
    exact Field.skeleton_eq (h.2.2 field hfield) (h'.2.2 field' hfield') hsame
  have hname := Name.eq_of_toList_eq (List.append_cancel_left hheader)
  rw [skeleton, skeleton, hname, hdocumentation, hfields]

theorem EnumDecl.sorted_body {decl : EnumDecl} (h : ∀ part ∈ decl.texts, part.Lexical)
    (depth : Nat) : Sorted (decl.settings.map (Setting.entry depth))
      (decl.values.map (EnumValue.entry depth)) [] [] [] := by
  simp only [texts, List.forall_mem_cons, List.forall_mem_append, List.forall_mem_flatMap] at h
  obtain ⟨-, -, hsettings, hvalues⟩ := h
  refine ⟨?_, ?_, nofun, nofun, nofun⟩
  · rw [List.forall_mem_map]
    intro setting hsetting
    exact Setting.kind_entry (hsettings setting hsetting) depth
  · rw [List.forall_mem_map]
    intro value hvalue
    exact EnumValue.kind_entry (hvalues value hvalue) depth

theorem MessageCore.sorted_body {core : MessageCore} (h : ∀ part ∈ core.texts, part.Lexical)
    {nested : List TypeDecl} (hnested : ∀ t ∈ nested, ∀ part ∈ t.texts, part.Lexical)
    (depth : Nat) : Sorted (core.settings.map (Setting.entry depth))
      (core.fields.map (Field.entry depth)) (core.oneofs.map (Oneof.entry depth))
      (core.extensionRanges.map (ExtensionRange.entry depth))
      (nested.map (TypeDecl.entry depth)) := by
  simp only [texts, List.forall_mem_cons, List.forall_mem_append, List.forall_mem_flatMap] at h
  obtain ⟨-, -, ⟨⟨hsettings, hfields⟩, honeofs⟩, -⟩ := h
  refine ⟨?_, ?_, ?_, ?_, ?_⟩
  · rw [List.forall_mem_map]
    intro setting hsetting
    exact Setting.kind_entry (hsettings setting hsetting) depth
  · rw [List.forall_mem_map]
    intro field hfield
    exact Field.kind_entry (hfields field hfield) depth
  · rw [List.forall_mem_map]
    intro oneof honeof
    exact Oneof.kind_entry (honeofs oneof honeof) depth
  · exact List.forall_mem_map.mpr fun range _ => range.kind_entry depth
  · exact List.forall_mem_map.mpr fun t ht => TypeDecl.kind_entry (hnested t ht) depth

theorem EnumDecl.skeleton_eq {depth : Nat} {decl decl' : EnumDecl}
    (h : ∀ part ∈ decl.texts, part.Lexical) (h' : ∀ part ∈ decl'.texts, part.Lexical)
    (heq : decl.entry depth = decl'.entry depth) :
    (TypeDecl.enum decl).skeleton = (TypeDecl.enum decl').skeleton := by
  obtain ⟨hdocumentation, hheader, hentries⟩ := Entry.block_inj
    (covers_body h (depth + 1)).formed (covers_body h' (depth + 1)).formed heq
  obtain ⟨hvalues, -⟩ := (sorted_body h (depth + 1)).inj (sorted_body h' (depth + 1))
    (by simpa [body] using hentries)
  simp only [texts, List.forall_mem_cons, List.forall_mem_append, List.forall_mem_flatMap] at h h'
  have hvalues : decl.values.map EnumValue.skeleton = decl'.values.map EnumValue.skeleton := by
    apply map_eq_map_of_imp ?_ hvalues
    intro value hvalue value' hvalue' hsame
    exact EnumValue.skeleton_eq (h.2.2.2 value hvalue) (h'.2.2.2 value' hvalue') hsame
  have hname := Name.eq_of_toList_eq (List.append_cancel_left hheader)
  rw [TypeDecl.skeleton, TypeDecl.skeleton, hname, hdocumentation, hvalues]

theorem MessageCore.skeleton_eq {depth : Nat} {core core' : MessageCore}
    {nested nested' : List TypeDecl} (h : ∀ part ∈ core.texts, part.Lexical)
    (h' : ∀ part ∈ core'.texts, part.Lexical)
    (hnested : ∀ t ∈ nested, ∀ part ∈ t.texts, part.Lexical)
    (hnested' : ∀ t ∈ nested', ∀ part ∈ t.texts, part.Lexical)
    (heq : core.entryWith depth (nested.map (TypeDecl.entry (depth + 1))) =
      core'.entryWith depth (nested'.map (TypeDecl.entry (depth + 1))))
    (hskeletons : nested.map (TypeDecl.entry (depth + 1)) =
      nested'.map (TypeDecl.entry (depth + 1)) →
        TypeDecl.skeletons nested = TypeDecl.skeletons nested') :
    (TypeDecl.message core nested).skeleton = (TypeDecl.message core' nested').skeleton := by
  obtain ⟨hdocumentation, hheader, hentries⟩ := Entry.block_inj
    (covers_body h fun t ht => t.covers (hnested t ht) (depth + 1)).formed
    (covers_body h' fun t ht => t.covers (hnested' t ht) (depth + 1)).formed heq
  obtain ⟨hfields, honeofs, hranges, htypes⟩ :=
    (sorted_body h hnested (depth + 1)).inj (sorted_body h' hnested' (depth + 1)) hentries
  simp only [texts, List.forall_mem_cons, List.forall_mem_append, List.forall_mem_flatMap] at h h'
  obtain ⟨-, -, ⟨⟨-, hfield⟩, honeof⟩, -⟩ := h
  obtain ⟨-, -, ⟨⟨-, hfield'⟩, honeof'⟩, -⟩ := h'
  have hfields : core.fields.map Field.skeleton = core'.fields.map Field.skeleton := by
    apply map_eq_map_of_imp ?_ hfields
    intro field hmem field' hmem' hsame
    exact Field.skeleton_eq (hfield field hmem) (hfield' field' hmem') hsame
  have honeofs : core.oneofs.map Oneof.skeleton = core'.oneofs.map Oneof.skeleton := by
    apply map_eq_map_of_imp ?_ honeofs
    intro oneof hmem oneof' hmem' hsame
    exact Oneof.skeleton_eq (honeof oneof hmem) (honeof' oneof' hmem') hsame
  have hranges : core.extensionRanges.map ExtensionRange.skeleton =
      core'.extensionRanges.map ExtensionRange.skeleton := by
    apply map_eq_map_of_imp ?_ hranges
    intro range _ range' _ hsame
    exact ExtensionRange.skeleton_eq hsame
  have hname := Name.eq_of_toList_eq (List.append_cancel_left hheader)
  rw [TypeDecl.skeleton, TypeDecl.skeleton, hname, hdocumentation, hfields, honeofs, hranges,
    hskeletons htypes]

theorem EnumDecl.entry_ne {depth : Nat} (decl : EnumDecl) (core : MessageCore)
    (nested : List Entry) : decl.entry depth ≠ core.entryWith depth nested := by
  intro heq
  obtain ⟨ending, -, hhead⟩ := Entry.head_block depth decl.documentation
    ("enum ".toList ++ decl.name.text.toList) (decl.body (depth + 1))
  obtain ⟨ending', -, hhead'⟩ := Entry.head_block depth core.documentation
    ("message ".toList ++ core.name.text.toList) (core.bodyWith (depth + 1) nested)
  have hsame := (hhead.symm.trans (congrArg Entry.head heq)).trans hhead'
  exact absurd (List.cons.inj hsame).1 (by decide)

namespace TypeDecl

theorem lexical_message_iff {core : MessageCore} {nested : List TypeDecl} :
    (∀ part ∈ texts (.message core nested), part.Lexical) ↔
      (∀ part ∈ core.texts, part.Lexical) ∧ ∀ t ∈ nested, ∀ part ∈ t.texts, part.Lexical := by
  rw [texts, textsOfEach_eq_flatMap, List.forall_mem_append, List.forall_mem_flatMap]

mutual

theorem skeleton_eq : ∀ (t u : TypeDecl) {depth : Nat}, (∀ part ∈ t.texts, part.Lexical) →
    (∀ part ∈ u.texts, part.Lexical) → t.entry depth = u.entry depth → t.skeleton = u.skeleton
  | .enum decl, .enum decl', depth, h, h', heq => by
    rw [entry, entry] at heq
    exact EnumDecl.skeleton_eq h h' heq
  | .enum decl, .message core nested, depth, _, _, heq => by
    rw [entry, entry] at heq
    exact absurd heq (decl.entry_ne core _)
  | .message core nested, .enum decl, depth, _, _, heq => by
    rw [entry, entry] at heq
    exact absurd heq.symm (decl.entry_ne core _)
  | .message core nested, .message core' nested', depth, h, h', heq => by
    rw [entry, entry, entries_eq_map, entries_eq_map] at heq
    obtain ⟨hcore, hnested⟩ := lexical_message_iff.mp h
    obtain ⟨hcore', hnested'⟩ := lexical_message_iff.mp h'
    -- the nested entries stand one level deeper, hence the induction over all depths
    refine MessageCore.skeleton_eq hcore hcore' hnested hnested' heq ?_
    exact skeletons_eq nested nested' hnested hnested'

theorem skeletons_eq : ∀ (ts us : List TypeDecl) {depth : Nat},
    (∀ t ∈ ts, ∀ part ∈ t.texts, part.Lexical) → (∀ u ∈ us, ∀ part ∈ u.texts, part.Lexical) →
      ts.map (entry depth) = us.map (entry depth) → skeletons ts = skeletons us
  | [], [], _, _, _, _ => rfl
  | [], _ :: _, _, _, _, heq => nomatch heq
  | _ :: _, [], _, _, _, heq => nomatch heq
  | t :: ts, u :: us, depth, h, h', heq => by
    obtain ⟨ht, hts⟩ := List.forall_mem_cons.mp h
    obtain ⟨hu, hus⟩ := List.forall_mem_cons.mp h'
    obtain ⟨hhead, htail⟩ := List.cons.inj heq
    rw [skeletons, skeletons, skeleton_eq t u ht hu hhead, skeletons_eq ts us hts hus htail]

end

end TypeDecl

/-! ### Lines are read back from their text -/

namespace Line

theorem body_inj {line line' : Line} (h : line = .blank ∨ line.Within 0)
    (h' : line' = .blank ∨ line'.Within 0) (heq : line.body = line'.body) : line = line' := by
  have hmargin : ∀ depth, ∀ c ∈ margin depth, c = ' ' :=
    fun depth c hc => List.eq_of_mem_replicate hc
  rcases h with rfl | ⟨depth, c, cs, rfl, -, hc⟩
  · rcases h' with rfl | ⟨depth', c', cs', rfl, -, -⟩
    · rfl
    · simp [body] at heq
  · rcases h' with rfl | ⟨depth', c', cs', rfl, -, hc'⟩
    · simp [body] at heq
    · obtain ⟨hmargins, hcontent⟩ := append_inj_of_forall (hmargin depth) (hmargin depth')
        (by simpa using hc) (by simpa using hc') heq
      have hlength := congrArg List.length hmargins
      simp only [margin, List.length_replicate] at hlength
      rw [hcontent, show depth = depth' by omega]

theorem map_body_inj {lines lines' : List Line} (h : ∀ line ∈ lines, line = .blank ∨ line.Within 0)
    (h' : ∀ line ∈ lines', line = .blank ∨ line.Within 0)
    (heq : lines.map body = lines'.map body) : lines = lines' := by
  have hid : lines.map id = lines'.map id := by
    apply map_eq_map_of_imp ?_ heq
    intro line hline line' hline' hsame
    exact body_inj (h line hline) (h' line' hline') hsame
  simpa using hid

end Line

theorem Covers.within {depth : Nat} {layout : List Line} {entries : List Entry}
    (h : Covers depth layout entries) : ∀ line ∈ layout, line = .blank ∨ line.Within depth := by
  intro line hline
  cases hblank : line with
  | blank => exact Or.inl rfl
  | text d content =>
    refine Or.inr ?_
    rw [← hblank]
    have hdense : line ∈ Line.dense layout :=
      List.mem_filter.mpr ⟨hline, by simp [hblank, Line.isBlank]⟩
    rw [h.dense] at hdense
    obtain ⟨entry, hentry, hmem⟩ := List.mem_flatMap.mp hdense
    exact (h.formed entry hentry).within line hmem

namespace TypeDecl

/-- **The text of a type determines its skeleton.** -/
theorem skeleton_eq_of_render_eq (t u : TypeDecl) (ht : ∀ part ∈ t.texts, part.Lexical)
    (hu : ∀ part ∈ u.texts, part.Lexical) (h : t.render = u.render) :
    t.skeleton = u.skeleton := by
  -- from the text to its lines, from the lines to the entry, and from there to the skeleton
  have htlaid := t.laidOut fun part hpart => (ht part hpart).unbroken
  have hulaid := u.laidOut fun part hpart => (hu part hpart).unbroken
  have htcovers := t.covers ht 0
  have hucovers := u.covers hu 0
  have hbodies : (t.layout 0).map Line.body = (u.layout 0).map Line.body := by
    rw [← Line.lines_writeAll (htlaid.plain 0), ← Line.lines_writeAll (hulaid.plain 0),
      ← htlaid.written, ← hulaid.written, h]
  have hlayout : t.layout 0 = u.layout 0 :=
    Line.map_body_inj htcovers.within hucovers.within hbodies
  have hlines : [t.entry 0].flatMap (Entry.lines 0) = [u.entry 0].flatMap (Entry.lines 0) := by
    rw [← htcovers.dense, ← hucovers.dense, hlayout]
  have hentries := Entry.flatMap_lines_inj htcovers.formed hucovers.formed hlines
  exact skeleton_eq t u ht hu (List.cons.inj hentries).1

/-- A message whose heads come close to one another: a field with the type
    `extensions`, one with the type `optional`, and an enum value named `option`. -/
def lookalike (qualifiedName documentation : String) (lazily : SettingValue) : TypeDecl :=
  .message
    { name := ⟨"Record", by decide⟩
      qualifiedName
      documentation
      settings :=
        [⟨⟨"limits.upper", by decide⟩, true, .map [("a", .list [.string "\x7d\nx = 1;"])]⟩]
      fields :=
        [⟨.singular, ⟨"extensions", by decide⟩, ⟨"x", by decide⟩, 1, "", []⟩,
          ⟨.singular, ⟨"optional", by decide⟩, ⟨"y", by decide⟩, 2, "// not\n\n a field",
            [⟨⟨"lazy", by decide⟩, false, lazily⟩]⟩]
      oneofs := [⟨⟨"pick", by decide⟩, "", []⟩]
      extensionRanges := [ExtensionRange.single "" 7, ExtensionRange.single "" maxTag] }
    [.enum ⟨⟨"Mode", by decide⟩, "", "", [], [⟨⟨"option", by decide⟩, 3, "", []⟩]⟩]

theorem skeleton_lookalike :
    (∀ part ∈ (lookalike "a.Record" "first\n" (.boolean true)).texts, part.Lexical) ∧
    (∀ part ∈ (lookalike "" "first" (.identifier "true")).texts, part.Lexical) ∧
    (lookalike "a.Record" "first\n" (.boolean true)).render =
      (lookalike "" "first" (.identifier "true")).render ∧
    (lookalike "a.Record" "first\n" (.boolean true)).skeleton =
      (lookalike "" "first" (.identifier "true")).skeleton :=
  ⟨by decide, by decide, by decide +kernel,
    skeleton_eq_of_render_eq _ _ (by decide) (by decide) (by decide +kernel)⟩

end TypeDecl

end WireSchema
