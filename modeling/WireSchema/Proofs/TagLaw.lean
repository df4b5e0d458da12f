/-
  WireSchema/Proofs/TagLaw.lean
  =============================
  **The tag law of a file.**  Checking a file finds no fault if and only if no type
  at any path holds a tag twice.  Otherwise the fault is that of the first type, in
  the order of paths, that does.  The log has one event for each type up to there.

  The law itself does not mention the check: `TypeDecl.TagsDistinct` says what is
  asked of a type and `TypeDecl.Judged` what is logged and reported of it.  One type
  is judged by `TypeDecl.checkTags_judged`, several in a row by `Walked`.
-/
import WireSchema.Proofs.Walk
import WireSchema.Tags
import Mathlib.Data.List.Nodup

namespace WireSchema

/-! ### The law -/

/-- What holds a tag in a message: its fields, the members of its oneofs, and the
    fields of the extend blocks that name it in full. -/
def MessageCore.tagHolders (core : MessageCore) (extendBlocks : List ExtendBlock) : List Field :=
  core.fields ++ core.oneofs.flatMap (fun oneof => oneof.fields) ++
    (extendBlocks.filter fun extend =>
      extend.qualifiedName ≠ "" ∧ extend.qualifiedName = core.qualifiedName).flatMap
        fun extend => extend.fields

namespace TypeDecl

/-- No tag is held twice in the scope of the type itself.  An enum may allow it. -/
def TagsDistinct (extendBlocks : List ExtendBlock) : TypeDecl → Prop
  | .enum decl => decl.allowsAlias = false → (decl.values.map EnumValue.tag).Nodup
  | .message core _ => ((core.tagHolders extendBlocks).map Field.tag).Nodup

/-- The one event that is logged of a type, and its fault.  A duplicate is the
    first entry whose tag an entry before it holds. -/
inductive Judged (extendBlocks : List ExtendBlock) :
    TypeDecl → Event → Option SchemaError → Prop
  | aliasedEnum {decl : EnumDecl} (halias : decl.allowsAlias = true) :
    Judged extendBlocks (.enum decl) (.aliasedEnum decl.name) none
  | distinctEnum {decl : EnumDecl} (halias : decl.allowsAlias = false)
    (hdistinct : (decl.values.map EnumValue.tag).Nodup) :
    Judged extendBlocks (.enum decl) (.distinctEnumTags decl.values.length) none
  | duplicateEnum {decl : EnumDecl} {before after : List EnumValue} {holder value : EnumValue}
    (halias : decl.allowsAlias = false) (hvalues : decl.values = before ++ value :: after)
    (hbefore : (before.map EnumValue.tag).Nodup) (hholder : holder ∈ before)
    (htag : holder.tag = value.tag) :
    Judged extendBlocks (.enum decl)
      (.duplicateEnumTag value.tag holder.name value.name decl.name)
      (some (.duplicateEnumTag value.tag))
  | distinctFields {core : MessageCore} {nested : List TypeDecl}
    (hdistinct : ((core.tagHolders extendBlocks).map Field.tag).Nodup) :
    Judged extendBlocks (.message core nested)
      (.distinctFieldTags core.name (core.tagHolders extendBlocks).length) none
  | duplicateField {core : MessageCore} {nested : List TypeDecl} {before after : List Field}
    {holder field : Field}
    (hfields : core.tagHolders extendBlocks = before ++ field :: after)
    (hbefore : (before.map Field.tag).Nodup) (hholder : holder ∈ before)
    (htag : holder.tag = field.tag) :
    Judged extendBlocks (.message core nested)
      (.duplicateFieldTag field.tag holder.name field.name core.name)
      (some (.duplicateFieldTag
        (if core.qualifiedName = "" then core.name.text else core.qualifiedName) field.tag))

def remark : TypeDecl → Option SchemaError → Level × String
  | .enum decl, none =>
    (.trace, if decl.allowsAlias then "skipping aliased enum" else "enum value tags are unique")
  | .enum _, some _ => (.debug, "duplicate enum value tag")
  | .message _ _, none => (.trace, "field tags are unique")
  | .message _ _, some _ => (.debug, "duplicate field tag")

theorem Judged.remark_eq {extendBlocks : List ExtendBlock} {t : TypeDecl} {event : Event}
    {fault : Option SchemaError} (h : t.Judged extendBlocks event fault) :
    (event.level, event.message) = t.remark fault := by
  cases h with
  | aliasedEnum halias => simp [Event.level, Event.message, remark, halias]
  | distinctEnum halias _ => simp [Event.level, Event.message, remark, halias]
  | duplicateEnum _ _ _ _ _ => rfl
  | distinctFields _ => rfl
  | duplicateField _ _ _ _ => rfl

end TypeDecl

/-! ### The first clash -/

theorem not_nodup_of_clash {α : Type} {tag : α → Int32} {entries before after : List α}
    {holder entry : α} (hentries : entries = before ++ entry :: after) (hholder : holder ∈ before)
    (htag : tag holder = tag entry) : ¬ (entries.map tag).Nodup := by
  intro hnodup
  rw [hentries, List.map_append, List.map_cons] at hnodup
  have hdisjoint := (List.nodup_append.mp hnodup).2.2
  exact hdisjoint (tag holder) (List.mem_map_of_mem hholder) (tag entry) List.mem_cons_self htag

/-- Whether a type keeps the law is seen from its fault. -/
theorem TypeDecl.Judged.fault_eq_none_iff {extendBlocks : List ExtendBlock} {t : TypeDecl}
    {event : Event} {fault : Option SchemaError} (h : t.Judged extendBlocks event fault) :
    fault = none ↔ t.TagsDistinct extendBlocks := by
  cases h with
  | aliasedEnum halias => simp [TagsDistinct, halias]
  | distinctEnum _ hdistinct => simp [TagsDistinct, hdistinct]
  | duplicateEnum halias hvalues _ hholder htag =>
    simp [TagsDistinct, halias, not_nodup_of_clash hvalues hholder htag]
  | distinctFields hdistinct => simp [TagsDistinct, hdistinct]
  | duplicateField hfields _ hholder htag =>
    simp [TagsDistinct, not_nodup_of_clash hfields hholder htag]

theorem nodup_seen {α : Type} {tag : α → Int32} {seen : List α} {entry : α}
    (hseen : (seen.map tag).Nodup)
    (hfind : (seen.find? fun holder => tag holder == tag entry) = none) :
    ((entry :: seen).map tag).Nodup := by
  refine List.nodup_cons.mpr ⟨?_, hseen⟩
  intro hmem
  obtain ⟨holder, hholder, htag⟩ := List.mem_map.mp hmem
  exact List.find?_eq_none.mp hfind holder hholder (by simp [htag])

/-- Without a clash, the entries seen and the entries to come are distinct. -/
theorem nodup_of_firstClash_eq_none {α : Type} {tag : α → Int32} {seen entries : List α}
    (hseen : (seen.map tag).Nodup) (h : firstClash tag seen entries = none) :
    ((seen.reverse ++ entries).map tag).Nodup := by
  -- each step moves an entry over to those seen, which keeps the whole list as it is
  induction entries generalizing seen with
  | nil => simpa [List.nodup_reverse] using hseen
  | cons entry entries ih =>
    simp only [firstClash] at h
    split at h
    · exact nomatch h
    · rename_i hfind
      simpa using ih (nodup_seen hseen hfind) h

/-- What is found is the first entry whose tag was held before. -/
theorem exists_of_firstClash_eq_some {α : Type} {tag : α → Int32} {seen entries : List α}
    {holder entry : α} (hseen : (seen.map tag).Nodup)
    (h : firstClash tag seen entries = some (holder, entry)) :
    ∃ before after, seen.reverse ++ entries = before ++ entry :: after ∧
      (before.map tag).Nodup ∧ holder ∈ before ∧ tag holder = tag entry := by
  induction entries generalizing seen with
  | nil => exact nomatch h
  | cons first entries ih =>
    simp only [firstClash] at h
    split at h
    · rename_i found hfind
      obtain ⟨rfl, rfl⟩ := Prod.mk.inj (Option.some.inj h)
      refine ⟨seen.reverse, entries, rfl, ?_, ?_, ?_⟩
      · simpa [List.nodup_reverse] using hseen
      · exact List.mem_reverse.mpr (List.mem_of_find?_eq_some hfind)
      · simpa using List.find?_some hfind
    · rename_i hfind
      simpa using ih (nodup_seen hseen hfind) h

/-! ### One type -/

theorem MessageCore.scope_eq_tagHolders (core : MessageCore) (extendBlocks : List ExtendBlock) :
    core.scope extendBlocks = core.tagHolders extendBlocks := by
  have hextends : (fun extend : ExtendBlock => extend.extendsMessage core) = fun extend =>
      decide (extend.qualifiedName ≠ "" ∧ extend.qualifiedName = core.qualifiedName) := by
    funext extend
    simp [ExtendBlock.extendsMessage, bne, beq_eq_decide]
  rw [scope, tagHolders, allFields, hextends]

theorem checkEnumTags_judged {extendBlocks : List ExtendBlock} {decl : EnumDecl}
    (halias : decl.allowsAlias = false) :
    ∃ event fault, checkEnumTags [decl] = ⟨[event], fault⟩ ∧
      (TypeDecl.enum decl).Judged extendBlocks event fault := by
  have hentries : enumEntries [decl] = decl.values.map fun value => (decl.name, value) := by
    simp [enumEntries]
  have htags : (enumEntries [decl]).map (fun entry => entry.2.tag) =
      decl.values.map EnumValue.tag := by
    simp [hentries, Function.comp_def]
  rcases hclash : firstClash (fun entry => entry.2.tag) [] (enumEntries [decl]) with
    _ | ⟨holder, entry⟩
  · have hnodup := nodup_of_firstClash_eq_none (by simp) hclash
    rw [List.reverse_nil, List.nil_append, htags] at hnodup
    refine ⟨.distinctEnumTags decl.values.length, none, ?_, .distinctEnum halias hnodup⟩
    simp only [checkEnumTags, hclash]
    rw [hentries, List.length_map]
  · obtain ⟨before, after, hsplit, hnodup, hholder, htag⟩ :=
      exists_of_firstClash_eq_some (by simp) hclash
    rw [List.reverse_nil, List.nil_append, hentries] at hsplit
    obtain ⟨first, rest, hvalues, rfl, hrest⟩ := List.map_eq_append_iff.mp hsplit
    obtain ⟨value, later, rfl, rfl, rfl⟩ := List.map_eq_cons_iff.mp hrest
    obtain ⟨held, hheld, rfl⟩ := List.mem_map.mp hholder
    refine ⟨.duplicateEnumTag value.tag held.name value.name decl.name,
      some (.duplicateEnumTag value.tag), ?_, .duplicateEnum halias hvalues ?_ hheld htag⟩
    · simp only [checkEnumTags, hclash]
    · simpa [Function.comp_def] using hnodup

theorem checkFieldTags_judged (extendBlocks : List ExtendBlock) (core : MessageCore)
    (nested : List TypeDecl) :
    ∃ event fault, checkFieldTags core extendBlocks = ⟨[event], fault⟩ ∧
      (TypeDecl.message core nested).Judged extendBlocks event fault := by
  rcases hclash : firstClash Field.tag [] (core.tagHolders extendBlocks) with
    _ | ⟨holder, field⟩
  · refine ⟨_, _, ?_, .distinctFields (nodup_of_firstClash_eq_none (by simp) hclash)⟩
    simp only [checkFieldTags, core.scope_eq_tagHolders, hclash]
  · obtain ⟨before, after, hsplit, hnodup, hholder, htag⟩ :=
      exists_of_firstClash_eq_some (by simp) hclash
    refine ⟨_, _, ?_, .duplicateField hsplit hnodup hholder htag⟩
    simp only [checkFieldTags, core.scope_eq_tagHolders, hclash, MessageCore.title]

theorem TypeDecl.checkTags_judged (extendBlocks : List ExtendBlock) (t : TypeDecl) :
    ∃ event fault, t.checkTags extendBlocks = ⟨[event], fault⟩ ∧
      t.Judged extendBlocks event fault := by
  cases t with
  | enum decl =>
    by_cases halias : decl.allowsAlias = true
    · exact ⟨_, _, if_pos halias, .aliasedEnum halias⟩
    · rw [checkTags, if_neg halias]
      exact checkEnumTags_judged (Bool.eq_false_iff.mpr halias)
  | message core nested => exact checkFieldTags_judged extendBlocks core nested

/-! ### A walk -/

/-- Types judged one after the other, up to the first fault. -/
inductive Walked (extendBlocks : List ExtendBlock) :
    List (Path × TypeDecl) → List Event → Option SchemaError → Prop
  | done : Walked extendBlocks [] [] none
  | pass {path : Path} {t : TypeDecl} {event : Event} {places : List (Path × TypeDecl)}
    {events : List Event} {fault : Option SchemaError} (h : t.Judged extendBlocks event none)
    (hrest : Walked extendBlocks places events fault) :
    Walked extendBlocks ((path, t) :: places) (event :: events) fault
  | stop {path : Path} {t : TypeDecl} {event : Event} {places : List (Path × TypeDecl)}
    {error : SchemaError} (h : t.Judged extendBlocks event (some error)) :
    Walked extendBlocks ((path, t) :: places) [event] (some error)

theorem checkTypes_walked (extendBlocks : List ExtendBlock) (places : List (Path × TypeDecl)) :
    Walked extendBlocks places (checkTypes extendBlocks (places.map Prod.snd)).events
      (checkTypes extendBlocks (places.map Prod.snd)).fault := by
  induction places with
  | nil => exact .done
  | cons place places ih =>
    obtain ⟨path, t⟩ := place
    obtain ⟨event, fault, hcheck, hjudged⟩ := t.checkTags_judged extendBlocks
    simp only [List.map_cons, checkTypes, hcheck]
    cases fault with
    | none => exact .pass hjudged ih
    | some error => exact .stop hjudged

/-- A place before which every type keeps the law: a walk gets there. -/
def Reached (extendBlocks : List ExtendBlock) (places : List (Path × TypeDecl))
    (place : Path × TypeDecl) : Prop :=
  place ∈ places ∧
    ∀ earlier ∈ places, earlier.1 < place.1 → earlier.2.TagsDistinct extendBlocks

/-- A walk gets to its first place, and beyond it only if that keeps the law. -/
theorem reached_cons {extendBlocks : List ExtendBlock} {head place : Path × TypeDecl}
    {places : List (Path × TypeDecl)}
    (hsorted : (head :: places).Pairwise fun a b => a.1 < b.1) :
    Reached extendBlocks (head :: places) place ↔
      place = head ∨ head.2.TagsDistinct extendBlocks ∧ Reached extendBlocks places place := by
  have hfirst := (List.pairwise_cons.mp hsorted).1
  constructor
  · -- a later place has the first one before it, and the first one none
    rintro ⟨hmem, hbefore⟩
    rcases List.mem_cons.mp hmem with rfl | hmem
    · exact Or.inl rfl
    · refine Or.inr ⟨hbefore head List.mem_cons_self (hfirst place hmem), hmem, ?_⟩
      intro earlier hearlier
      exact hbefore earlier (List.mem_cons_of_mem _ hearlier)
  · rintro (rfl | ⟨hhead, hmem, hbefore⟩)
    · refine ⟨List.mem_cons_self, ?_⟩
      intro earlier hearlier hlt
      rcases List.mem_cons.mp hearlier with rfl | hearlier
      · exact absurd hlt (List.lt_irrefl _)
      · exact absurd hlt (List.lt_asymm (hfirst earlier hearlier))
    · refine ⟨List.mem_cons_of_mem _ hmem, ?_⟩
      intro earlier hearlier hlt
      rcases List.mem_cons.mp hearlier with rfl | hearlier
      · exact hhead
      · exact hbefore earlier hearlier hlt

namespace Walked

variable {extendBlocks : List ExtendBlock} {places : List (Path × TypeDecl)} {events : List Event}
  {fault : Option SchemaError}

theorem fault_eq_none_iff (h : Walked extendBlocks places events fault) :
    fault = none ↔ ∀ place ∈ places, place.2.TagsDistinct extendBlocks := by
  induction h with
  | done => simp
  | pass hjudged _ ih =>
    have hhead := hjudged.fault_eq_none_iff.mp rfl
    rw [ih, List.forall_mem_cons]
    constructor
    · intro hrest
      exact ⟨hhead, hrest⟩
    · intro hall
      exact hall.2
  | stop hjudged =>
    constructor
    · exact nofun
    · intro hall
      exact hjudged.fault_eq_none_iff.mpr (hall _ List.mem_cons_self)

theorem exists_fault (h : Walked extendBlocks places events fault)
    (hsorted : places.Pairwise fun a b => a.1 < b.1) {error : SchemaError}
    (hfault : fault = some error) :
    ∃ place event, Reached extendBlocks places place ∧
      place.2.Judged extendBlocks event (some error) := by
  induction h with
  | done => exact nomatch hfault
  | pass hjudged _ ih =>
    obtain ⟨place, event, hreached, hstop⟩ := ih (List.pairwise_cons.mp hsorted).2 hfault
    have hhead := hjudged.fault_eq_none_iff.mp rfl
    exact ⟨place, event, (reached_cons hsorted).mpr (Or.inr ⟨hhead, hreached⟩), hstop⟩
  | stop hjudged =>
    obtain rfl := Option.some.inj hfault
    exact ⟨_, _, (reached_cons hsorted).mpr (Or.inl rfl), hjudged⟩

/-- The events of a walk are those of the types it gets to, in their order. -/
theorem exists_visits (h : Walked extendBlocks places events fault)
    (hsorted : places.Pairwise fun a b => a.1 < b.1) :
    ∃ visits : List (Path × TypeDecl), visits.Pairwise (fun a b => a.1 < b.1) ∧
      (∀ place, place ∈ visits ↔ Reached extendBlocks places place) ∧
      List.Forall₂ (fun place event => ∃ fault, place.2.Judged extendBlocks event fault)
        visits events := by
  induction h with
  | done => exact ⟨[], .nil, by simp [Reached], .nil⟩
  | @pass path t event places events fault hjudged _ ih =>
    obtain ⟨hfirst, hrest⟩ := List.pairwise_cons.mp hsorted
    obtain ⟨visits, hpairwise, hmem, hevents⟩ := ih hrest
    have hhead := hjudged.fault_eq_none_iff.mp rfl
    refine ⟨(path, t) :: visits, ?_, ?_, .cons ⟨none, hjudged⟩ hevents⟩
    · refine List.pairwise_cons.mpr ⟨fun place hplace => ?_, hpairwise⟩
      exact hfirst place ((hmem place).mp hplace).1
    · intro place
      rw [List.mem_cons, hmem place, reached_cons hsorted]
      exact or_congr_right ⟨fun hreached => ⟨hhead, hreached⟩, fun hboth => hboth.2⟩
  | @stop path t event places error hjudged =>
    have hhead : ¬ t.TagsDistinct extendBlocks :=
      fun hdistinct => nomatch hjudged.fault_eq_none_iff.mpr hdistinct
    refine ⟨[(path, t)], List.pairwise_singleton _ _, ?_, .cons ⟨_, hjudged⟩ .nil⟩
    intro place
    rw [List.mem_singleton, reached_cons hsorted]
    exact ⟨Or.inl, fun hor => hor.resolve_right fun hboth => hhead hboth.1⟩

end Walked

/-! ### Files -/

namespace SchemaFile

/-- A check of the file gets to the type at a path: all types before it keep the
    law. -/
def Reaches (file : SchemaFile) (path : Path) (t : TypeDecl) : Prop :=
  file.type? path = some t ∧ ∀ earlier u, earlier < path → file.type? earlier = some u →
    u.TagsDistinct file.extendBlocks

theorem reached_iff {file : SchemaFile} {path : Path} {t : TypeDecl} :
    Reached file.extendBlocks file.places (path, t) ↔ file.Reaches path t := by
  constructor
  · rintro ⟨hmem, hbefore⟩
    refine ⟨mem_places.mp hmem, ?_⟩
    intro earlier u hlt htype
    exact hbefore (earlier, u) (mem_places.mpr htype) hlt
  · rintro ⟨htype, hbefore⟩
    refine ⟨mem_places.mpr htype, ?_⟩
    rintro ⟨earlier, u⟩ hmem hlt
    exact hbefore earlier u hlt (mem_places.mp hmem)

/-- Checking a file decides the tag law, reports the first type that breaks it, and
    logs one event for each type up to there. -/
theorem checkTags_decides (file : SchemaFile) :
    (file.checkTags.fault = none ↔
      ∀ path t, file.type? path = some t → t.TagsDistinct file.extendBlocks) ∧
    (∀ error, file.checkTags.fault = some error →
      ∃ path t event, file.Reaches path t ∧ t.Judged file.extendBlocks event (some error)) ∧
    ∃ visits : List (Path × TypeDecl), visits.Pairwise (fun a b => a.1 < b.1) ∧
      (∀ path t, (path, t) ∈ visits ↔ file.Reaches path t) ∧
      List.Forall₂
        (fun place event => ∃ fault, place.2.Judged file.extendBlocks event fault ∧
          (event.level, event.message) = place.2.remark fault)
        visits file.checkTags.events := by
  have hwalk : Walked file.extendBlocks file.places file.checkTags.events file.checkTags.fault := by
    have hwalk := checkTypes_walked file.extendBlocks file.places
    rw [file.map_places] at hwalk
    exact hwalk
  have hsorted := file.pairwise_places
  refine ⟨?_, ?_, ?_⟩
  · rw [hwalk.fault_eq_none_iff]
    constructor
    · intro hall path t htype
      exact hall (path, t) (mem_places.mpr htype)
    · rintro hall ⟨path, t⟩ hmem
      exact hall path t (mem_places.mp hmem)
  · intro error hfault
    obtain ⟨⟨path, t⟩, event, hreached, hjudged⟩ := hwalk.exists_fault hsorted hfault
    exact ⟨path, t, event, reached_iff.mp hreached, hjudged⟩
  · obtain ⟨visits, hpairwise, hmem, hevents⟩ := hwalk.exists_visits hsorted
    refine ⟨visits, hpairwise, fun path t => (hmem (path, t)).trans reached_iff, ?_⟩
    refine hevents.imp ?_
    rintro place event ⟨fault, hjudged⟩
    exact ⟨fault, hjudged, hjudged.remark_eq⟩

end SchemaFile

end WireSchema
