/-
  WireSchema/Proofs/TokenCheck.lean
  =================================
  **The token check sees every depth.**  `Setting.make` checks the tokens of a value and
  stops at the settings nested in it.  Where these were obtained from `Setting.make` or
  from reading, the check says what a check of all texts at all depths would say: it
  accepts the value if no text is empty, and otherwise it reports the kind of the first
  empty one (`emptyToken?_eq_findSome?`).

  First means first in `texts`, and `texts` has the order in which a value is written
  (`written_texts_sublist_render`).  Line ends in a text are the one thing that may be lost
  there, since every map and list around it is cut into lines and shifted.
-/
import Mathlib.Data.List.Flatten
import WireSchema.Proofs.WellFormed
import WireSchema.Proofs.LaidOut

namespace WireSchema

/-! ### The check at every depth -/

/-- What a text of the given role is reported as when it is empty.  Documentation may
    be. -/
def TextRole.required? : TextRole → Option RequiredText
  | .name => some .name
  | .typeRef => some .typeReference
  | .documentation => none
  | .settingName _ => some .name
  | .identifier => some .identifier
  | .float => some .float
  | .mapKey => some .mapKey

/-- What is wrong with a text by itself. -/
def TextPart.missing? (part : TextPart) : Option RequiredText :=
  if part.text = "" then part.role.required? else none

theorem TextPart.missing?_of_present {part : TextPart} (h : part.Present) :
    part.missing? = none := by
  obtain ⟨role, text⟩ := part
  rcases h with hrole | htext
  · subst hrole
    simp [missing?, TextRole.required?]
  · exact if_neg htext

theorem findSome?_missing?_of_complete {texts : List TextPart} (h : Complete texts) :
    texts.findSome? TextPart.missing? = none :=
  List.findSome?_eq_none_iff.mpr fun part hpart => TextPart.missing?_of_present (h part hpart)

namespace SettingValue

theorem emptyTokenInEntries?_cons (entry : String × SettingValue)
    (entries : List (String × SettingValue)) :
    emptyTokenInEntries? (entry :: entries) =
      (TextPart.missing? ⟨.mapKey, entry.1⟩).or
        (entry.2.emptyToken?.or (emptyTokenInEntries? entries)) := by
  obtain ⟨key, value⟩ := entry
  rw [emptyTokenInEntries?, TextPart.missing?]
  split
  · rfl
  · rfl

/-- **The token check is the check of all texts**, although it stops at the settings
    nested in a value: those have been checked. -/
theorem emptyToken?_eq_findSome? {value : SettingValue} (h : value.Checked) :
    value.emptyToken? = value.texts.findSome? TextPart.missing? := by
  induction value using inductionOnItems with
  | string text => rfl
  | integer value => rfl
  | boolean value => rfl
  | identifier text =>
    rw [texts, List.findSome?_singleton, emptyToken?, TextPart.missing?]
    rfl
  | float text =>
    rw [texts, List.findSome?_singleton, emptyToken?, TextPart.missing?]
    rfl
  | nested name custom value ih =>
    -- a nested setting is complete, so neither of the two checks finds anything
    have hcomplete : Complete (texts (.nested name custom value)) := by
      rw [texts, complete_cons]
      exact ⟨present_name (.settingName custom) name, h⟩
    exact (findSome?_missing?_of_complete hcomplete).symm
  | map entries ih =>
    have hentries := checkedEntries_iff.mp h
    rw [emptyToken?, texts, textsOfEntries_eq_flatMap]
    clear h
    induction entries with
    | nil => rfl
    | cons entry entries ihrest =>
      obtain ⟨hhead, htail⟩ := List.forall_mem_cons.mp hentries
      obtain ⟨ihhead, ihtail⟩ := List.forall_mem_cons.mp ih
      rw [emptyTokenInEntries?_cons, List.flatMap_cons, List.findSome?_append,
        ← List.singleton_append, List.findSome?_append, List.findSome?_singleton,
        ihhead hhead, ihrest ihtail htail, Option.or_assoc]
  | list values ih =>
    have hvalues := checkedEach_iff.mp h
    rw [emptyToken?, texts, textsOfEach_eq_flatMap]
    clear h
    induction values with
    | nil => rfl
    | cons value values ihrest =>
      obtain ⟨hhead, htail⟩ := List.forall_mem_cons.mp hvalues
      obtain ⟨ihhead, ihtail⟩ := List.forall_mem_cons.mp ih
      rw [emptyTokenInList?, List.flatMap_cons, List.findSome?_append, ihhead hhead,
        ihrest ihtail htail]

/-- A value is checked if the settings in it were obtained. -/
theorem checked_of_obtainable_settings {value : SettingValue}
    (h : ∀ setting ∈ value.settings, setting.Obtainable) : value.Checked := by
  induction value using inductionOnItems with
  | nested name custom value ih =>
    rw [settings, List.forall_mem_singleton] at h
    exact (complete_cons.mp h.complete).2
  | map entries ih =>
    rw [settings, settingsOfEntries_eq_flatMap, List.forall_mem_flatMap] at h
    exact checkedEntries_iff.mpr fun entry hentry => ih entry hentry (h entry hentry)
  | list values ih =>
    rw [settings, settingsOfEach_eq_flatMap, List.forall_mem_flatMap] at h
    exact checkedEach_iff.mpr fun value hvalue => ih value hvalue (h value hvalue)
  | _ => trivial

/-- Only a token can be empty: the name of a nested setting never is. -/
theorem role_of_mem_texts {value : SettingValue} {part : TextPart} (hpart : part ∈ value.texts)
    (hempty : part.text = "") : part.role ∈ [.identifier, .float, .mapKey] := by
  induction value using inductionOnItems with
  | string text => exact absurd hpart List.not_mem_nil
  | integer value => exact absurd hpart List.not_mem_nil
  | boolean value => exact absurd hpart List.not_mem_nil
  | identifier text =>
    rw [texts, List.mem_singleton] at hpart
    simp [hpart]
  | float text =>
    rw [texts, List.mem_singleton] at hpart
    simp [hpart]
  | nested name custom value ih =>
    rw [texts, List.mem_cons] at hpart
    rcases hpart with rfl | hpart
    · exact absurd hempty name.nonempty
    · exact ih hpart
  | map entries ih =>
    rw [texts, textsOfEntries_eq_flatMap, List.mem_flatMap] at hpart
    obtain ⟨entry, hentry, hpart⟩ := hpart
    rcases List.mem_cons.mp hpart with rfl | hpart
    · simp
    · exact ih entry hentry hpart
  | list values ih =>
    rw [texts, textsOfEach_eq_flatMap, List.mem_flatMap] at hpart
    obtain ⟨value, hvalue, hpart⟩ := hpart
    exact ih value hvalue hpart

end SettingValue

/-! ### The order in which texts are written -/

namespace Text

/-- The characters of a text that are no part of a line end. -/
def withoutBreaks (text : Text) : Text := text.filter fun c => c != '\n' && c != '\r'

theorem withoutBreaks_sublist (text : Text) : (withoutBreaks text).Sublist text :=
  List.filter_sublist

@[simp] theorem withoutBreaks_nil : withoutBreaks [] = [] := rfl

theorem withoutBreaks_append (left right : Text) :
    withoutBreaks (left ++ right) = withoutBreaks left ++ withoutBreaks right :=
  List.filter_append left right

theorem withoutBreaks_flatMap {α : Type} (entries : List α) (render : α → Text) :
    withoutBreaks (entries.flatMap render) =
      entries.flatMap fun entry => withoutBreaks (render entry) :=
  List.filter_flatMap

/-- Cutting a text into lines takes nothing away but line ends. -/
theorem withoutBreaks_flatten_lines (text : Text) :
    withoutBreaks (lines text).flatten = withoutBreaks text := by
  fun_induction lines text with
  | case1 => rfl
  | case2 cs ih => simpa [withoutBreaks] using ih
  | case3 cs ih => simpa [withoutBreaks] using ih
  | case4 c cs hfeed hreturn ih =>
    have hflatten : (consLine c (lines cs)).flatten = c :: (lines cs).flatten := by
      cases lines cs with
      | nil => rfl
      | cons line rest => rfl
    rw [hflatten]
    simp only [withoutBreaks, List.filter_cons] at ih ⊢
    rw [ih]

theorem withoutBreaks_sublist_indent (text : Text) :
    (withoutBreaks text).Sublist (indent text) := by
  have hline : ∀ line : Text, line.Sublist (indentLine line) := by
    intro line
    cases line with
    | nil => exact List.nil_sublist _
    | cons c cs =>
      exact (List.sublist_append_left (c :: cs) ['\n']).trans
        (List.sublist_append_right [' ', ' '] _)
  rw [← withoutBreaks_flatten_lines, indent, ← List.flatMap_id]
  exact (withoutBreaks_sublist _).trans (List.Sublist.flatMap_right _ fun line _ => hline line)

theorem withoutBreaks_sublist_itemLines (items : List Text) :
    (withoutBreaks items.flatten).Sublist (itemLines items) := by
  rw [itemLines]
  fun_induction withCommas items with
  | case1 => exact List.nil_sublist _
  | case2 item => simpa using withoutBreaks_sublist_indent item
  | case3 item items hitems ih =>
    rw [List.flatten_cons, withoutBreaks_append, List.flatMap_cons]
    refine List.Sublist.append ?_ ih
    have hitem := withoutBreaks_sublist_indent (item ++ [','])
    rw [withoutBreaks_append] at hitem
    exact (List.sublist_append_left _ _).trans hitem

theorem withoutBreaks_sublist_enclosed (opening closing : Char) (items : List Text) :
    (withoutBreaks items.flatten).Sublist (enclosed opening closing items) := by
  cases items with
  | nil => exact List.nil_sublist _
  | cons item items =>
    have hitems := withoutBreaks_sublist_itemLines (item :: items)
    rw [enclosed]
    exact (hitems.trans (List.sublist_append_right [opening, '\n'] _)).trans
      (List.sublist_append_left _ [closing])
    exact nofun

end Text

namespace SettingValue

/-- The characters of texts, one text after the other, without line ends. -/
def written (parts : List TextPart) : Text :=
  Text.withoutBreaks (parts.flatMap fun part => part.text.toList)

theorem written_cons (part : TextPart) (parts : List TextPart) :
    written (part :: parts) = Text.withoutBreaks part.text.toList ++ written parts :=
  Text.withoutBreaks_append _ _

theorem written_flatMap {α : Type} (entries : List α) (parts : α → List TextPart) :
    written (entries.flatMap parts) = entries.flatMap fun entry => written (parts entry) := by
  rw [written, List.flatMap_assoc, Text.withoutBreaks_flatMap]
  rfl

/-- The items of a map or list hold their texts, so the brackets around them do. -/
theorem written_sublist_enclosed {α : Type} {entries : List α} {parts : α → List TextPart}
    {render : α → Text} (opening closing : Char)
    (h : ∀ entry ∈ entries, (written (parts entry)).Sublist (render entry)) :
    (written (entries.flatMap parts)).Sublist
      (Text.enclosed opening closing (entries.map render)) := by
  have hitems : (written (entries.flatMap parts)).Sublist (entries.map render).flatten := by
    rw [written_flatMap, ← List.flatMap_def]
    exact List.Sublist.flatMap_right _ h
  have hclean : Text.withoutBreaks (written (entries.flatMap parts)) =
      written (entries.flatMap parts) := by
    simp [written, Text.withoutBreaks]
  rw [← hclean]
  exact (hitems.filter _).trans (Text.withoutBreaks_sublist_enclosed opening closing _)

/-- **Texts are listed in the order in which they are written.** -/
theorem written_texts_sublist_render (value : SettingValue) :
    (written value.texts).Sublist value.render := by
  induction value using inductionOnItems with
  | string text => exact List.nil_sublist _
  | integer value => exact List.nil_sublist _
  | boolean value => exact List.nil_sublist _
  | identifier text =>
    rw [texts, written_cons, render]
    simpa [written] using Text.withoutBreaks_sublist text.toList
  | float text =>
    rw [texts, written_cons, render]
    simpa [written] using Text.withoutBreaks_sublist text.toList
  | nested name custom value ih =>
    have hname : name.text.toList.Sublist (heading name custom) := by
      rw [heading]
      split
      · exact (List.sublist_cons_self '(' _).trans (List.sublist_append_left _ [')'])
      · exact List.Sublist.refl _
    rw [texts, written_cons, render, List.append_assoc]
    apply List.Sublist.append
    · exact (Text.withoutBreaks_sublist _).trans hname
    · exact ih.trans (List.sublist_append_right _ _)
  | map entries ih =>
    rw [texts, textsOfEntries_eq_flatMap, render, renderEntries_eq_map]
    apply written_sublist_enclosed
    intro entry hentry
    rw [written_cons]
    apply List.Sublist.append
    · exact Text.withoutBreaks_sublist _
    · exact (ih entry hentry).trans (List.sublist_append_right [':', ' '] _)
  | list values ih =>
    rw [texts, textsOfEach_eq_flatMap, render, renderEach_eq_map]
    exact written_sublist_enclosed _ _ ih

end SettingValue

/-! ### Settings -/

namespace Setting

/-- How an empty token is reported: the role of its text, the part that the error names,
    and the message. -/
def tokenErrors : List (TextRole × RequiredText × String) :=
  [(.identifier, .identifier, "invalid argument: option identifier must not be empty"),
    (.float, .float, "invalid argument: option float must not be empty"),
    (.mapKey, .mapKey, "invalid argument: option map key must not be empty")]

theorem make_of_ne {name : String} (h : name ≠ "") (custom : Bool) (value : SettingValue) :
    make name custom value =
      match value.emptyToken? with
      | some part => .error (.emptyText part)
      | none => .ok ⟨⟨name, h⟩, custom, value⟩ := by
  have hname : Name.make name = .ok ⟨name, h⟩ := dif_neg h
  rw [make, hname]
  rfl

/-- A token's role decides how it is reported when it is empty. -/
theorem exists_tokenError {role : TextRole} (h : role ∈ [.identifier, .float, .mapKey]) :
    ∃ kind, role.required? = some kind ∧
      (role, kind, (SchemaError.emptyText kind).message) ∈ tokenErrors := by
  simp only [List.mem_cons, List.not_mem_nil, or_false] at h
  rcases h with rfl | rfl | rfl
  · exact ⟨.identifier, rfl, by decide⟩
  · exact ⟨.float, rfl, by decide⟩
  · exact ⟨.mapKey, rfl, by decide⟩

/-- **The token check sees every depth and reports the first empty token.**  The name is
    checked before the value is looked at. -/
theorem make_reports_first_empty_token (name : String) (custom : Bool) (value : SettingValue)
    (h : ∀ setting ∈ value.settings, setting.Obtainable) :
    ((∃ setting, make name custom value = .ok setting) ↔
      name ≠ "" ∧ ∀ part ∈ value.texts, part.text ≠ "") ∧
    (∀ (before : List TextPart) (part : TextPart) (after : List TextPart), name ≠ "" →
      value.texts = before ++ part :: after → (∀ earlier ∈ before, earlier.text ≠ "") →
      part.text = "" →
        ∃ kind, (part.role, kind, (SchemaError.emptyText kind).message) ∈ tokenErrors ∧
          make name custom value = .error (.emptyText kind)) ∧
    (∀ other : SettingValue, make "" custom other = .error (.emptyText .name)) ∧
    (SettingValue.written value.texts).Sublist value.render := by
  have hchecked := SettingValue.checked_of_obtainable_settings h
  have hdeep := SettingValue.emptyToken?_eq_findSome? hchecked
  refine ⟨⟨?_, ?_⟩, ?_, fun other => rfl, value.written_texts_sublist_render⟩
  · rintro ⟨setting, hmake⟩
    obtain ⟨hname, -, -, hnone⟩ := make_eq_ok_iff.mp hmake
    refine ⟨hname ▸ setting.name.nonempty, ?_⟩
    intro part hpart hempty
    obtain ⟨kind, hkind, -⟩ := exists_tokenError (SettingValue.role_of_mem_texts hpart hempty)
    rw [hdeep, List.findSome?_eq_none_iff] at hnone
    have hmissing := hnone part hpart
    rw [TextPart.missing?, if_pos hempty, hkind] at hmissing
    exact nomatch hmissing
  · rintro ⟨hname, htexts⟩
    have hnone : value.emptyToken? = none := by
      rw [hdeep]
      exact findSome?_missing?_of_complete fun part hpart => Or.inr (htexts part hpart)
    exact ⟨⟨⟨name, hname⟩, custom, value⟩, make_eq_ok_iff.mpr ⟨rfl, rfl, rfl, hnone⟩⟩
  · intro before part after hname hsplit hbefore hempty
    have hpart : part ∈ value.texts := by
      rw [hsplit]
      exact List.mem_append_right before List.mem_cons_self
    obtain ⟨kind, hkind, herror⟩ := exists_tokenError (SettingValue.role_of_mem_texts hpart hempty)
    have hfirst : value.emptyToken? = some kind := by
      rw [hdeep]
      refine List.findSome?_eq_some_iff.mpr ⟨before, part, after, hsplit, ?_, ?_⟩
      · rw [TextPart.missing?, if_pos hempty, hkind]
      · exact fun earlier hearlier => if_neg (hbefore earlier hearlier)
    exact ⟨kind, herror, by rw [make_of_ne hname, hfirst]⟩

/-- A value with a nested setting in a list, and two empty tokens after it.  The check
    steps over the setting and reports the float literal before the key. -/
theorem make_reports_float :
    (∀ setting ∈ SettingValue.settings (.list [Declaration.quota.toValue,
        .map [("a", .float ""), ("", .boolean true)]]), setting.Obtainable) ∧
      make "limits" true (.list [Declaration.quota.toValue,
        .map [("a", .float ""), ("", .boolean true)]]) = .error (.emptyText .float) := by
  have hsettings : ∀ setting ∈ SettingValue.settings (.list [Declaration.quota.toValue,
      .map [("a", .float ""), ("", .boolean true)]]), setting.Obtainable :=
    List.forall_mem_singleton.mpr Declaration.obtainable_quota
  refine ⟨hsettings, ?_⟩
  obtain ⟨kind, hkind, hmake⟩ := (make_reports_first_empty_token "limits" true _ hsettings).2.1
    [⟨.settingName true, "quota"⟩, ⟨.mapKey, "a"⟩, ⟨.settingName false, "peak"⟩,
      ⟨.identifier, "B"⟩, ⟨.mapKey, "a"⟩] ⟨.float, ""⟩ [⟨.mapKey, ""⟩] (by decide) rfl
    (by decide) rfl
  obtain rfl : kind = .float := by
    revert hkind
    cases kind <;> decide
  exact hmake

end Setting

end WireSchema
