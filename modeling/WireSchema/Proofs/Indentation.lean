/-
  WireSchema/Proofs/Indentation.lean
  ==================================
  **Shifting finished text is laying it out at its depth.**  Every declaration is
  written by shifting the finished texts of its parts, and the text of a part
  that stands deep inside is cut into lines and put together again once for each
  block, bracketed list and map around it.  The main statement is that the result
  is nevertheless the text of the one-pass layout.

  The proof goes up through the declarations: option values by recursion on the
  value, types by recursion on the nesting, and everything else by putting
  together laid out parts.  The only texts that must not hold line ends are those
  which are written as they are; literals escape them.
-/
import WireSchema.Proofs.LaidOut

namespace WireSchema

/-! ### Pieces without line ends -/

namespace Text

theorem clean_ofInt (value : Int) : Clean (ofInt value) := by
  have hdigits : ∀ n : Nat, Clean (Nat.toDigits 10 n) := by
    intro n
    constructor <;> intro hmem <;>
      exact absurd (Nat.isDigit_of_mem_toDigits (by decide) (by decide) hmem) (by decide)
  cases value with
  | ofNat n => exact hdigits n
  | negSucc n =>
    exact Clean.append (by decide : Clean ['-']) (hdigits (n + 1))

theorem clean_hexByte (n : Nat) : Clean (hexByte n) := by
  have hdigit : ∀ m : Fin 16, Clean [Nat.digitChar m] := by decide
  exact (hdigit ⟨n / 16 % 16, Nat.mod_lt _ (by decide)⟩).append
    (hdigit ⟨n % 16, Nat.mod_lt _ (by decide)⟩)

theorem clean_escape (c : Char) : Clean (escape c) := by
  unfold escape
  split
  · decide
  · decide
  · decide
  · decide
  · decide
  · rename_i hfeed hreturn _
    split
    · exact Clean.append (by decide : Clean ['\\', 'x']) (clean_hexByte c.toNat)
    · simp only [Clean, List.mem_singleton]
      constructor
      · intro h
        exact hfeed h.symm
      · intro h
        exact hreturn h.symm

theorem clean_flatMap {α : Type} {entries : List α} {render : α → Text}
    (h : ∀ entry ∈ entries, Clean (render entry)) : Clean (entries.flatMap render) := by
  simp only [Clean, List.mem_flatMap, not_exists, not_and]
  constructor
  · intro entry hentry
    exact (h entry hentry).1
  · intro entry hentry
    exact (h entry hentry).2

/-- A literal never spans lines. -/
theorem clean_quoted (s : String) : Clean (quoted s) := by
  have hbody : Clean (s.toList.flatMap escape) := clean_flatMap fun c _ => clean_escape c
  exact (Clean.append (by decide : Clean ['"']) hbody).append (by decide)

/-- A comma follows an item unless it is the last one. -/
theorem itemLines_cons (item : Text) (items : List Text) :
    itemLines (item :: items) =
      indent (item ++ if items.isEmpty then [] else [',']) ++ itemLines items := by
  cases items <;> simp [itemLines, withCommas]

end Text

/-! ### Options -/

namespace SettingValue

theorem clean_heading {name : Name} {custom : Bool} (h : Text.Clean name.text.toList) :
    Text.Clean (heading name custom) := by
  cases custom with
  | false => exact h
  | true =>
    exact (Text.Clean.append (by decide : Text.Clean ['(']) h).append (by decide)

theorem clean_joint (value : SettingValue) : Text.Clean value.joint := by
  unfold joint
  split <;> decide

/-- Bracketed items, with what stands before and after them: one line, or a line
    for each bracket and the lines of the items between them. -/
theorem compact_enclosed {lead trail : Text} (hlead : Text.Clean lead)
    (htrail : Text.Clean trail) {opening closing : Char} (hopening : Text.Clean [opening])
    (hclosing : Text.Clean [closing]) {items : List Text} {layout : Nat → List Line}
    (hitems : Compact (Text.itemLines items) layout) :
    Compact (lead ++ Text.enclosed opening closing items ++ trail).closed fun depth =>
      if items.isEmpty then [.text depth (lead ++ [opening, closing] ++ trail)]
      else .text depth (lead ++ [opening]) :: layout depth ++
        [.text depth ([closing] ++ trail)] := by
  have hlast : Text.Clean ([closing] ++ trail) := hclosing.append htrail
  cases items with
  | nil =>
    have hall := Compact.filled hlead (hopening.append hclosing) htrail
    simpa [Text.enclosed, Line.filled] using hall
  | cons item items =>
    have hfirst : Text.Clean (lead ++ [opening]) := hlead.append hopening
    have hall := ((Compact.line (by simp) hfirst.oneLine).append hitems).append
      (Compact.line (by simp) hlast.oneLine)
    simpa [Text.closed, Text.enclosed] using hall

mutual

theorem compact : ∀ (value : SettingValue), (∀ part ∈ value.texts, part.Unbroken) →
    ∀ {lead trail : Text}, Text.Clean lead → Text.Clean trail →
      Compact (lead ++ value.render ++ trail).closed fun depth => value.layout depth lead trail
  | .string text, _, lead, trail, hlead, htrail => by
    simp only [render, layout]
    exact Compact.filled hlead (Text.clean_quoted text) htrail
  | .identifier text, h, lead, trail, hlead, htrail => by
    have htext : Text.Clean text.toList := h ⟨.identifier, text⟩ (by simp [texts])
    simp only [render, layout]
    exact Compact.filled hlead htext htrail
  | .integer value, _, lead, trail, hlead, htrail => by
    simp only [render, layout]
    exact Compact.filled hlead (Text.clean_ofInt _) htrail
  | .float text, h, lead, trail, hlead, htrail => by
    have htext : Text.Clean text.toList := h ⟨.float, text⟩ (by simp [texts])
    simp only [render, layout]
    exact Compact.filled hlead htext htrail
  | .boolean true, _, lead, trail, hlead, htrail => by
    simp only [render, layout]
    exact Compact.filled hlead (by decide) htrail
  | .boolean false, _, lead, trail, hlead, htrail => by
    simp only [render, layout]
    exact Compact.filled hlead (by decide) htrail
  | .nested name custom value, h, lead, trail, hlead, htrail => by
    -- the name joins the lead, so that the value starts on the line of its name
    have hname : Text.Clean name.text.toList := h ⟨.settingName custom, name.text⟩ (by simp [texts])
    have hvalue : ∀ part ∈ value.texts, part.Unbroken :=
      fun part hpart => h part (by simp [texts, hpart])
    have hlead' : Text.Clean (lead ++ heading name custom ++ value.joint) :=
      (hlead.append (clean_heading hname)).append (clean_joint value)
    have hall := compact value hvalue hlead' htrail
    simpa only [render, layout, List.append_assoc] using hall
  | .map entries, h, lead, trail, hlead, htrail => by
    have hentries := compactEntries entries fun part hpart => h part (by simpa [texts] using hpart)
    have hempty : (renderEntries entries).isEmpty = entries.isEmpty := by
      rw [renderEntries_eq_map, List.isEmpty_map]
    have hall := compact_enclosed hlead htrail (by decide : Text.Clean ['\x7b'])
      (by decide : Text.Clean ['\x7d']) hentries
    rw [hempty] at hall
    exact hall
  | .list values, h, lead, trail, hlead, htrail => by
    have hvalues := compactEach values fun part hpart => h part (by simpa [texts] using hpart)
    have hempty : (renderEach values).isEmpty = values.isEmpty := by
      rw [renderEach_eq_map, List.isEmpty_map]
    have hall := compact_enclosed hlead htrail (by decide : Text.Clean ['['])
      (by decide : Text.Clean [']']) hvalues
    rw [hempty] at hall
    exact hall

theorem compactEntries : ∀ (entries : List (String × SettingValue)),
    (∀ part ∈ textsOfEntries entries, part.Unbroken) →
      Compact (Text.itemLines (renderEntries entries)) fun depth =>
        layoutEntries (depth + 1) entries
  | [], _ => Compact.nil
  | (key, value) :: entries, h => by
    have hkey : Text.Clean key.toList := h ⟨.mapKey, key⟩ (by simp [textsOfEntries])
    have hlead : Text.Clean (key.toList ++ ": ".toList) := hkey.append (by decide)
    have htrail : Text.Clean (if entries.isEmpty then [] else [',']) := by split <;> decide
    have hvalue := compact value (fun part hpart => h part (by simp [textsOfEntries, hpart]))
      hlead htrail
    have hentries := compactEntries entries fun part hpart =>
      h part (by simp [textsOfEntries, hpart])
    have hempty : (renderEntries entries).isEmpty = entries.isEmpty := by
      rw [renderEntries_eq_map, List.isEmpty_map]
    have hall := hvalue.shift_closed.append hentries
    simpa [renderEntries, layoutEntries, Text.itemLines_cons, hempty] using hall

theorem compactEach : ∀ (values : List SettingValue),
    (∀ part ∈ textsOfEach values, part.Unbroken) →
      Compact (Text.itemLines (renderEach values)) fun depth => layoutEach (depth + 1) values
  | [], _ => Compact.nil
  | value :: values, h => by
    have htrail : Text.Clean (if values.isEmpty then [] else [',']) := by split <;> decide
    have hvalue := compact value (fun part hpart => h part (by simp [textsOfEach, hpart]))
      (by decide : Text.Clean []) htrail
    have hvalues := compactEach values fun part hpart => h part (by simp [textsOfEach, hpart])
    have hempty : (renderEach values).isEmpty = values.isEmpty := by
      rw [renderEach_eq_map, List.isEmpty_map]
    have hall := hvalue.shift_closed.append hvalues
    simpa [renderEach, layoutEach, Text.itemLines_cons, hempty] using hall

end

end SettingValue

namespace Setting

theorem compact {setting : Setting} (h : ∀ part ∈ setting.texts, part.Unbroken)
    {lead trail : Text} (hlead : Text.Clean lead) (htrail : Text.Clean trail) :
    Compact (lead ++ setting.render ++ trail).closed fun depth =>
      setting.layout depth lead trail := by
  rw [← render_toValue]
  exact setting.toValue.compact h hlead htrail

/-- The settings of a block are laid out as one statement each. -/
theorem laidOut_statements {settings : List Setting}
    (h : ∀ setting ∈ settings, ∀ part ∈ setting.texts, part.Unbroken) :
    LaidOut (statements settings) fun depth => layoutStatements depth settings := by
  apply LaidOut.flatMap
  intro setting hsetting
  have hall := compact (h setting hsetting) (by decide : Text.Clean "option ".toList)
    (by decide : Text.Clean ";".toList)
  simpa [Text.closed] using hall.toLaidOut

theorem compact_items {settings : List Setting}
    (h : ∀ setting ∈ settings, ∀ part ∈ setting.texts, part.Unbroken) :
    Compact (Text.itemLines (settings.map render)) fun depth =>
      layoutItems (depth + 1) settings := by
  induction settings with
  | nil => exact Compact.nil
  | cons setting settings ih =>
    have htrail : Text.Clean (if settings.isEmpty then [] else [',']) := by split <;> decide
    have hhead := compact (h setting (by simp)) (by decide : Text.Clean []) htrail
    have htail := ih fun other hother => h other (by simp [hother])
    simpa [layoutItems, Text.itemLines_cons] using hhead.shift_closed.append htail

/-- A member is laid out as one line, or around the lines of its settings. -/
theorem laidOut_member {declared : Text} (hdeclared : Text.Clean declared)
    {settings : List Setting}
    (h : ∀ setting ∈ settings, ∀ part ∈ setting.texts, part.Unbroken) :
    LaidOut (declared ++ inline settings ++ [';', '\n']) fun depth =>
      layoutMember depth declared settings := by
  have hitems := (compact_items h).toLaidOut
  cases settings with
  | nil =>
    have hline : Text.OneLine (declared ++ ";".toList) := (hdeclared.append (by decide)).oneLine
    simpa [inline, layoutMember] using LaidOut.line (by simp) hline
  | cons setting settings =>
    have hfirst : Text.OneLine (declared ++ " [".toList) := (hdeclared.append (by decide)).oneLine
    have hlast : Text.OneLine "];".toList := by decide
    have hall := ((LaidOut.line (by simp) hfirst).append hitems).append
      (LaidOut.line (by decide) hlast)
    simpa [inline, layoutMember] using hall

end Setting

/-! ### Enums, fields and extensions -/

theorem EnumValue.laidOut {value : EnumValue} (h : ∀ part ∈ value.texts, part.Unbroken) :
    LaidOut value.render fun depth => value.layout depth := by
  simp only [texts, List.forall_mem_cons, List.forall_mem_flatMap] at h
  obtain ⟨hdoc, hname, hsettings⟩ := h
  have hdeclared :
      Text.Clean (value.name.text.toList ++ " = ".toList ++ Text.ofInt value.tag.toInt) :=
    (Text.Clean.append hname (by decide)).append (Text.clean_ofInt _)
  have hall := (LaidOut.comment hdoc).append (Setting.laidOut_member hdeclared hsettings)
  simpa [render, layout] using hall

theorem EnumDecl.laidOut {decl : EnumDecl} (h : ∀ part ∈ decl.texts, part.Unbroken) :
    LaidOut decl.render fun depth => decl.layout depth := by
  simp only [texts, List.forall_mem_cons, List.forall_mem_append, List.forall_mem_flatMap] at h
  obtain ⟨hdoc, hname, hsettings, hvalues⟩ := h
  have hheader : Text.Clean ("enum ".toList ++ decl.name.text.toList) :=
    Text.Clean.append (by decide) hname
  have hentries : LaidOut (decl.values.flatMap EnumValue.render) fun depth =>
      decl.values.flatMap (EnumValue.layout depth) :=
    LaidOut.flatMap fun value hvalue => EnumValue.laidOut (hvalues value hvalue)
  have hsections := LaidOut.block hheader
    (.cons (Setting.laidOut_statements hsettings) (.cons hentries .nil))
  exact (LaidOut.comment hdoc).append hsections

theorem Label.clean_lead (label : Label) : Text.Clean label.lead := by
  cases label <;> decide

theorem Field.laidOut {field : Field} (h : ∀ part ∈ field.texts, part.Unbroken) :
    LaidOut field.render fun depth => field.layout depth := by
  simp only [texts, List.forall_mem_cons, List.forall_mem_flatMap] at h
  obtain ⟨hdoc, htype, hname, hsettings⟩ := h
  have hdeclared : Text.Clean field.declared :=
    ((((field.label.clean_lead.append htype).append (by decide)).append hname).append
      (by decide)).append (Text.clean_ofInt _)
  have hall := (LaidOut.comment hdoc).append (Setting.laidOut_member hdeclared hsettings)
  simpa [render, layout, declared] using hall

theorem Field.laidOut_flatMap {fields : List Field}
    (h : ∀ field ∈ fields, ∀ part ∈ field.texts, part.Unbroken) :
    LaidOut (fields.flatMap render) fun depth => fields.flatMap (layout depth) :=
  LaidOut.flatMap fun field hfield => Field.laidOut (h field hfield)

theorem Oneof.laidOut {oneof : Oneof} (h : ∀ part ∈ oneof.texts, part.Unbroken) :
    LaidOut oneof.render fun depth => oneof.layout depth := by
  simp only [texts, List.forall_mem_cons, List.forall_mem_flatMap] at h
  obtain ⟨hdoc, hname, hfields⟩ := h
  have hheader : Text.Clean ("oneof ".toList ++ oneof.name.text.toList) :=
    Text.Clean.append (by decide) hname
  have hsections := LaidOut.block hheader (.cons (Field.laidOut_flatMap hfields) .nil)
  exact (LaidOut.comment hdoc).append hsections

theorem ExtensionRange.clean_tail (range : ExtensionRange) : Text.Clean range.tail := by
  unfold tail
  split
  · decide
  · split
    · decide
    · exact Text.Clean.append (by decide) (Text.clean_ofInt _)

theorem ExtensionRange.laidOut {range : ExtensionRange}
    (h : ∀ part ∈ range.texts, part.Unbroken) :
    LaidOut range.render fun depth => range.layout depth := by
  have hcomment := LaidOut.comment (List.forall_mem_singleton.mp h)
  have hline : Text.Clean ("extensions ".toList ++ Text.ofInt range.first.toInt ++ range.tail ++
      ";".toList) :=
    ((Text.Clean.append (by decide) (Text.clean_ofInt _)).append range.clean_tail).append
      (by decide)
  have hall := hcomment.append (LaidOut.line (by simp) hline.oneLine)
  simpa [render, layout] using hall

theorem ExtendBlock.laidOut {extend : ExtendBlock} (h : ∀ part ∈ extend.texts, part.Unbroken) :
    LaidOut extend.render fun depth => extend.layout depth := by
  simp only [texts, List.forall_mem_cons, List.forall_mem_flatMap] at h
  obtain ⟨hdoc, hname, hfields⟩ := h
  have hheader : Text.Clean ("extend ".toList ++ extend.name.text.toList) :=
    Text.Clean.append (by decide) hname
  have hsections := LaidOut.block hheader (.cons (Field.laidOut_flatMap hfields) .nil)
  exact (LaidOut.comment hdoc).append hsections

/-! ### Types -/

theorem MessageCore.laidOut {core : MessageCore} (h : ∀ part ∈ core.texts, part.Unbroken)
    {α : Type} {nested : List α} {render : α → Text} {layout : Nat → α → List Line}
    (hnested : ∀ t ∈ nested, LaidOut (render t) fun depth => layout depth t) :
    LaidOut (core.renderWith (nested.map render)) fun depth =>
      core.layoutWith depth (nested.map (layout (depth + 1))) := by
  simp only [texts, List.forall_mem_cons, List.forall_mem_append, List.forall_mem_flatMap] at h
  obtain ⟨hdoc, hname, ⟨⟨hsettings, hfields⟩, honeofs⟩, hranges⟩ := h
  have hheader : Text.Clean ("message ".toList ++ core.name.text.toList) :=
    Text.Clean.append (by decide) hname
  have hgroups : LaidOut (Text.paragraphs (core.oneofs.map Oneof.render)) fun depth =>
      Line.paragraphs (core.oneofs.map (Oneof.layout depth)) :=
    LaidOut.paragraphs fun oneof honeof => Oneof.laidOut (honeofs oneof honeof)
  have hextensions : LaidOut (core.extensionRanges.flatMap ExtensionRange.render) fun depth =>
      core.extensionRanges.flatMap (ExtensionRange.layout depth) :=
    LaidOut.flatMap fun range hrange => ExtensionRange.laidOut (hranges range hrange)
  have hsections := LaidOut.block hheader
    (.cons (Setting.laidOut_statements hsettings) (.cons (Field.laidOut_flatMap hfields)
      (.cons hgroups (.cons hextensions (.cons (LaidOut.paragraphs hnested) .nil)))))
  exact (LaidOut.comment hdoc).append hsections

theorem TypeDecl.layoutEach_eq_map (depth : Nat) (ts : List TypeDecl) :
    layoutEach depth ts = ts.map (layout depth) := by
  induction ts with
  | nil => rfl
  | cons t ts ih => simp [layoutEach, ih]

mutual

theorem TypeDecl.laidOut : ∀ (t : TypeDecl), (∀ part ∈ t.texts, part.Unbroken) →
    LaidOut t.render fun depth => t.layout depth
  | .enum decl, h => by
    simp only [TypeDecl.render, TypeDecl.layout]
    exact EnumDecl.laidOut h
  | .message core nested, h => by
    simp only [TypeDecl.texts, List.forall_mem_append] at h
    simp only [TypeDecl.render, TypeDecl.layout, TypeDecl.renderEach_eq_map,
      TypeDecl.layoutEach_eq_map]
    exact MessageCore.laidOut h.1 (TypeDecl.laidOutEach nested h.2)

theorem TypeDecl.laidOutEach : ∀ (ts : List TypeDecl),
    (∀ part ∈ TypeDecl.textsOfEach ts, part.Unbroken) →
      ∀ t ∈ ts, LaidOut t.render fun depth => t.layout depth
  | [], _ => by simp
  | t :: ts, h => by
    simp only [TypeDecl.textsOfEach, List.forall_mem_append] at h
    exact List.forall_mem_cons.mpr ⟨TypeDecl.laidOut t h.1, TypeDecl.laidOutEach ts h.2⟩

end

/-! ### Services and files -/

theorem TypeRef.clean_parameter {reference : TypeRef} (h : Text.Clean reference.text.toList)
    (streaming : Bool) : Text.Clean (reference.parameter streaming) := by
  have hmark : Text.Clean (if streaming then "stream ".toList else []) := by split <;> decide
  exact ((Text.Clean.append (by decide : Text.Clean ['(']) hmark).append h).append (by decide)

theorem Rpc.laidOut {rpc : Rpc} (h : ∀ part ∈ rpc.texts, part.Unbroken) :
    LaidOut rpc.render fun depth => rpc.layout depth := by
  simp only [texts, List.forall_mem_cons, List.forall_mem_flatMap] at h
  obtain ⟨hdoc, hname, hrequest, hresponse, hsettings⟩ := h
  have hsignature : Text.Clean rpc.signature := by
    have hhead : Text.Clean ("rpc ".toList ++ rpc.name.text.toList) :=
      Text.Clean.append (by decide) hname
    have hspaced : Text.Clean ([' '] ++ rpc.requestType.parameter rpc.clientStreaming) :=
      Text.Clean.append (by decide) (TypeRef.clean_parameter hrequest _)
    exact ((hhead.append hspaced).append (by decide)).append (TypeRef.clean_parameter hresponse _)
  refine (LaidOut.comment hdoc).append ?_
  have hstatements := Setting.laidOut_statements hsettings
  cases hempty : rpc.settings with
  | nil =>
    have hline : Text.OneLine (rpc.signature ++ ";".toList) :=
      (hsignature.append (by decide)).oneLine
    simpa using LaidOut.line (by simp) hline
  | cons setting settings =>
    rw [hempty] at hstatements
    exact LaidOut.block hsignature (.cons hstatements .nil)

theorem Service.laidOut {service : Service} (h : ∀ part ∈ service.texts, part.Unbroken) :
    LaidOut service.render fun depth => service.layout depth := by
  simp only [texts, List.forall_mem_cons, List.forall_mem_append, List.forall_mem_flatMap] at h
  obtain ⟨hdoc, hname, hsettings, hrpcs⟩ := h
  have hheader : Text.Clean ("service ".toList ++ service.name.text.toList) :=
    Text.Clean.append (by decide) hname
  have hmethods : LaidOut (service.rpcs.flatMap Rpc.render) fun depth =>
      service.rpcs.flatMap (Rpc.layout depth) :=
    LaidOut.flatMap fun rpc hrpc => Rpc.laidOut (hrpcs rpc hrpc)
  have hsections := LaidOut.block hheader
    (.cons (Setting.laidOut_statements hsettings) (.cons hmethods .nil))
  exact (LaidOut.comment hdoc).append hsections

namespace SchemaFile

/-- The header may hold anything, even line ends: it stands in no block, so it is
    never shifted. -/
theorem header_eq (file : SchemaFile) :
    file.pathLine ++ file.dialectLine ++ file.packageLine =
      Line.writeAll (file.pathLayout ++ file.dialectLayout ++ file.packageLayout) := by
  have hpath : file.pathLine = Line.writeAll file.pathLayout := by
    unfold pathLine pathLayout
    split <;> simp [Line.body, Line.margin]
  have hdialect : file.dialectLine = Line.writeAll file.dialectLayout := by
    unfold dialectLine dialectLayout
    cases file.dialect <;> simp [Line.body, Line.margin]
  have hpackage : file.packageLine = Line.writeAll file.packageLayout := by
    unfold packageLine packageLayout
    cases file.packageName <;> simp [Line.body, Line.margin]
  rw [hpath, hdialect, hpackage, Line.writeAll_append, Line.writeAll_append]

theorem importLines_eq (file : SchemaFile) :
    file.importLines = Line.writeAll file.importLayout := by
  simp [importLines, importLayout, Line.writeAll, Line.write, Line.body, Line.margin,
    List.flatMap_map]

/-- **Shifting finished text is laying it out at its depth.**  A file is written,
    with every block, bracketed list and map shifted as a whole, as the lines of
    its one-pass layout. -/
theorem render_eq_writeAll_layout (file : SchemaFile)
    (h : ∀ part ∈ file.texts, part.Unbroken) : file.render = Line.writeAll file.layout := by
  simp only [texts, List.forall_mem_append, List.forall_mem_flatMap] at h
  obtain ⟨⟨⟨hsettings, htypes⟩, hextends⟩, hservices⟩ := h
  have hstatements : Setting.statements file.settings =
      Line.writeAll (Setting.layoutStatements 0 file.settings) :=
    (Setting.laidOut_statements hsettings).written
  have hmap : file.types.map TypeDecl.render =
      (file.types.map (TypeDecl.layout 0)).map Line.writeAll := by
    rw [List.map_map]
    exact List.map_congr_left fun t ht => (t.laidOut (htypes t ht)).written
  have hextendBlocks : file.extendBlocks.map ExtendBlock.render =
      (file.extendBlocks.map (ExtendBlock.layout 0)).map Line.writeAll := by
    rw [List.map_map]
    exact List.map_congr_left fun extend hextend =>
      (ExtendBlock.laidOut (hextends extend hextend)).written
  have hrpcs : file.services.map Service.render =
      (file.services.map (Service.layout 0)).map Line.writeAll := by
    rw [List.map_map]
    exact List.map_congr_left fun service hservice =>
      (Service.laidOut (hservices service hservice)).written
  -- a part without lines is one without text, so the blank lines between the parts agree
  rw [render, parts, layout, Line.writeAll_paragraphs, header_eq, importLines_eq, hstatements,
    hmap, hextendBlocks, hrpcs]
  simp only [List.map_cons, List.map_append]

/-- A file with a message in a message, a map that holds a list, and a
    documentation with an empty line and a carriage return inside a line. -/
def layered : SchemaFile where
  types :=
    [.message
      { name := ⟨"Outer", by decide⟩
        qualifiedName := ""
        documentation := "first\n\nsec\rond\r\n"
        settings := [⟨⟨"bounds", by decide⟩, true, .nested ⟨"upper", by decide⟩ false
          (.map [("a", .list [.string "x\ny", .identifier "B"]), ("c", .map [])])⟩]
        fields := []
        oneofs := [⟨⟨"choice", by decide⟩, "", [⟨.singular, ⟨"uint32", by decide⟩,
          ⟨"number", by decide⟩, 1, "", [⟨⟨"packed", by decide⟩, false, .boolean true⟩]⟩]⟩]
        extensionRanges := [ExtensionRange.single "" 7] }
      [.message
        { name := ⟨"Inner", by decide⟩
          qualifiedName := ""
          documentation := "third"
          settings := [⟨⟨"weights", by decide⟩, false, .list [.float "1.5", .list []]⟩]
          fields := []
          oneofs := []
          extensionRanges := [] }
        []]]

theorem render_layered : (∀ part ∈ layered.texts, part.Unbroken) ∧
    layered.render = Line.writeAll layered.layout :=
  ⟨by decide, render_eq_writeAll_layout layered (by decide)⟩

end SchemaFile

end WireSchema
