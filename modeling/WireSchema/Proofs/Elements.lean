/-
  WireSchema/Proofs/Elements.lean
  ===============================
  **Arrays in the place of objects.**  A declaration has a reader of members and a reader of
  elements.  They look for the same values in a different order, so they may refuse a tree
  for different reasons; but what the second reads, the first reads too, from the object
  that holds the elements under their keys.  Whatever is known of a declaration that was
  read from an object therefore holds of one that was read from an array
  (`Json.Record.exists_of_read`).

  A reader is taken apart by `bind_eq_ok`, in the order in which it reads.
-/
import WireSchema.Codec.File

namespace WireSchema

open Json (Record Members)

/-! ### What a successful reading says -/

theorem bind_eq_ok {ε α β : Type} {x : Except ε α} {f : α → Except ε β} {b : β} :
    (x >>= f) = .ok b ↔ ∃ a, x = .ok a ∧ f a = .ok b := by
  cases x <;> simp [bind, Except.bind]

theorem map_eq_ok {ε α β : Type} {f : α → β} {x : Except ε α} {b : β} :
    (f <$> x) = .ok b ↔ ∃ a, x = .ok a ∧ f a = b := by
  cases x <;> simp [Functor.map, Except.map]

theorem map_some_eq_ok {ε α : Type} {x : Except ε α} {a : α} :
    (some <$> x) = .ok (some a) ↔ x = .ok a := by
  cases x <;> simp [Functor.map, Except.map]

theorem pure_eq_ok {ε α : Type} {a b : α} : (pure a : Except ε α) = .ok b ↔ a = b := by
  simp [pure, Except.pure]

namespace Json

theorem checked_eq_ok {α : Type} {x : Except SchemaError α} {value : α} :
    checked x = .ok value ↔ x = .ok value := by
  cases x <;> simp [checked]

theorem require_eq_ok {α : Type} {key : String} {found : Option α} {value : α} :
    require key found = .ok value ↔ found = some value := by
  cases found <;> simp [require]

theorem endArray_eq_ok {α : Type} {position : Position} {length count : Nat} {value result : α}
    (h : endArray position length count value = .ok result) : value = result := by
  unfold endArray at h
  split at h
  · exact Except.ok.inj h
  · exact nomatch h

namespace Record

theorem require_eq_ok {α : Type} {record : Record} {key : String} {found : Option α} {value : α} :
    record.require key found = .ok value ↔ found = some value := by
  cases found <;> simp [require]

/-- If what a declaration reads from elements is what it reads from members, it is always
    read from members. -/
theorem exists_of_read {α : Type} {record : Record} {position : Position}
    {ofMembers ofElements : Members → Except DecodeError α}
    (hnamed : ∀ {members value}, ofElements members = .ok value → ofMembers members = .ok value)
    {json : Json} {value : α} (h : record.read position ofMembers ofElements json = .ok value) :
    ∃ members, ofMembers members = .ok value := by
  cases json with
  | obj members => exact ⟨members, h⟩
  | arr elements =>
    obtain ⟨found, hfound, hend⟩ := bind_eq_ok.mp h
    obtain rfl := endArray_eq_ok hend
    exact ⟨record.named elements, hnamed hfound⟩
  | _ => exact nomatch h

end Record

end Json

/-! ### Elements under their keys -/

theorem RawSetting.ofMembers_of_ofElements {members : Members}
    {result : Except DecodeError (Option SettingValue)} {raw : RawSetting}
    (h : ofElements members result = .ok raw) : ofMembers members result = .ok raw := by
  simp only [ofElements, bind_eq_ok, Record.require_eq_ok, pure_eq_ok] at h
  obtain ⟨_, hname, name, rfl, _, hvalue, value, rfl, custom, hcustom, rfl⟩ := h
  simp only [ofMembers, bind_eq_ok, Json.require_eq_ok, pure_eq_ok]
  exact ⟨_, hname, custom, hcustom, _, hvalue, name, rfl, value, rfl, rfl⟩

theorem EnumValue.decodeMembers_of_decodeElements {position : Position} {members : Members}
    {value : EnumValue} (h : decodeElements position members = .ok value) :
    decodeMembers position members = .ok value := by
  simp only [decodeElements, bind_eq_ok, Record.require_eq_ok, pure_eq_ok] at h
  obtain ⟨_, hname, name, rfl, _, htag, tag, rfl, documentation, hdocumentation, settings,
    hsettings, rfl⟩ := h
  simp only [decodeMembers, bind_eq_ok, Json.require_eq_ok, pure_eq_ok]
  exact ⟨documentation, hdocumentation, _, hname, settings, hsettings, _, htag, name, rfl, tag, rfl,
    rfl⟩

theorem EnumDecl.decodeMembers_of_decodeElements {position : Position} {members : Members}
    {decl : EnumDecl} (h : decodeElements position members = .ok decl) :
    decodeMembers position members = .ok decl := by
  simp only [decodeElements, bind_eq_ok, Record.require_eq_ok, pure_eq_ok] at h
  obtain ⟨_, hname, name, rfl, qualifiedName, hqualified, documentation, hdocumentation, settings,
    hsettings, values, hvalues, rfl⟩ := h
  simp only [decodeMembers, bind_eq_ok, Json.require_eq_ok, pure_eq_ok]
  exact ⟨documentation, hdocumentation, _, hname, settings, hsettings, qualifiedName, hqualified,
    values, hvalues, name, rfl, rfl⟩

theorem Field.decodeMembers_of_decodeElements {position : Position} {members : Members}
    {field : Field} (h : decodeElements position members = .ok field) :
    decodeMembers position members = .ok field := by
  simp only [decodeElements, bind_eq_ok, Record.require_eq_ok, pure_eq_ok] at h
  obtain ⟨_, hlabel, label, rfl, _, htype, typeRef, rfl, _, hname, name, rfl, _, htag, tag, rfl,
    documentation, hdocumentation, settings, hsettings, rfl⟩ := h
  simp only [decodeMembers, bind_eq_ok, Json.require_eq_ok, pure_eq_ok]
  exact ⟨documentation, hdocumentation, _, hlabel, _, hname, settings, hsettings, _, htag, _, htype,
    label, rfl, typeRef, rfl, name, rfl, tag, rfl, rfl⟩

theorem Oneof.decodeMembers_of_decodeElements {position : Position} {members : Members}
    {oneof : Oneof} (h : decodeElements position members = .ok oneof) :
    decodeMembers position members = .ok oneof := by
  simp only [decodeElements, bind_eq_ok, Record.require_eq_ok, pure_eq_ok] at h
  obtain ⟨_, hname, name, rfl, documentation, hdocumentation, fields, hfields, rfl⟩ := h
  simp only [decodeMembers, bind_eq_ok, Json.require_eq_ok, pure_eq_ok]
  exact ⟨documentation, hdocumentation, fields, hfields, _, hname, name, rfl, rfl⟩

theorem ExtendBlock.decodeMembers_of_decodeElements {members : Members} {extend : ExtendBlock}
    (h : decodeElements members = .ok extend) : decodeMembers members = .ok extend := by
  simp only [decodeElements, bind_eq_ok, Record.require_eq_ok, pure_eq_ok] at h
  obtain ⟨_, hname, name, rfl, qualifiedName, hqualified, documentation, hdocumentation, fields,
    hfields, rfl⟩ := h
  simp only [decodeMembers, bind_eq_ok, Json.require_eq_ok, pure_eq_ok]
  exact ⟨documentation, hdocumentation, fields, hfields, _, hname, qualifiedName, hqualified, name,
    rfl, rfl⟩

theorem Message.ofMembers_of_ofElements {position : Position} {members : Members}
    {result : Except DecodeError (List TypeDecl)} {message : Message}
    (h : ofElements position members result = .ok message) :
    ofMembers position members result = .ok message := by
  simp only [ofElements, bind_eq_ok, Record.require_eq_ok, pure_eq_ok] at h
  obtain ⟨_, hname, name, rfl, qualifiedName, hqualified, documentation, hdocumentation, settings,
    hsettings, fields, hfields, oneofs, honeofs, ranges, hranges, nested, hnested, rfl⟩ := h
  simp only [ofMembers, bind_eq_ok, Json.require_eq_ok, pure_eq_ok]
  exact ⟨documentation, hdocumentation, ranges, hranges, fields, hfields, _, hname, nested, hnested,
    oneofs, honeofs, settings, hsettings, qualifiedName, hqualified, name, rfl, rfl⟩

theorem Rpc.decodeMembers_of_decodeElements {members : Members} {rpc : Rpc}
    (h : decodeElements members = .ok rpc) : decodeMembers members = .ok rpc := by
  simp only [decodeElements, bind_eq_ok, Record.require_eq_ok, pure_eq_ok] at h
  obtain ⟨_, hname, name, rfl, documentation, hdocumentation, _, hrequest, request, rfl, _,
    hresponse, response, rfl, client, hclient, server, hserver, settings, hsettings, rfl⟩ := h
  simp only [decodeMembers, bind_eq_ok, Json.require_eq_ok, pure_eq_ok]
  exact ⟨client, hclient, documentation, hdocumentation, _, hname, settings, hsettings, _, hrequest,
    _, hresponse, server, hserver, name, rfl, request, rfl, response, rfl, rfl⟩

theorem Service.decodeMembers_of_decodeElements {members : Members} {service : Service}
    (h : decodeElements members = .ok service) : decodeMembers members = .ok service := by
  simp only [decodeElements, bind_eq_ok, Record.require_eq_ok, pure_eq_ok] at h
  obtain ⟨_, hname, name, rfl, qualifiedName, hqualified, documentation, hdocumentation, settings,
    hsettings, rpcs, hrpcs, rfl⟩ := h
  simp only [decodeMembers, bind_eq_ok, Json.require_eq_ok, pure_eq_ok]
  exact ⟨documentation, hdocumentation, _, hname, settings, hsettings, qualifiedName, hqualified,
    rpcs, hrpcs, name, rfl, rfl⟩

theorem SchemaFile.decodeMembers_of_decodeElements {members : Members} {file : SchemaFile}
    (h : decodeElements members = .ok file) : decodeMembers members = .ok file := by
  simp only [decodeElements, bind_eq_ok, pure_eq_ok] at h
  obtain ⟨path, hpath, packageName, hpackage, dialect, hdialect, imports, himports, publicImports,
    hpublic, types, htypes, services, hservices, extendBlocks, hextends, settings, hsettings,
    rfl⟩ := h
  simp only [decodeMembers, bind_eq_ok, pure_eq_ok]
  exact ⟨imports, himports, extendBlocks, hextends, path, hpath, settings, hsettings, packageName,
    hpackage, publicImports, hpublic, services, hservices, dialect, hdialect, types, htypes, rfl⟩

end WireSchema
