/-
  WireSchema/Proofs/Heads.lean
  ============================
  **What the head of an entry says.**  The head is one line.  It is cut at its spaces
  and at its equals sign, none of which can be inside a token, and so determines

    * what a member declares: `EnumValue.declared_inj`, `Field.declared_inj`,
      `ExtensionRange.declared_inj`;
    * the keyword and the name of a block, and with the lines that follow it the
      entries inside (`Entry.block_inj`);
    * the kind of the entry (`Entry.kind`), even where a type reference or a name is
      spelled like a keyword.
-/
import WireSchema.Proofs.Entries

namespace WireSchema

/-! ### Cutting heads -/

theorem append_cons_inj {α : Type} {sep : α} {left left' right right' : List α}
    (hleft : sep ∉ left) (hleft' : sep ∉ left')
    (h : left ++ sep :: right = left' ++ sep :: right') :
    left = left' ∧ right = right' := by
  obtain ⟨hsame, hrest⟩ := @append_inj_of_forall _ (fun a => a ≠ sep) _ _ _ _
    (fun a ha heq => hleft (heq ▸ ha)) (fun a ha heq => hleft' (heq ▸ ha)) (by simp) (by simp) h
  exact ⟨hsame, (List.cons.inj hrest).2⟩

theorem Name.eq_of_toList_eq {name name' : Name} (h : name.text.toList = name'.text.toList) :
    name = name' := by
  obtain ⟨text, _⟩ := name
  obtain ⟨text', _⟩ := name'
  obtain rfl := String.toList_inj.mp h
  rfl

theorem TypeRef.eq_of_toList_eq {reference reference' : TypeRef}
    (h : reference.text.toList = reference'.text.toList) : reference = reference' := by
  obtain ⟨text, _⟩ := reference
  obtain ⟨text', _⟩ := reference'
  obtain rfl := String.toList_inj.mp h
  rfl

namespace Text

theorem not_mem_ofInt {c : Char} (hdigit : c.isDigit = false) (hminus : c ≠ '-') (value : Int) :
    c ∉ ofInt value := by
  have hdigits : ∀ n : Nat, c ∉ Nat.toDigits 10 n := by
    intro n hmem
    rw [Nat.isDigit_of_mem_toDigits (by decide) (by decide) hmem] at hdigit
    exact nomatch hdigit
  cases value with
  | ofNat n => exact hdigits n
  | negSucc n =>
    intro hmem
    rcases List.mem_cons.mp hmem with hc | hmem
    · exact hminus hc
    · exact hdigits (n + 1) hmem

theorem toDigits_inj {m n : Nat} (h : Nat.toDigits 10 m = Nat.toDigits 10 n) : m = n := by
  have hvalue := congrArg (fun digits => Nat.ofDigitChars 10 digits 0) h
  simpa only [Nat.ofDigitChars_ten_toDigits] using hvalue

theorem ofInt_inj {value value' : Int} (h : ofInt value = ofInt value') : value = value' := by
  have hminus : ∀ n : Nat, '-' ∉ Nat.toDigits 10 n := by
    intro n hmem
    exact absurd (Nat.isDigit_of_mem_toDigits (by decide) (by decide) hmem) (by decide)
  cases value with
  | ofNat m =>
    cases value' with
    | ofNat n => exact congrArg Int.ofNat (toDigits_inj h)
    | negSucc n =>
      refine absurd ?_ (hminus m)
      rw [show Nat.toDigits 10 m = '-' :: Nat.toDigits 10 (n + 1) from h]
      exact List.mem_cons_self
  | negSucc m =>
    cases value' with
    | ofNat n =>
      refine absurd ?_ (hminus n)
      rw [show Nat.toDigits 10 n = '-' :: Nat.toDigits 10 (m + 1) from h.symm]
      exact List.mem_cons_self
    | negSucc n =>
      have hsucc := toDigits_inj (List.cons.inj h).2
      rw [Nat.succ.inj hsucc]

theorem ofTag_inj {tag tag' : Int32} (h : ofInt tag.toInt = ofInt tag'.toInt) : tag = tag' :=
  Int32.toInt_inj.mp (ofInt_inj h)

end Text

namespace Entry

theorem comments_inj {documentation documentation' : String}
    (h : comments documentation = comments documentation') :
    Text.lines documentation.toList = Text.lines documentation'.toList := by
  refine List.map_injective_iff.mpr ?_ h
  intro line line' hsame
  cases line <;> cases line' <;> simp_all [Line.remark]

theorem member_inj {depth : Nat} {documentation documentation' : String}
    {declared declared' : Text} {settings settings' : List Setting}
    (h : member depth documentation declared settings =
      member depth documentation' declared' settings') :
    Text.lines documentation.toList = Text.lines documentation'.toList ∧ declared = declared' := by
  cases settings with
  | nil =>
    cases settings' with
    | nil =>
      obtain ⟨hcomments, hhead, -⟩ := Entry.mk.inj h
      exact ⟨comments_inj hcomments, List.append_cancel_right hhead⟩
    | cons setting' settings' =>
      obtain ⟨-, hhead, -⟩ := Entry.mk.inj h
      have hlast := congrArg List.getLast? hhead
      simp at hlast
  | cons setting settings =>
    cases settings' with
    | nil =>
      obtain ⟨-, hhead, -⟩ := Entry.mk.inj h
      have hlast := congrArg List.getLast? hhead
      simp at hlast
    | cons setting' settings' =>
      obtain ⟨hcomments, hhead, -⟩ := Entry.mk.inj h
      exact ⟨comments_inj hcomments, List.append_cancel_right hhead⟩

theorem block_inj {depth : Nat} {documentation documentation' : String} {header header' : Text}
    {entries entries' : List Entry} (hentries : ∀ entry ∈ entries, entry.Formed (depth + 1))
    (hentries' : ∀ entry ∈ entries', entry.Formed (depth + 1))
    (h : block depth documentation header entries = block depth documentation' header' entries') :
    Text.lines documentation.toList = Text.lines documentation'.toList ∧ header = header' ∧
      entries = entries' := by
  cases entries with
  | nil =>
    cases entries' with
    | nil =>
      obtain ⟨hcomments, hhead, -⟩ := Entry.mk.inj h
      exact ⟨comments_inj hcomments, List.append_cancel_right hhead, rfl⟩
    | cons entry' entries' =>
      obtain ⟨-, hhead, -⟩ := Entry.mk.inj h
      have hlast := congrArg List.getLast? hhead
      simp at hlast
  | cons entry entries =>
    cases entries' with
    | nil =>
      obtain ⟨-, hhead, -⟩ := Entry.mk.inj h
      have hlast := congrArg List.getLast? hhead
      simp at hlast
    | cons entry' entries' =>
      obtain ⟨hcomments, hhead, hrest⟩ := Entry.mk.inj h
      exact ⟨comments_inj hcomments, List.append_cancel_right hhead,
        flatMap_lines_inj hentries hentries' (List.append_cancel_right hrest)⟩

end Entry

/-! ### What a head declares -/

theorem EnumValue.declared_inj {value value' : EnumValue}
    (hname : Text.isIdentifier value.name.text.toList = true)
    (hname' : Text.isIdentifier value'.name.text.toList = true)
    (h : value.declared = value'.declared) : value.name = value'.name ∧ value.tag = value'.tag := by
  have hwords : value.name.text.toList ++ ' ' :: ('=' :: ' ' :: Text.ofInt value.tag.toInt) =
      value'.name.text.toList ++ ' ' :: ('=' :: ' ' :: Text.ofInt value'.tag.toInt) := by
    simpa [declared] using h
  obtain ⟨hsame, hrest⟩ := append_cons_inj (Text.not_mem_of_isIdentifier hname (by decide))
    (Text.not_mem_of_isIdentifier hname' (by decide)) hwords
  exact ⟨Name.eq_of_toList_eq hsame, Text.ofTag_inj (by simpa using hrest)⟩

theorem Label.keyword_inj {label label' : Label} (h : label.keyword = label'.keyword) :
    label = label' := by
  cases label <;> cases label' <;> simp_all [keyword]

theorem Label.not_mem_keyword {label : Label} {word : String} (h : label.keyword = some word) :
    ' ' ∉ word.toList := by
  cases label <;> simp_all [keyword] <;> (subst h; decide)

namespace Field

/-- What a field declares after its label. -/
def signature (field : Field) : Text :=
  field.typeRef.text.toList ++ ' ' ::
    (field.name.text.toList ++ ' ' :: ('=' :: ' ' :: Text.ofInt field.tag.toInt))

theorem declared_eq (field : Field) : field.declared = field.label.lead ++ field.signature := by
  simp [declared, signature]

theorem lead_of_keyword {field : Field} {word : String} (h : field.label.keyword = some word) :
    field.declared = word.toList ++ ' ' :: field.signature := by
  rw [declared_eq, Label.lead, h]
  simp

theorem signature_inj {field field' : Field} (htype : ' ' ∉ field.typeRef.text.toList)
    (htype' : ' ' ∉ field'.typeRef.text.toList) (hname : ' ' ∉ field.name.text.toList)
    (hname' : ' ' ∉ field'.name.text.toList) (h : field.signature = field'.signature) :
    field.typeRef = field'.typeRef ∧ field.name = field'.name ∧ field.tag = field'.tag := by
  obtain ⟨htypes, hrest⟩ := append_cons_inj htype htype' h
  obtain ⟨hnames, htags⟩ := append_cons_inj hname hname' hrest
  exact ⟨TypeRef.eq_of_toList_eq htypes, Name.eq_of_toList_eq hnames,
    Text.ofTag_inj (by simpa using htags)⟩

/-- A word before a signature is seen: the equals sign comes one word later. -/
theorem signature_ne {field field' : Field} {word : Text} (hword : ' ' ∉ word)
    (htype : ' ' ∉ field.typeRef.text.toList) (htype' : ' ' ∉ field'.typeRef.text.toList)
    (hname : ' ' ∉ field.name.text.toList) (hname' : Text.Opens ['='] field'.name.text.toList) :
    field.signature ≠ word ++ ' ' :: field'.signature := by
  intro h
  obtain ⟨-, hrest⟩ := append_cons_inj htype hword h
  obtain ⟨-, hequals⟩ := append_cons_inj hname htype' hrest
  obtain ⟨c, cs, hcs, hc⟩ := hname'
  rw [hcs] at hequals
  exact hc (List.mem_singleton.mpr (List.cons.inj hequals).1.symm)

theorem declared_inj {field field' : Field} (h : ∀ part ∈ field.texts, part.Lexical)
    (h' : ∀ part ∈ field'.texts, part.Lexical) (heq : field.declared = field'.declared) :
    field.label = field'.label ∧ field.typeRef = field'.typeRef ∧ field.name = field'.name ∧
      field.tag = field'.tag := by
  simp only [texts, List.forall_mem_cons] at h h'
  obtain ⟨-, htype, hname, -⟩ := h
  obtain ⟨-, htype', hname', -⟩ := h'
  have hspace : ' ' ∉ field.typeRef.text.toList := Text.not_mem_of_isTypeRef htype (by decide)
  have hspace' : ' ' ∉ field'.typeRef.text.toList := Text.not_mem_of_isTypeRef htype' (by decide)
  have hword : ' ' ∉ field.name.text.toList := Text.not_mem_of_isIdentifier hname (by decide)
  have hword' : ' ' ∉ field'.name.text.toList := Text.not_mem_of_isIdentifier hname' (by decide)
  -- a label on one side only would be a word too many
  rcases hkeyword : field.label.keyword with _ | keyword
  · have hdeclared : field.declared = field.signature := by
      rw [declared_eq, Label.lead, hkeyword, List.nil_append]
    rcases hkeyword' : field'.label.keyword with _ | keyword'
    · have hdeclared' : field'.declared = field'.signature := by
        rw [declared_eq, Label.lead, hkeyword', List.nil_append]
      refine ⟨Label.keyword_inj (hkeyword.trans hkeyword'.symm), ?_⟩
      exact signature_inj hspace hspace' hword hword' (by rw [← hdeclared, heq, hdeclared'])
    · refine absurd ?_ (signature_ne (Label.not_mem_keyword hkeyword') hspace hspace' hword
        (Text.opens_of_isIdentifier hname' (by decide)))
      rw [← hdeclared, heq, lead_of_keyword hkeyword']
  · rw [lead_of_keyword hkeyword] at heq
    rcases hkeyword' : field'.label.keyword with _ | keyword'
    · refine absurd ?_ (signature_ne (Label.not_mem_keyword hkeyword) hspace' hspace hword'
        (Text.opens_of_isIdentifier hname (by decide)))
      rw [heq, declared_eq, Label.lead, hkeyword', List.nil_append]
    · rw [lead_of_keyword hkeyword'] at heq
      obtain ⟨hkeywords, hsignatures⟩ :=
        append_cons_inj (Label.not_mem_keyword hkeyword) (Label.not_mem_keyword hkeyword') heq
      refine ⟨?_, signature_inj hspace hspace' hword hword' hsignatures⟩
      rw [String.toList_inj.mp hkeywords] at hkeyword
      exact Label.keyword_inj (hkeyword.trans hkeyword'.symm)

end Field

namespace ExtensionRange

theorem tail_head? (range : ExtensionRange) : ∀ c ∈ range.tail.head?, ¬ c ≠ ' ' := by
  unfold tail
  split
  · simp
  · split <;> simp

/-- The end of a range is seen from its start and what is written after it. -/
theorem last_eq_of_tail_eq {range range' : ExtensionRange} (hfirst : range.first = range'.first)
    (h : range.tail = range'.tail) : range.last = range'.last := by
  have hmax : ∀ value : Int, " to max".toList ≠ " to ".toList ++ Text.ofInt value := by
    intro value heq
    have hsplit : " to ".toList ++ "max".toList = " to ".toList ++ Text.ofInt value := heq
    have hm : 'm' ∈ Text.ofInt value := by
      rw [← List.append_cancel_left hsplit]
      decide
    exact Text.not_mem_ofInt (by decide) (by decide) value hm
  -- both tails have three forms, and no two different forms are spelled alike
  unfold tail at h
  split at h
  · rename_i hlast
    split at h
    · rename_i hlast'
      rw [hlast, hlast']
    · split at h
      · exact nomatch h
      · exact absurd h (hmax _)
  · split at h
    · rename_i hlast
      split at h
      · exact nomatch h
      · split at h
        · rename_i hlast'
          rw [hlast, hlast', hfirst]
        · exact nomatch h
    · split at h
      · exact absurd h.symm (hmax _)
      · split at h
        · exact nomatch h
        · exact Text.ofTag_inj (List.append_cancel_left h)

theorem declared_eq (range : ExtensionRange) :
    range.declared =
      "extensions".toList ++ ' ' :: (Text.ofInt range.first.toInt ++ range.tail) := by
  unfold declared
  rw [List.append_assoc]
  rfl

theorem declared_inj {range range' : ExtensionRange} (h : range.declared = range'.declared) :
    range.first = range'.first ∧ range.last = range'.last := by
  have hdigits : ∀ value : Int, ∀ c ∈ Text.ofInt value, c ≠ ' ' := by
    intro value c hc hspace
    exact Text.not_mem_ofInt (by decide) (by decide) value (hspace ▸ hc)
  rw [declared_eq, declared_eq] at h
  obtain ⟨-, hnumbers⟩ := append_cons_inj (by decide) (by decide) h
  obtain ⟨hfirst, htail⟩ := append_inj_of_forall (hdigits _) (hdigits _) range.tail_head?
    range'.tail_head? hnumbers
  have hsame := Text.ofTag_inj hfirst
  exact ⟨hsame, last_eq_of_tail_eq hsame htail⟩

end ExtensionRange

/-! ### The kinds of entries -/

inductive EntryKind
  | setting
  | member
  | oneof
  | range
  | type
  deriving DecidableEq, Repr

namespace Entry

def word (entry : Entry) : Text := entry.head.takeWhile fun c => c != ' '

def afterWord (entry : Entry) : Text := (entry.head.dropWhile fun c => c != ' ').drop 1

/-- The kind of an entry, as its head shows it.  An enum value may have the name
    `option`, but then an equals sign comes next. -/
def kind (entry : Entry) : EntryKind :=
  if entry.word = "option".toList ∧ entry.afterWord.head? ≠ some '=' then .setting
  else if '=' ∈ entry.head then .member
  else if entry.word = "oneof".toList then .oneof
  else if entry.word = "extensions".toList then .range
  else .type

theorem word_eq {entry : Entry} {word rest : Text} (hword : ' ' ∉ word)
    (h : entry.head = word ++ ' ' :: rest) : entry.word = word ∧ entry.afterWord = rest := by
  have hall : ∀ c ∈ word, (c != ' ') = true := by
    intro c hc
    exact bne_iff_ne.mpr fun hspace => hword (hspace ▸ hc)
  rw [Entry.word, afterWord, h, List.takeWhile_append_of_pos hall,
    List.dropWhile_append_of_pos hall]
  simp

theorem kind_member {entry : Entry} {word rest : Text} (hword : ' ' ∉ word)
    (h : entry.head = word ++ ' ' :: rest)
    (hoption : word ≠ "option".toList ∨ rest.head? = some '=') (hequals : '=' ∈ entry.head) :
    entry.kind = .member := by
  obtain ⟨hfirst, hafter⟩ := word_eq hword h
  rw [kind, hfirst, hafter, if_neg, if_pos hequals]
  rintro ⟨hsame, hne⟩
  rcases hoption with hoption | hoption
  · exact hoption hsame
  · exact hne hoption

theorem kind_of_not_mem {entry : Entry} {word rest : Text} (hword : ' ' ∉ word)
    (h : entry.head = word ++ ' ' :: rest) (hoption : word ≠ "option".toList)
    (hequals : '=' ∉ word) (hrest : '=' ∉ rest) :
    entry.kind =
      if word = "oneof".toList then .oneof
      else if word = "extensions".toList then .range
      else .type := by
  have hhead : '=' ∉ entry.head := by
    rw [h, List.mem_append, List.mem_cons, not_or, not_or]
    exact ⟨hequals, by decide, hrest⟩
  obtain ⟨hfirst, -⟩ := word_eq hword h
  rw [kind, hfirst, if_neg fun hboth => hoption hboth.1, if_neg hhead]

theorem head_member (depth : Nat) (documentation : String) (declared : Text)
    (settings : List Setting) :
    ∃ ending, '=' ∉ ending ∧
      (member depth documentation declared settings).head = declared ++ ending := by
  unfold member
  split
  · exact ⟨_, by decide, rfl⟩
  · exact ⟨_, by decide, rfl⟩

theorem head_block (depth : Nat) (documentation : String) (header : Text) (entries : List Entry) :
    ∃ ending, '=' ∉ ending ∧
      (block depth documentation header entries).head = header ++ ' ' :: ending := by
  unfold block
  split
  · exact ⟨"\x7b\x7d".toList, by decide, rfl⟩
  · exact ⟨"\x7b".toList, by decide, rfl⟩

end Entry

theorem Setting.kind_entry {setting : Setting} (h : ∀ part ∈ setting.texts, part.Lexical)
    (depth : Nat) : (setting.entry depth).kind = .setting := by
  obtain ⟨content, rest, -, hentry, ⟨c, cs, rfl, hc⟩, -⟩ := exists_entry_eq h depth
  obtain ⟨hfirst, hafter⟩ :=
    @Entry.word_eq (setting.entry depth) "option".toList (c :: cs) (by decide) (by rw [hentry]; rfl)
  rw [Entry.kind, hfirst, hafter, if_pos]
  refine ⟨rfl, ?_⟩
  intro hequals
  exact hc (by simp [Option.some.inj hequals])

theorem EnumValue.kind_entry {value : EnumValue} (h : ∀ part ∈ value.texts, part.Lexical)
    (depth : Nat) : (value.entry depth).kind = .member := by
  have hname : Text.isIdentifier value.name.text.toList = true :=
    h ⟨.name, value.name.text⟩ (by simp [texts])
  obtain ⟨ending, -, hhead⟩ :=
    Entry.head_member depth value.documentation value.declared value.settings
  have hwords : (value.entry depth).head = value.name.text.toList ++
      ' ' :: ('=' :: ' ' :: Text.ofInt value.tag.toInt ++ ending) := by
    rw [entry, hhead]
    simp [declared]
  exact Entry.kind_member (Text.not_mem_of_isIdentifier hname (by decide)) hwords (Or.inr rfl)
    (by simp [hwords])

theorem Field.kind_entry {field : Field} (h : ∀ part ∈ field.texts, part.Lexical) (depth : Nat) :
    (field.entry depth).kind = .member := by
  simp only [texts, List.forall_mem_cons] at h
  obtain ⟨-, htype, -⟩ := h
  obtain ⟨ending, -, hhead⟩ :=
    Entry.head_member depth field.documentation field.declared field.settings
  change (field.entry depth).head = _ at hhead
  have hequals : '=' ∈ (field.entry depth).head := by
    rw [hhead, declared]
    simp
  rcases hkeyword : field.label.keyword with _ | keyword
  · have hwords : (field.entry depth).head = field.typeRef.text.toList ++ ' ' ::
        (field.name.text.toList ++ ' ' ::
          ('=' :: ' ' :: Text.ofInt field.tag.toInt) ++ ending) := by
      rw [hhead, declared_eq, Label.lead, hkeyword]
      simp [signature]
    exact Entry.kind_member (Text.not_mem_of_isTypeRef htype (by decide)) hwords
      (Or.inl (Text.isTypeRef_iff.mp htype).2.1) hequals
  · have hwords : (field.entry depth).head =
        keyword.toList ++ ' ' :: (field.signature ++ ending) := by
      rw [hhead, lead_of_keyword hkeyword]
      simp
    refine Entry.kind_member (Label.not_mem_keyword hkeyword) hwords (Or.inl ?_) hequals
    cases hlabel : field.label <;> simp_all [Label.keyword] <;> (subst hkeyword; decide)

theorem ExtensionRange.kind_entry (range : ExtensionRange) (depth : Nat) :
    (range.entry depth).kind = .range := by
  obtain ⟨ending, hending, hhead⟩ :=
    Entry.head_member depth range.documentation range.declared []
  have hwords : (range.entry depth).head =
      "extensions".toList ++ ' ' :: (Text.ofInt range.first.toInt ++ range.tail ++ ending) := by
    rw [entry, hhead, declared_eq]
    simp only [List.append_assoc, List.cons_append]
  have htail : '=' ∉ range.tail := by
    unfold tail
    split
    · decide
    · split
      · decide
      · rw [List.mem_append, not_or]
        exact ⟨by decide, Text.not_mem_ofInt (by decide) (by decide) _⟩
  rw [Entry.kind_of_not_mem (by decide) hwords (by decide) (by decide), if_neg (by decide),
    if_pos rfl]
  simp only [List.mem_append, not_or]
  exact ⟨⟨Text.not_mem_ofInt (by decide) (by decide) _, htail⟩, hending⟩

/-- The kind of a block is seen from its keyword. -/
theorem Entry.kind_block {keyword : Text} (hspace : ' ' ∉ keyword)
    (hoption : keyword ≠ "option".toList) (hequals : '=' ∉ keyword) {name : Name}
    (hname : Text.isIdentifier name.text.toList = true) (depth : Nat) (documentation : String)
    (entries : List Entry) :
    (block depth documentation (keyword ++ ' ' :: name.text.toList) entries).kind =
      if keyword = "oneof".toList then .oneof
      else if keyword = "extensions".toList then .range
      else .type := by
  obtain ⟨ending, hending, hhead⟩ :=
    head_block depth documentation (keyword ++ ' ' :: name.text.toList) entries
  have hwords : (block depth documentation (keyword ++ ' ' :: name.text.toList) entries).head =
      keyword ++ ' ' :: (name.text.toList ++ ' ' :: ending) := by
    rw [hhead, List.append_assoc, List.cons_append]
  refine kind_of_not_mem hspace hwords hoption hequals ?_
  rw [List.mem_append, List.mem_cons, not_or, not_or]
  exact ⟨Text.not_mem_of_isIdentifier hname (by decide), by decide, hending⟩

theorem Oneof.kind_entry {oneof : Oneof} (h : ∀ part ∈ oneof.texts, part.Lexical)
    (depth : Nat) : (oneof.entry depth).kind = .oneof := by
  have hname : Text.isIdentifier oneof.name.text.toList = true :=
    h ⟨.name, oneof.name.text⟩ (by simp [texts])
  exact @Entry.kind_block "oneof".toList (by decide) (by decide) (by decide) _ hname _ _ _

theorem TypeDecl.kind_entry {t : TypeDecl} (h : ∀ part ∈ t.texts, part.Lexical) (depth : Nat) :
    (t.entry depth).kind = .type := by
  cases t with
  | enum decl =>
    have hname : Text.isIdentifier decl.name.text.toList = true :=
      h ⟨.name, decl.name.text⟩ (by simp [texts, EnumDecl.texts])
    rw [entry]
    exact @Entry.kind_block "enum".toList (by decide) (by decide) (by decide) _ hname _ _ _
  | message core nested =>
    have hname : Text.isIdentifier core.name.text.toList = true :=
      h ⟨.name, core.name.text⟩ (by simp [texts, MessageCore.texts])
    rw [entry]
    exact @Entry.kind_block "message".toList (by decide) (by decide) (by decide) _ hname _ _ _

end WireSchema
