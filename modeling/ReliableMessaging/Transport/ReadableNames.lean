import ReliableMessaging.Transport.ResolverAgreement
import ReliableMessaging.Transport.TransactionConfig

/-!
# Readable names identify their fields

A readable name joins its fields by two dashes, after every dot has become a
dash. It can be taken apart again because no field begins or ends with a
separator or holds two in a row, so a dash inside a field never touches
another one: reading from the left, the first two dashes in a row end the
first field.
-/

namespace ReliableMessaging.Transport

open List

/-! ## Parts joined by a doubled separator -/

section Joining

variable {α : Type} {d : α}

theorem intercalate_cons (sep part : List α) (parts : List (List α)) :
    sep.intercalate (part :: parts) = part ++ parts.flatMap fun p => sep ++ p := by
  induction parts generalizing part with
  | nil => simp
  | cons next parts ih =>
    rw [intercalate_cons_cons, ih next, flatMap_cons, append_assoc, append_assoc]

/-- What follows a part: nothing, or two separators and more. -/
def Follows (d : α) (rest : List α) : Prop := rest = [] ∨ ∃ more, rest = d :: d :: more

theorem follows_flatMap (parts : List (List α)) :
    Follows d (parts.flatMap fun part => [d, d] ++ part) := by
  cases parts with
  | nil => exact .inl rfl
  | cons part parts => exact .inr ⟨_, rfl⟩

variable [DecidableEq α]

/-- The rest of a part in which no two separators touch; `token` says whether something else came
last. -/
def partRest (d : α) (token : Bool) : List α → Bool
  | [] => token
  | a :: rest => if a = d then token && partRest d false rest else partRest d true rest

variable {token : Bool} {part rest rest' : List α} {parts parts' : List (List α)}

theorem not_follows_part {a : α} (hpart : partRest d token (a :: part) = true)
    (hrest : Follows d rest) (h : rest = a :: part ++ rest') : False := by
  rcases hrest with rfl | ⟨more, rfl⟩
  · cases h
  · obtain ⟨rfl, htail⟩ := List.cons.inj h
    simp only [partRest, if_true, Bool.and_eq_true] at hpart
    cases part with
    | nil => cases hpart.2
    | cons b part =>
      obtain ⟨rfl, -⟩ := List.cons.inj htail
      simp [partRest] at hpart

/-- A part ends where two separators touch. -/
theorem part_inj {part' : List α} (hpart : partRest d token part = true)
    (hpart' : partRest d token part' = true) (hrest : Follows d rest) (hrest' : Follows d rest')
    (h : part ++ rest = part' ++ rest') : part = part' ∧ rest = rest' := by
  induction part generalizing part' token with
  | nil =>
    cases part' with
    | nil => exact ⟨rfl, h⟩
    | cons a part' => exact (not_follows_part hpart' hrest h).elim
  | cons a part ih =>
    cases part' with
    | nil => exact (not_follows_part hpart hrest' h.symm).elim
    | cons b part' =>
      obtain ⟨rfl, htail⟩ := List.cons.inj h
      rw [partRest] at hpart hpart'
      split at hpart
      · simp only [*, if_true, Bool.and_eq_true] at hpart hpart'
        obtain ⟨rfl, hrest⟩ := ih hpart.2 hpart'.2 htail
        exact ⟨rfl, hrest⟩
      next hne =>
        rw [if_neg hne] at hpart'
        obtain ⟨rfl, hrest⟩ := ih hpart hpart' htail
        exact ⟨rfl, hrest⟩

theorem flatMap_inj (hparts : ∀ part ∈ parts, partRest d false part = true)
    (hparts' : ∀ part ∈ parts', partRest d false part = true)
    (h : (parts.flatMap fun part => [d, d] ++ part) = parts'.flatMap fun part => [d, d] ++ part) :
    parts = parts' := by
  induction parts generalizing parts' with
  | nil =>
    cases parts' with
    | nil => rfl
    | cons part' parts' => cases h
  | cons part parts ih =>
    cases parts' with
    | nil => cases h
    | cons part' parts' =>
      rw [forall_mem_cons] at hparts hparts'
      rw [flatMap_cons, flatMap_cons, append_assoc, append_assoc, append_cancel_left_eq] at h
      obtain ⟨rfl, hrest⟩ := part_inj hparts.1 hparts'.1 (follows_flatMap parts)
        (follows_flatMap parts') h
      rw [ih hparts.2 hparts'.2 hrest]

theorem intercalate_inj (hparts : ∀ part ∈ parts, partRest d false part = true)
    (hparts' : ∀ part ∈ parts', partRest d false part = true)
    (h : [d, d].intercalate parts = [d, d].intercalate parts') : parts = parts' := by
  -- Behind one more separator the first part is like the others; a list of no parts has none.
  have hempty : ∀ part parts, partRest d false part = true →
      [d, d].intercalate (part :: parts) ≠ [] := by
    rintro part parts hpart hnil
    rw [intercalate_cons, append_eq_nil_iff] at hnil
    rw [hnil.1] at hpart
    cases hpart
  cases parts with
  | nil =>
    cases parts' with
    | nil => rfl
    | cons part' parts' => exact absurd h.symm (hempty part' parts' (hparts' _ mem_cons_self))
  | cons part parts =>
    cases parts' with
    | nil => exact absurd h (hempty part parts (hparts _ mem_cons_self))
    | cons part' parts' =>
      rw [intercalate_cons, intercalate_cons] at h
      refine flatMap_inj hparts hparts' ?_
      rw [flatMap_cons, flatMap_cons, append_assoc, append_assoc, h]

end Joining

/-! ## Fields -/

variable {field name topic messageType owner revision topic' : Bytes} {fields : List Bytes}
variable {texts : List String} {text : String}

theorem partRest_readablePart {token : Bool} (h : readableRest token field = true) :
    partRest '-'.toUInt8 token (readablePart field) = true := by
  induction field generalizing token with
  | nil => exact h
  | cons b rest ih =>
    rw [readableRest] at h
    rw [readablePart, map_cons, partRest]
    split at h
    next halnum =>
      have hdash : b ≠ '-'.toUInt8 := by
        rintro rfl
        exact absurd halnum (by decide)
      have hdot : b ≠ '.'.toUInt8 := by
        rintro rfl
        exact absurd halnum (by decide)
      rw [if_neg hdot, if_neg hdash]
      exact ih h
    · simp only [Bool.and_eq_true, isSeparator, Bool.or_eq_true, decide_eq_true_eq] at h
      obtain ⟨⟨hsep, htoken⟩, hrest⟩ := h
      have hdashed : (if b = '.'.toUInt8 then '-'.toUInt8 else b) = '-'.toUInt8 := by
        split
        · rfl
        · exact hsep.resolve_left ‹_›
      rw [if_pos hdashed, htoken]
      exact ih hrest

theorem readableName_inj {fields' : List Bytes} (h : readableName fields = .ok name)
    (h' : readableName fields' = .ok name) :
    fields.map readablePart = fields'.map readablePart := by
  obtain ⟨hfields, rfl⟩ := readableName_ok h
  obtain ⟨hfields', hname⟩ := readableName_ok h'
  have hparts : ∀ fields : List Bytes, (∀ field ∈ fields, readableField field = true) →
      ∀ part ∈ fields.map readablePart, partRest '-'.toUInt8 false part = true := by
    intro fields hfields part hpart
    obtain ⟨field, hfield, rfl⟩ := mem_map.mp hpart
    exact partRest_readablePart (hfields field hfield)
  have hsep : utf8 "--" = ['-'.toUInt8, '-'.toUInt8] := by decide
  rw [hsep] at hname
  exact intercalate_inj (hparts fields hfields) (hparts fields' hfields') hname

/-! ## The two languages -/

theorem readableField_ascii (h : readableField field = true) : ∀ b ∈ field, b.toNat ≤ 127 := by
  intro b hb
  rcases isNameByte_of_readableRest h b hb with halnum | hsep
  · exact nameByte_ascii (by simp [isNameByte, halnum])
  · simp only [isSeparator, Bool.or_eq_true, decide_eq_true_eq] at hsep
    rcases hsep with rfl | rfl <;> decide

/-- Only ASCII text is accepted, so Python can be given the same fields. -/
theorem exists_texts (h : ∀ field ∈ fields, readableField field = true) :
    ∃ texts : List String, texts.map utf8 = fields := by
  refine ⟨fields.map fun field => String.ofList (field.map fun b => Char.ofNat b.toNat), ?_⟩
  rw [map_map]
  conv_rhs => rw [← map_id fields]
  exact map_congr_left fun field hfield =>
    utf8_ascii (readableField_ascii (h field hfield))

theorem readableName_of_python (h : Python.readableName texts = .ok text) :
    readableName (texts.map utf8) = .ok (utf8 text) := by
  rcases agree_readableName texts with ⟨s, hgo, hpython⟩ | ⟨-, hpython⟩
  · cases h.symm.trans hpython
    exact hgo
  · exact absurd ⟨text, h⟩ hpython

theorem python_of_readableName (h : readableName fields = .ok name) :
    ∃ texts text, fields = texts.map utf8 ∧ name = utf8 text ∧
      Python.readableName texts = .ok text := by
  obtain ⟨texts, rfl⟩ := exists_texts (readableName_ok h).1
  rcases agree_readableName texts with ⟨s, hgo, hpython⟩ | ⟨hgo, -⟩
  · cases h.symm.trans hgo
    exact ⟨texts, s, rfl, rfl, hpython⟩
  · exact absurd ⟨name, h⟩ hgo

theorem map_readablePart_utf8 (h : readableName (texts.map utf8) = .ok name) :
    (texts.map utf8).map readablePart =
      (texts.map Python.dashed).map fun chars => utf8 (String.ofList chars) := by
  rw [map_map, map_map]
  refine map_congr_left fun text htext => ?_
  have hfield := (readableName_ok h).1 (utf8 text) (mem_map_of_mem htext)
  rw [readableField_utf8] at hfield
  exact (readablePart_utf8 hfield).trans (utf8_ofList _).symm

theorem python_readableName_inj {texts' : List String} (h : Python.readableName texts = .ok text)
    (h' : Python.readableName texts' = .ok text) :
    texts.map Python.dashed = texts'.map Python.dashed := by
  have hgo := readableName_of_python h
  have hgo' := readableName_of_python h'
  have hparts := readableName_inj hgo hgo'
  rw [map_readablePart_utf8 hgo, map_readablePart_utf8 hgo'] at hparts
  refine map_injective_iff.mpr (fun cs cs' heq => ?_) hparts
  exact String.ofList_injective (utf8_injective heq)

/-! ## Topics and groups of the third generation -/

theorem physicalTopicV3_ok (h : physicalTopicV3 topic messageType owner revision = .ok name) :
    ∃ kind, (messageType = normalMessageType ∧ kind = utf8 "normal" ∨
        messageType = transactionMessageType ∧ kind = utf8 "tx") ∧
      readableName [topic, kind, owner, revision] = .ok name := by
  unfold physicalTopicV3 at h
  split at h
  next htype =>
    exact ⟨_, .inl ⟨htype, rfl⟩, h⟩
  · split at h
    next htype =>
      exact ⟨_, .inr ⟨htype, rfl⟩, h⟩
    · cases h

theorem physicalTopicV3_inj {messageType' owner' revision' : Bytes}
    (h : physicalTopicV3 topic messageType owner revision = .ok name)
    (h' : physicalTopicV3 topic' messageType' owner' revision' = .ok name) :
    messageType = messageType' ∧ readablePart topic = readablePart topic' ∧
      readablePart owner = readablePart owner' ∧ readablePart revision = readablePart revision' := by
  obtain ⟨kind, hkind, hname⟩ := physicalTopicV3_ok h
  obtain ⟨kind', hkind', hname'⟩ := physicalTopicV3_ok h'
  have hparts := readableName_inj hname hname'
  simp only [map_cons, map_nil, List.cons.injEq, and_true] at hparts
  obtain ⟨htopic, hkinds, howner, hrevision⟩ := hparts
  have hne : readablePart (utf8 "normal") ≠ readablePart (utf8 "tx") := by decide
  refine ⟨?_, htopic, howner, hrevision⟩
  rcases hkind with ⟨rfl, rfl⟩ | ⟨rfl, rfl⟩ <;> rcases hkind' with ⟨rfl, rfl⟩ | ⟨rfl, rfl⟩
  · rfl
  · exact absurd hkinds hne
  · exact absurd hkinds.symm hne
  · rfl

theorem physicalTopicV3_ne_group {subscription : Bytes}
    (h : physicalTopicV3 topic messageType owner revision = .ok name) :
    consumerGroupV3 topic' subscription ≠ .ok name := by
  intro h'
  obtain ⟨kind, -, hname⟩ := physicalTopicV3_ok h
  have hparts := congrArg List.length (readableName_inj hname h')
  cases hparts

section Generations

variable (sha256 : Bytes → Bytes)

def IsNameV1 (name : Bytes) : Prop :=
  (∃ topic, physicalTopic sha256 topic = name) ∨
    ∃ topic subscription, consumerGroup sha256 topic subscription = name

def IsNameV2 (name : Bytes) : Prop :=
  (∃ topic messageType owner revision,
      physicalTopicV2 sha256 topic messageType owner revision = .ok name) ∨
    ∃ topic subscription, consumerGroupV2 sha256 topic subscription = .ok name

def IsNameV3 (name : Bytes) : Prop :=
  (∃ topic messageType owner revision, physicalTopicV3 topic messageType owner revision = .ok name) ∨
    ∃ topic subscription, consumerGroupV3 topic subscription = .ok name

variable {sha256}

variable {name : Bytes}

theorem underscore_of_isNameV1 (h : IsNameV1 sha256 name) : underscore ∈ name := by
  rcases h with ⟨topic, rfl⟩ | ⟨topic, subscription, rfl⟩
  · exact mem_append_left _ (by decide)
  · exact mem_append_left _ (by decide)

theorem underscore_of_isNameV2 (h : IsNameV2 sha256 name) : underscore ∈ name := by
  rcases h with ⟨topic, messageType, owner, revision, h⟩ | ⟨topic, subscription, h⟩
  · unfold physicalTopicV2 at h
    split at h
    · cases h
    · cases h
      exact mem_append_left _ (by decide)
  · unfold consumerGroupV2 at h
    split at h
    · cases h
    · cases h
      exact mem_append_left _ (by decide)

theorem underscore_of_isNameV3 (h : IsNameV3 name) : underscore ∉ name := by
  rcases h with ⟨topic, messageType, owner, revision, h⟩ | ⟨topic, subscription, h⟩
  · obtain ⟨kind, -, hname⟩ := physicalTopicV3_ok h
    exact underscore_notMem_readableName hname
  · exact underscore_notMem_readableName h

end Generations

/-- Both languages give accepted fields the same readable name, which identifies them up to dots;
topics, groups and the names of the older generations are told apart by it. -/
theorem readable_names_identify_fields (sha256 : Bytes → Bytes) :
    ((∀ fields name, readableName fields = .ok name → ∃ texts text, fields = texts.map utf8 ∧
        name = utf8 text ∧ Python.readableName texts = .ok text) ∧
      ∀ texts text, Python.readableName texts = .ok text →
        readableName (texts.map utf8) = .ok (utf8 text)) ∧
    ((∀ fields fields' name, readableName fields = .ok name → readableName fields' = .ok name →
        fields.length = fields'.length ∧ fields.map readablePart = fields'.map readablePart) ∧
      ∀ texts texts' text, Python.readableName texts = .ok text →
        Python.readableName texts' = .ok text →
        texts.length = texts'.length ∧ texts.map Python.dashed = texts'.map Python.dashed) ∧
    (∀ topic messageType owner revision topic' messageType' owner' revision' name,
      physicalTopicV3 topic messageType owner revision = .ok name →
      physicalTopicV3 topic' messageType' owner' revision' = .ok name →
      messageType = messageType' ∧ readablePart topic = readablePart topic' ∧
        readablePart owner = readablePart owner' ∧
        readablePart revision = readablePart revision') ∧
    (∀ topic messageType owner revision topic' subscription name,
      physicalTopicV3 topic messageType owner revision = .ok name →
      consumerGroupV3 topic' subscription ≠ .ok name) ∧
    ∀ name, IsNameV3 name → ¬ IsNameV1 sha256 name ∧ ¬ IsNameV2 sha256 name := by
  have hlength : ∀ {α β : Type} {f : α → β} {as bs : List α}, as.map f = bs.map f →
      as.length = bs.length := fun h => by simpa using congrArg List.length h
  refine ⟨⟨fun _ _ => python_of_readableName, fun _ _ => readableName_of_python⟩,
    ⟨fun _ _ _ h h' => ?_, fun _ _ _ h h' => ?_⟩, fun _ _ _ _ _ _ _ _ _ => physicalTopicV3_inj,
    fun _ _ _ _ _ _ _ => physicalTopicV3_ne_group, fun name h => ⟨fun h1 => ?_, fun h2 => ?_⟩⟩
  · exact ⟨hlength (readableName_inj h h'), readableName_inj h h'⟩
  · exact ⟨hlength (python_readableName_inj h h'), python_readableName_inj h h'⟩
  · exact underscore_of_isNameV3 h (underscore_of_isNameV1 h1)
  · exact underscore_of_isNameV3 h (underscore_of_isNameV2 h2)

/-- Two topics that differ by a dot share their name. -/
theorem readable_names_identify_fields_dots :
    physicalTopicV3 (utf8 "a.b") normalMessageType (utf8 "o") (utf8 "r") =
        .ok (utf8 "a-b--normal--o--r") ∧
      physicalTopicV3 (utf8 "a-b") normalMessageType (utf8 "o") (utf8 "r") =
        .ok (utf8 "a-b--normal--o--r") ∧
      readablePart (utf8 "a.b") = readablePart (utf8 "a-b") := by
  have h : physicalTopicV3 (utf8 "a.b") normalMessageType (utf8 "o") (utf8 "r") =
      .ok (utf8 "a-b--normal--o--r") := by decide
  have h' : physicalTopicV3 (utf8 "a-b") normalMessageType (utf8 "o") (utf8 "r") =
      .ok (utf8 "a-b--normal--o--r") := by decide
  exact ⟨h, h', ((readable_names_identify_fields id).2.2.1 _ _ _ _ _ _ _ _ _ h h').2.1⟩

end ReliableMessaging.Transport
