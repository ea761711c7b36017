import ReliableMessaging.Encoding.Utf8
import ReliableMessaging.Python.Routing
import ReliableMessaging.Transport.Resolver

/-!
# The two resolvers agree

The Go resolver and the Python one take the same manifests and answer alike.
They check in different orders, so each is first described by what it lets
pass: every row carries its names, and every two rows of a list, or of both
lists, are apart in the ways the tables stand for. The two descriptions are
then the same, row by row, because a text and its bytes are.
-/

namespace ReliableMessaging.Transport

open Loops List Function Json

def encodeBinding (r : Python.RouteBinding) : RouteBinding where
  topic := utf8 r.topic
  subscription := utf8 r.subscription
  physicalTopic := utf8 r.physicalTopic
  consumerGroup := utf8 r.consumerGroup
  messageType := utf8 r.messageType
  owner := utf8 r.owner
  routeRevision := utf8 r.routeRevision
  namingScheme := utf8 r.namingScheme

def encodeKey (k : Python.RouteKey) : RouteKey :=
  ⟨utf8 k.topic, utf8 k.messageType, utf8 k.owner, utf8 k.routeRevision⟩

theorem utf8_inj {s t : String} : utf8 s = utf8 t ↔ s = t := utf8_injective.eq_iff

theorem keyFor_encode (r : Python.RouteBinding) :
    keyFor (encodeBinding r) = encodeKey (Python.keyFor r) := rfl

theorem encodeKey_inj {j k : Python.RouteKey} : encodeKey j = encodeKey k ↔ j = k := by
  cases j
  cases k
  simp [encodeKey, RouteKey.mk.injEq, Python.RouteKey.mk.injEq, utf8_inj]

/-! ## Names -/

variable {s s' : Resolving} {c : Char} {α κ ν : Type} {done before active : List RouteBinding}
variable {a : Python.RouteBinding} {rows : List Python.RouteBinding}

theorem ascii_toNat (h : c.toNat ≤ 127) : (UInt8.ofNat c.toNat).toNat = c.toNat := by
  rw [UInt8.toNat_ofNat', Nat.mod_eq_of_lt (by omega)]

theorem isAlnum_ascii (h : c.toNat ≤ 127) : isAlnum (UInt8.ofNat c.toNat) = Python.isAlnum c := by
  have hle : ∀ d : Char, d.toNat ≤ 127 → (d.toUInt8 ≤ UInt8.ofNat c.toNat ↔ d ≤ c) ∧
      (UInt8.ofNat c.toNat ≤ d.toUInt8 ↔ c ≤ d) := by
    intro d hd
    have hval : d.toUInt8.toNat = d.toNat := ascii_toNat hd
    rw [UInt8.le_iff_toNat_le, UInt8.le_iff_toNat_le, hval, ascii_toNat h]
    exact ⟨Iff.rfl, Iff.rfl⟩
  simp [isAlnum, Python.isAlnum, (hle 'a' (by decide)).1, (hle 'z' (by decide)).2, (hle '0' (by
    decide)).1, (hle '9' (by decide)).2]

theorem ofNat_eq_toUInt8 {d : Char} (hc : c.toNat ≤ 127) (hd : d.toNat ≤ 127) :
    UInt8.ofNat c.toNat = d.toUInt8 ↔ c = d := by
  have hval : d.toUInt8.toNat = d.toNat := ascii_toNat hd
  rw [← UInt8.toNat_inj, ascii_toNat hc, hval, Char.toNat_inj]

theorem readableRest_encode (token : Bool) (chars : List Char) :
    readableRest token (chars.flatMap String.utf8EncodeChar) =
      Python.fullmatchRest token chars := by
  induction chars generalizing token with
  | nil => rfl
  | cons c chars ih =>
    rw [flatMap_cons, Python.fullmatchRest]
    by_cases hc : c.toNat ≤ 127
    · have hdot := ofNat_eq_toUInt8 hc (show '.'.toNat ≤ 127 by decide)
      have hdash := ofNat_eq_toUInt8 hc (show '-'.toNat ≤ 127 by decide)
      rw [encodeChar_ascii hc, singleton_append, readableRest, isAlnum_ascii hc, ih, ih]
      simp [isSeparator, hdot, hdash]
    · -- no byte of another character is a letter, a digit or a separator
      obtain ⟨b, rest, hb⟩ := exists_cons_of_ne_nil (String.utf8EncodeChar_ne_nil (c := c))
      have hwide : 127 < b.toNat :=
        encodeChar_wide (Nat.lt_of_not_le hc) b (by rw [hb]; exact mem_cons_self)
      have halnum : isAlnum b = false := by
        simp only [isAlnum, UInt8.le_iff_toNat_le, Bool.or_eq_false_iff, Bool.and_eq_false_iff,
          decide_eq_false_iff_not]
        have hz : 'z'.toUInt8.toNat = 122 := rfl
        have h9 : '9'.toUInt8.toNat = 57 := rfl
        omega
      have hsep : isSeparator b = false := by
        have hdot : '.'.toUInt8.toNat = 46 := rfl
        have hdash : '-'.toUInt8.toNat = 45 := rfl
        simp only [isSeparator, ← UInt8.toNat_inj, Bool.or_eq_false_iff, decide_eq_false_iff_not]
        omega
      have halnum' : Python.isAlnum c = false := by
        have hle : ∀ d : Char, d.toNat ≤ 127 → ¬ c ≤ d := fun d hd h =>
          hc (Nat.le_trans (show c.toNat ≤ d.toNat from h) hd)
        simp [Python.isAlnum, hle 'z' (by decide), hle '9' (by decide)]
      have hdot : c ≠ '.' := by
        rintro rfl
        exact hc (by decide)
      have hdash : c ≠ '-' := by
        rintro rfl
        exact hc (by decide)
      simp [hb, readableRest, halnum, hsep, halnum', hdot, hdash]

theorem readableField_utf8 (s : String) : readableField (utf8 s) = Python.fullmatch s := by
  rw [readableField, utf8_eq_flatMap, readableRest_encode, Python.fullmatch]

theorem fullmatchRest_ascii {token : Bool} {chars : List Char}
    (h : Python.fullmatchRest token chars = true) : ∀ c ∈ chars, c.toNat ≤ 127 := by
  induction chars generalizing token with
  | nil => simp
  | cons c chars ih =>
    rw [Python.fullmatchRest] at h
    have hle : ∀ d : Char, d.toNat ≤ 127 → c ≤ d → c.toNat ≤ 127 := fun d hd h =>
      Nat.le_trans (show c.toNat ≤ d.toNat from h) hd
    rw [forall_mem_cons]
    split at h
    next halnum =>
      refine ⟨?_, ih h⟩
      simp only [Python.isAlnum, Bool.or_eq_true, Bool.and_eq_true, decide_eq_true_eq] at halnum
      rcases halnum with ⟨-, hz⟩ | ⟨-, h9⟩
      · exact hle 'z' (by decide) hz
      · exact hle '9' (by decide) h9
    next =>
      simp only [Bool.and_eq_true, Bool.or_eq_true, decide_eq_true_eq] at h
      refine ⟨?_, ih h.2⟩
      rcases h.1.1 with rfl | rfl <;> decide

theorem readablePart_utf8 {s : String} (h : Python.fullmatch s = true) :
    readablePart (utf8 s) = (Python.dashed s).flatMap String.utf8EncodeChar := by
  rw [utf8_eq_flatMap, readablePart, Python.dashed]
  have hall := fullmatchRest_ascii h
  generalize s.toList = chars at hall
  induction chars with
  | nil => rfl
  | cons c chars ih =>
    obtain ⟨hc, hrest⟩ := forall_mem_cons.mp hall
    rw [flatMap_cons, map_append, ih hrest, map_cons, flatMap_cons, encodeChar_ascii hc]
    congr 1
    have hdot := ofNat_eq_toUInt8 hc (show '.'.toNat ≤ 127 by decide)
    by_cases h : c = '.'
    · subst h
      rfl
    · simp [hdot, h, encodeChar_ascii hc]

theorem flatMap_intercalate {β : Type} (f : α → List β) (sep : List α) (parts : List (List α)) :
    (sep.intercalate parts).flatMap f =
      (sep.flatMap f).intercalate (parts.map fun part => part.flatMap f) := by
  match parts with
  | [] => rfl
  | [part] => simp
  | part :: next :: rest =>
    rw [intercalate_cons_cons, flatMap_append, flatMap_append, map_cons,
      map_cons, intercalate_cons_cons, flatMap_intercalate f sep (next :: rest)]
    rfl

/-- The Go answer is the Python one in bytes, or both are errors. -/
def Agree (x : Except String Bytes) (y : Except String String) : Prop :=
  (∃ s, x = .ok (utf8 s) ∧ y = .ok s) ∨ ¬ Passes x ∧ ¬ Passes y

theorem agree_ok (s : String) : Agree (.ok (utf8 s)) (.ok s) := .inl ⟨s, rfl, rfl⟩

theorem agree_error (e e' : String) : Agree (.error e) (.error e') :=
  .inr ⟨not_passes_error e, not_passes_error e'⟩

theorem agree_readableName (fields : List String) :
    Agree (readableName (fields.map utf8)) (Python.readableName fields) := by
  have hall : (fields.map utf8).all readableField = !fields.any fun v => !Python.fullmatch v := by
    rw [all_map, not_any_eq_all_not]
    simp [comp_def, readableField_utf8]
  unfold readableName Python.readableName
  rw [hall, Bool.not_not]
  cases hany : fields.any fun v => !Python.fullmatch v with
  | true => exact agree_error _ _
  | false =>
    have hfields : ∀ v ∈ fields, Python.fullmatch v = true := by
      intro v hv
      simpa using any_eq_false.mp hany v hv
    have hname : (utf8 "--").intercalate ((fields.map utf8).map readablePart) =
        utf8 (String.ofList (['-', '-'].intercalate (fields.map Python.dashed))) := by
      rw [utf8_ofList (['-', '-'].intercalate (fields.map Python.dashed)), flatMap_intercalate,
        map_map, map_map]
      congr 1
      exact map_congr_left fun v hv => readablePart_utf8 (hfields v hv)
    simp only [Bool.false_eq_true, if_false, hname]
    split
    · exact agree_error _ _
    · exact agree_ok _

theorem agree_physicalTopicV3 (topic messageType owner revision : String) :
    Agree (physicalTopicV3 (utf8 topic) (utf8 messageType) (utf8 owner) (utf8 revision))
      (Python.physicalTopicV3 topic messageType owner revision) := by
  unfold physicalTopicV3 Python.physicalTopicV3
  have hnormal : utf8 messageType = normalMessageType ↔ messageType = Python.normalMessageType :=
    utf8_inj
  have htx : utf8 messageType = transactionMessageType ↔
      messageType = Python.transactionMessageType := utf8_inj
  simp only [hnormal, htx]
  by_cases h : messageType = Python.normalMessageType
  · rw [if_pos h, if_neg fun hne => hne.1 h, if_pos h]
    exact agree_readableName [topic, "normal", owner, revision]
  rw [if_neg h]
  by_cases h' : messageType = Python.transactionMessageType
  · rw [if_pos h', if_neg fun hne => hne.2 h', if_neg h]
    exact agree_readableName [topic, "tx", owner, revision]
  · rw [if_neg h', if_pos ⟨h, h'⟩]
    exact agree_error _ _

theorem contains_zero_utf8 (s : String) : (utf8 s).contains 0 = Python.hasNul s := by
  have hchar : ∀ c : Char, c.toNat = (0 : UInt8).toNat ↔ c = '\x00' := fun c =>
    Char.toNat_inj (d := '\x00')
  have hiff : 0 ∈ utf8 s ↔ '\x00' ∈ s.toList := by
    rw [mem_utf8_ascii (by decide)]
    simp only [hchar, exists_eq_right]
  rw [Python.hasNul, Bool.eq_iff_iff, contains_iff_mem, contains_iff_mem]
  exact hiff

theorem fieldV2_eq (s : String) (limit : Nat) :
    routeField (utf8 s) limit = true ∧ Python.fieldV2 s limit = .ok (utf8 s) ∨
      routeField (utf8 s) limit = false ∧ ¬ Passes (Python.fieldV2 s limit) := by
  unfold routeField Python.fieldV2
  rw [validateUTF8_utf8, contains_zero_utf8]
  by_cases hempty : s = ""
  · subst hempty
    exact .inr ⟨rfl, by simp⟩
  have hne : utf8 s ≠ [] := fun h => hempty (utf8_eq_nil.mp h)
  by_cases hnul : Python.hasNul s = true
  · exact .inr ⟨by simp [hnul], by simp [hnul]⟩
  by_cases hlen : (utf8 s).length ≤ limit
  · exact .inl ⟨by simp [hne, hnul, hlen], by simp [hempty, hnul, Nat.not_lt.mpr hlen]⟩
  · exact .inr ⟨by simp [hlen], by simp [hempty, hnul, Nat.lt_of_not_le hlen]⟩

theorem hexChars_take (data : Bytes) (n : Nat) :
    (hexChars data).take (2 * n) = hexChars (data.take n) := by
  induction data generalizing n with
  | nil => simp [hexChars]
  | cons b data ih =>
    cases n with
    | zero => simp [hexChars]
    | succ n =>
      have hcons : ∀ bytes : Bytes, hexChars (b :: bytes) =
          hexDigit (b.toNat / 16) :: hexDigit (b.toNat % 16) :: hexChars bytes :=
        fun _ => rfl
      rw [take_succ_cons, hcons, hcons, ← ih n, show 2 * (n + 1) = 2 * n + 1 + 1 by omega,
        take_succ_cons, take_succ_cons]

section Digests

variable {sha256 : Bytes → Bytes}

theorem shortDigest_eq (data : Bytes) :
    shortDigest sha256 data = utf8 (Python.hexdigest sha256 data) := by
  rw [shortDigest, Python.hexdigest, ← hexChars_take]

theorem agree_physicalTopicV2 (topic messageType owner revision : String) :
    Agree (physicalTopicV2 sha256 (utf8 topic) (utf8 messageType) (utf8 owner) (utf8 revision))
      (Python.physicalTopicV2 sha256 topic messageType owner revision) := by
  have hnormal : utf8 messageType = normalMessageType ↔ messageType = Python.normalMessageType :=
    utf8_inj
  have htx : utf8 messageType = transactionMessageType ↔
      messageType = Python.transactionMessageType := utf8_inj
  have hpass : Passes (Python.physicalTopicV2 sha256 topic messageType owner revision) →
      ¬ (messageType ≠ Python.normalMessageType ∧ messageType ≠ Python.transactionMessageType) ∧
      Passes (Python.fieldV2 topic 255) ∧ Passes (Python.fieldV2 owner 128) ∧
      Passes (Python.fieldV2 revision 128) := by
    intro h
    obtain ⟨htype, h⟩ := passes_seq.mp h
    obtain ⟨t, ht, h⟩ := passes_bind.mp h
    obtain ⟨o, ho, h⟩ := passes_bind.mp h
    obtain ⟨r, hr, -⟩ := passes_bind.mp h
    exact ⟨passes_refuseIf.mp htype, ⟨t, ht⟩, ⟨o, ho⟩, ⟨r, hr⟩⟩
  by_cases htype : messageType ≠ Python.normalMessageType ∧
      messageType ≠ Python.transactionMessageType
  · exact .inr ⟨by simp [physicalTopicV2, hnormal, htx, htype], fun h => (hpass h).1 htype⟩
  rcases fieldV2_eq topic 255 with ⟨ht, ht'⟩ | ⟨ht, ht'⟩
  · rcases fieldV2_eq owner 128 with ⟨ho, ho'⟩ | ⟨ho, ho'⟩
    · rcases fieldV2_eq revision 128 with ⟨hr, hr'⟩ | ⟨hr, hr'⟩
      · refine .inl ⟨"rmq2_t_" ++ Python.digestV2 sha256 (utf8 "rmq-topic-v2\x00")
          [utf8 topic, utf8 messageType, utf8 owner, utf8 revision], ?_, ?_⟩
        · have hknown : (messageType = Python.normalMessageType ∨
              messageType = Python.transactionMessageType) := by
            by_contra hnone
            exact htype (not_or.mp hnone)
          simp only [physicalTopicV2, ht, ho, hr, ne_eq, hnormal, htx]
          rcases hknown with h | h <;>
            simp [h, utf8_append, routeDigestV2, shortDigest_eq, Python.digestV2]
        · rw [Python.physicalTopicV2, refuseIf, if_neg htype, ht', ho', hr']
          rfl
      · exact .inr ⟨by simp [physicalTopicV2, hr], fun h => hr' (hpass h).2.2.2⟩
    · exact .inr ⟨by simp [physicalTopicV2, ho], fun h => ho' (hpass h).2.2.1⟩
  · exact .inr ⟨by simp [physicalTopicV2, ht], fun h => ht' (hpass h).2.1⟩

theorem agree_consumerGroupV2 (topic subscription : String) :
    Agree (consumerGroupV2 sha256 (utf8 topic) (utf8 subscription))
      (Python.consumerGroupV2 sha256 topic subscription) := by
  have hpass : Passes (Python.consumerGroupV2 sha256 topic subscription) →
      Passes (Python.fieldV2 topic 255) ∧ Passes (Python.fieldV2 subscription 255) := by
    intro h
    obtain ⟨t, ht, h⟩ := passes_bind.mp h
    obtain ⟨u, hu, -⟩ := passes_bind.mp h
    exact ⟨⟨t, ht⟩, ⟨u, hu⟩⟩
  rcases fieldV2_eq topic 255 with ⟨ht, ht'⟩ | ⟨ht, ht'⟩
  · rcases fieldV2_eq subscription 255 with ⟨hs, hs'⟩ | ⟨hs, hs'⟩
    · refine .inl ⟨"rmq2_g_" ++ Python.digestV2 sha256 (utf8 "rmq-group-v2\x00")
        [utf8 topic, utf8 subscription], ?_, ?_⟩
      · simp [consumerGroupV2, ht, hs, utf8_append, routeDigestV2, shortDigest_eq, Python.digestV2]
      · rw [Python.consumerGroupV2, ht', hs']
        rfl
    · exact .inr ⟨by simp [consumerGroupV2, hs], fun h => hs' (hpass h).2⟩
  · exact .inr ⟨by simp [consumerGroupV2, ht], fun h => ht' (hpass h).1⟩

theorem agree_expectedPhysicalTopic (sha256 : Bytes → Bytes)
    (topic messageType owner revision scheme : String) :
    Agree (expectedPhysicalTopic sha256 (utf8 topic) (utf8 messageType) (utf8 owner) (utf8 revision)
        (utf8 scheme))
      (Python.expectedPhysicalTopic sha256 topic messageType owner revision scheme) := by
  unfold expectedPhysicalTopic Python.expectedPhysicalTopic
  have hreadable : utf8 scheme = readableNamingV1 ↔ scheme = Python.readableNamingV1 := utf8_inj
  simp only [hreadable, utf8_eq_nil, ne_eq]
  by_cases h : scheme = Python.readableNamingV1
  · rw [if_pos h, if_pos h]
    exact agree_physicalTopicV3 topic messageType owner revision
  rw [if_neg h, if_neg h]
  by_cases hscheme : scheme = ""
  · rw [if_pos hscheme, if_neg (not_not.mpr hscheme)]
    by_cases htype : messageType = ""
    · rw [if_pos htype, if_neg (not_not.mpr htype)]
      by_cases howner : owner = ""
      · by_cases hrevision : revision = ""
        · simpa [howner, hrevision, physicalTopic, Python.physicalTopic, routeDigest,
            shortDigest_eq, utf8_append] using agree_ok (Python.physicalTopic sha256 topic)
        · simpa [hrevision] using agree_error _ _
      · simpa [howner] using agree_error _ _
    · rw [if_neg htype, if_pos htype]
      exact agree_physicalTopicV2 topic messageType owner revision
  · rw [if_neg hscheme, if_pos hscheme]
    exact agree_error _ _

/-- The groups agree where the scheme is one of the two; `expectedPhysicalTopic` refuses others. -/
theorem agree_expectedConsumerGroup (r : Python.RouteBinding)
    (hscheme : r.namingScheme = Python.readableNamingV1 ∨ r.namingScheme = "") :
    Agree (expectedConsumerGroup sha256 (encodeBinding r))
      (Python.expectedConsumerGroup sha256 r) := by
  unfold expectedConsumerGroup Python.expectedConsumerGroup
  have hreadable : utf8 r.namingScheme = readableNamingV1 ↔
      r.namingScheme = Python.readableNamingV1 := utf8_inj
  have hne : ("" : String) ≠ Python.readableNamingV1 := by decide
  simp only [encodeBinding, hreadable, utf8_eq_nil, ne_eq]
  by_cases hsub : r.subscription = ""
  · simp only [hsub, if_true, not_true_eq_false, if_false]
    split
    · exact agree_ok ""
    · split <;> exact agree_ok ""
  rw [if_neg hsub]
  rcases hscheme with h | h
  · simp only [h, if_true, hsub, not_false_eq_true]
    exact agree_readableName [r.topic, r.subscription]
  · simp only [h, hne, if_false, not_true_eq_false, hsub, not_false_eq_true, if_true]
    by_cases htype : r.messageType = ""
    · have hbytes : consumerGroup sha256 (utf8 r.topic) (utf8 r.subscription) =
          utf8 (Python.consumerGroup sha256 r.topic r.subscription) := by
        rw [consumerGroup, Python.consumerGroup, routeDigest, shortDigest_eq, utf8_append,
          utf8_append, utf8_append]
        rfl
      simpa [htype, hbytes] using agree_ok (Python.consumerGroup sha256 r.topic r.subscription)
    · simpa [htype] using agree_consumerGroupV2 r.topic r.subscription

/-! ## Rows -/

/-- A row that has a topic, no NUL in its logical names, and the names its fields determine. -/
structure Named (sha256 : Bytes → Bytes) (r : RouteBinding) : Prop extends Canonical sha256 r where
  topic : r.topic ≠ []
  topicNul : r.topic.contains 0 = false
  subscriptionNul : r.subscription.contains 0 = false

theorem Agree.ok_iff {x : Except String Bytes} {y : Except String String} (h : Agree x y)
    (s : String) : x = .ok (utf8 s) ↔ y = .ok s := by
  rcases h with ⟨t, rfl, rfl⟩ | ⟨hx, hy⟩
  · simp [utf8_inj]
  · exact iff_of_false (fun h => hx ⟨_, h⟩) fun h => hy ⟨_, h⟩

theorem scheme_of_expectedPhysicalTopic {topic messageType owner revision scheme name : String}
    (h : Python.expectedPhysicalTopic sha256 topic messageType owner revision scheme = .ok name) :
    scheme = Python.readableNamingV1 ∨ scheme = "" := by
  unfold Python.expectedPhysicalTopic at h
  split at h
  next hreadable => exact .inl hreadable
  next =>
    split at h
    · cases h
    next hempty => exact .inr (not_not.mp hempty)

/-- A binding can be made in Python just when its bytes are a row with its names. -/
theorem passes_new (r : Python.RouteBinding) :
    Passes (Python.RouteBinding.new sha256 r) ↔ Named sha256 (encodeBinding r) := by
  have htopic := agree_expectedPhysicalTopic sha256 r.topic r.messageType r.owner
    r.routeRevision r.namingScheme
  constructor
  · intro h
    obtain ⟨hnames, h⟩ := passes_seq.mp h
    obtain ⟨expectedTopic, hexpected, h⟩ := passes_bind.mp h
    obtain ⟨expected, hgroup, h⟩ := passes_bind.mp h
    obtain ⟨hphysical, h⟩ := passes_seq.mp h
    obtain ⟨hsame, -⟩ := passes_seq.mp h
    simp only [passes_refuseIf, not_or, Bool.not_eq_true, not_not] at hnames hphysical hsame
    obtain ⟨hne, hnul, hnul'⟩ := hnames
    have hscheme := scheme_of_expectedPhysicalTopic hexpected
    refine ⟨⟨?_, ?_⟩, fun hnil => hne (utf8_eq_nil.mp hnil), ?_, ?_⟩
    · exact (htopic.ok_iff _).mpr (hphysical ▸ hexpected)
    · exact ((agree_expectedConsumerGroup r hscheme).ok_iff _).mpr (hsame ▸ hgroup)
    · exact (contains_zero_utf8 _).trans hnul
    · exact (contains_zero_utf8 _).trans hnul'
  · rintro ⟨⟨hphysical, hgroup⟩, hne, hnul, hnul'⟩
    have hexpected := (htopic.ok_iff _).mp hphysical
    have hscheme := scheme_of_expectedPhysicalTopic hexpected
    have hgroup' := ((agree_expectedConsumerGroup r hscheme).ok_iff _).mp hgroup
    rw [Python.RouteBinding.new, passes_seq, hexpected, passes_refuseIf]
    refine ⟨?_, passes_bind.mpr ⟨_, rfl, ?_⟩⟩
    · rw [not_or, not_or, ← contains_zero_utf8, ← contains_zero_utf8]
      exact ⟨fun hempty => hne (utf8_eq_nil.mpr hempty), Bool.eq_false_iff.mp hnul,
        Bool.eq_false_iff.mp hnul'⟩
    · rw [hgroup']
      refine passes_bind.mpr ⟨_, rfl, passes_seq.mpr ⟨by simp, passes_seq.mpr ⟨by simp, ?_⟩⟩⟩
      exact passes_pure r

theorem new_eq {r r' : Python.RouteBinding} (h : Python.RouteBinding.new sha256 r = .ok r') :
    r' = r := by
  unfold Python.RouteBinding.new at h
  obtain ⟨_, -, h⟩ := bind_ok h
  obtain ⟨_, -, h⟩ := bind_ok h
  obtain ⟨_, -, h⟩ := bind_ok h
  obtain ⟨_, -, h⟩ := bind_ok h
  obtain ⟨_, -, h⟩ := bind_ok h
  exact (Except.ok.inj h).symm

/-! ## One list -/

/-- What two rows of one list may not share. -/
def rowKey (r : RouteBinding) : Bytes × Bytes × Bytes × Bytes × Bytes :=
  (r.topic, r.subscription, r.messageType, r.owner, r.routeRevision)

def logical (r : RouteBinding) : Bytes × Bytes := (r.topic, r.subscription)

/-- Two rows that may stand in one list. -/
structure Apart (b a : RouteBinding) : Prop where
  key : rowKey b ≠ rowKey a
  physical : b.physicalTopic = a.physicalTopic → keyFor b = keyFor a
  group : a.subscription ≠ [] → b.subscription ≠ [] → b.consumerGroup = a.consumerGroup →
    logical b = logical a

/-- The tables of `validateRoutes` after the rows done. -/
structure Checked.Of (done : List RouteBinding) (c : Checked) : Prop where
  seen : ∀ key, c.seen key = true ↔ ∃ b ∈ done, rowKey b = key
  physical : Lists (fun _ => True) (·.physicalTopic) keyFor done c.physical
  groups : Lists (·.subscription ≠ []) (·.consumerGroup) logical done c.groups

theorem claim_eq_claimIf {κ ν : Type} [DecidableEq κ] [DecidableEq ν] (err : String)
    (m : κ → Option ν) (k : κ) (v : ν) : claim err m k v = claimIf True err m k v :=
  (if_pos trivial).symm

variable {done : List RouteBinding} {c : Checked}

theorem passes_validateRow (hc : c.Of done) (a : RouteBinding) :
    Passes (validateRow sha256 c a) ↔ Named sha256 a ∧ ∀ b ∈ done, Apart b a := by
  have hphysical := hc.physical.passes "physical topic collision" a
  have hgroups := hc.groups.passes "consumer group collision" a
  have hseen := hc.seen (rowKey a)
  unfold validateRow
  constructor
  · intro h
    obtain ⟨expected, hexpected, h⟩ := passes_bind.mp h
    obtain ⟨group, hgroup, h⟩ := passes_bind.mp h
    obtain ⟨hnames, h⟩ := passes_seq.mp h
    obtain ⟨hnew, h⟩ := passes_seq.mp h
    obtain ⟨physical, hp, h⟩ := passes_bind.mp h
    obtain ⟨groups, hg, -⟩ := passes_bind.mp h
    simp only [passes_refuseIf, not_or, not_not, Bool.not_eq_true] at hnames hnew
    obtain ⟨hne, hnul, hnul', rfl, rfl⟩ := hnames
    refine ⟨⟨⟨hexpected, hgroup⟩, hne, hnul, hnul'⟩, fun b hb => ⟨fun hkey => ?_, ?_, ?_⟩⟩
    · exact Bool.eq_false_iff.mp hnew (hseen.mpr ⟨b, hb, hkey⟩)
    · exact hphysical.mp ⟨_, (claim_eq_claimIf ..).symm.trans hp⟩ trivial b hb trivial
    · exact fun ha hb' => hgroups.mp ⟨_, hg⟩ ha b hb hb'
  · rintro ⟨hnamed, hall⟩
    obtain ⟨physical, hp⟩ := hphysical.mpr fun _ b hb _ => (hall b hb).physical
    obtain ⟨groups, hg⟩ := hgroups.mpr fun ha b hb hb' => (hall b hb).group ha hb'
    refine passes_bind.mpr ⟨_, hnamed.physical, passes_bind.mpr ⟨_, hnamed.group, ?_⟩⟩
    refine passes_seq.mpr ⟨?_, passes_seq.mpr ⟨?_, ?_⟩⟩
    · simp only [passes_refuseIf, not_or, not_not, Bool.not_eq_true]
      exact ⟨hnamed.topic, hnamed.topicNul, hnamed.subscriptionNul, trivial, trivial⟩
    · rw [passes_refuseIf]
      intro hold
      obtain ⟨b, hb, hkey⟩ := hseen.mp hold
      exact (hall b hb).key hkey
    · exact passes_bind.mpr ⟨physical, (claim_eq_claimIf ..).trans hp,
        passes_bind.mpr ⟨groups, hg, passes_pure _⟩⟩

theorem Checked.Of.round {c' : Checked} (hc : c.Of done) {a : RouteBinding}
    (h : validateRow sha256 c a = .ok c') : c'.Of (done ++ [a]) := by
  unfold validateRow at h
  obtain ⟨_, -, h⟩ := bind_ok h
  obtain ⟨_, -, h⟩ := bind_ok h
  obtain ⟨_, -, h⟩ := bind_ok h
  obtain ⟨_, -, h⟩ := bind_ok h
  obtain ⟨physical, hp, h⟩ := bind_ok h
  obtain ⟨groups, hg, h⟩ := bind_ok h
  cases h
  rw [claim_eq_claimIf] at hp
  refine ⟨fun key => ?_, hc.physical.claimIf hp, hc.groups.claimIf hg⟩
  by_cases hkey : key = rowKey a
  · subst hkey
    refine iff_of_true ?_ ⟨a, by simp, rfl⟩
    exact update_self ..
  · have hold : Function.update c.seen (rowKey a) true key = c.seen key :=
      update_of_ne hkey ..
    simp only [mem_append, mem_singleton, or_and_right, exists_or, exists_eq_left,
      Ne.symm hkey, or_false]
    exact (Bool.eq_iff_iff.mp hold).trans (hc.seen key)

theorem passes_validateRoutes (sha256 : Bytes → Bytes) (rows : List RouteBinding) :
    Passes (validateRoutes sha256 rows) ↔
      rows ≠ [] ∧ (∀ r ∈ rows, Named sha256 r) ∧ rows.Pairwise Apart := by
  have hempty : Checked.Of [] {} := ⟨by simp, lists_nil, lists_nil⟩
  have hloop := foldlM_passes rows (f := validateRow sha256) (P := fun done (c : Checked) => c.Of done)
    (fun done c a hc => passes_validateRow hc a)
    (fun _ _ _ _ hc h => hc.round h) hempty
  rw [validateRoutes, passes_seq, passes_refuseIf, ← hloop, passes_bind]
  exact and_congr_right' ⟨fun ⟨c, hc, _⟩ => ⟨c, hc⟩, fun ⟨c, hc⟩ => ⟨c, hc, passes_pure _⟩⟩

end Digests

theorem setdefault_eq [DecidableEq κ] [DecidableEq ν] (err : String) (m : κ → Option ν) (k : κ)
    (v : ν) : Python.setdefault err m k v = claim err m k v := by
  unfold Python.setdefault claim
  cases hm : m k with
  | none => simp [refuseIf, bind, Except.bind, pure, Except.pure]
  | some old =>
    by_cases hold : old = v
    · subst hold
      have hsame : Function.update m k (some old) = m := by
        rw [← hm]
        exact update_eq_self k m
      simp [refuseIf, bind, Except.bind, pure, Except.pure, hsame]
    · simp [refuseIf, hold, bind, Except.bind]

theorem setdefaultIf_eq [DecidableEq κ] [DecidableEq ν] (c : Prop) [Decidable c] (err : String)
    (m : κ → Option ν) (k : κ) (v : ν) : Python.setdefaultIf c err m k v = claimIf c err m k v := by
  rw [Python.setdefaultIf, claimIf, setdefault_eq]

/-- The tables of `validate_routes` after the rows done. -/
structure PythonChecked (done : List Python.RouteBinding) (c : Python.Checked) : Prop where
  topics : Lists (fun _ => True) (·.physicalTopic) Python.keyFor done c.topics
  groups : Lists (·.subscription ≠ "") (·.consumerGroup) (fun r => (r.topic, r.subscription)) done
    c.groups

/-- The tables of `validate_routes` keep apart what its set of keys does not. -/
def TablesApart (b a : Python.RouteBinding) : Prop :=
  (b.physicalTopic = a.physicalTopic → Python.keyFor b = Python.keyFor a) ∧
  (a.subscription ≠ "" → b.subscription ≠ "" → b.consumerGroup = a.consumerGroup →
    (b.topic, b.subscription) = (a.topic, a.subscription))

theorem apart_encode (b a : Python.RouteBinding) :
    Apart (encodeBinding b) (encodeBinding a) ↔
      Python.rowKey b ≠ Python.rowKey a ∧ TablesApart b a := by
  have hkey : rowKey (encodeBinding b) = rowKey (encodeBinding a) ↔
      Python.rowKey b = Python.rowKey a := by
    simp [rowKey, Python.rowKey, encodeBinding, utf8_inj]
  have hlogical : logical (encodeBinding b) = logical (encodeBinding a) ↔
      (b.topic, b.subscription) = (a.topic, a.subscription) := by
    simp [logical, encodeBinding, utf8_inj]
  constructor
  · rintro ⟨hne, hphysical, hgroup⟩
    refine ⟨fun h => hne (hkey.mpr h), fun h => ?_, fun ha hb h => ?_⟩
    · exact encodeKey_inj.mp (hphysical (congrArg utf8 h))
    · exact hlogical.mp (hgroup (fun hnil => ha (utf8_eq_nil.mp hnil))
        (fun hnil => hb (utf8_eq_nil.mp hnil)) (congrArg utf8 h))
  · rintro ⟨hne, hphysical, hgroup⟩
    refine ⟨fun h => hne (hkey.mp h), fun h => ?_, fun ha hb h => ?_⟩
    · exact encodeKey_inj.mpr (hphysical (utf8_inj.mp h))
    · exact hlogical.mpr (hgroup (fun hnil => ha (utf8_eq_nil.mpr hnil))
        (fun hnil => hb (utf8_eq_nil.mpr hnil)) (utf8_inj.mp h))

theorem passes_pythonRow {done : List Python.RouteBinding} {c : Python.Checked}
    (hc : PythonChecked done c) (a : Python.RouteBinding) :
    Passes (Python.validateRow c a) ↔ True ∧ ∀ b ∈ done, TablesApart b a := by
  have htopics := hc.topics.passes "physical topic collision" a
  have hgroups := hc.groups.passes "consumer group collision" a
  simp only [Python.validateRow, setdefault_eq, setdefaultIf_eq, claim_eq_claimIf, true_and]
  constructor
  · intro h b hb
    obtain ⟨topics, ht, h⟩ := passes_bind.mp h
    obtain ⟨groups, hg, -⟩ := passes_bind.mp h
    exact ⟨htopics.mp ⟨_, ht⟩ trivial b hb trivial, fun ha hb' => hgroups.mp ⟨_, hg⟩ ha b hb hb'⟩
  · intro hall
    obtain ⟨topics, ht⟩ := htopics.mpr fun _ b hb _ => (hall b hb).1
    obtain ⟨groups, hg⟩ := hgroups.mpr fun ha b hb hb' => (hall b hb).2 ha hb'
    exact passes_bind.mpr ⟨topics, ht, passes_bind.mpr ⟨groups, hg, passes_pure _⟩⟩

theorem PythonChecked.round {done : List Python.RouteBinding} {c c' : Python.Checked}
    (hc : PythonChecked done c) (h : Python.validateRow c a = .ok c') :
    PythonChecked (done ++ [a]) c' := by
  simp only [Python.validateRow, setdefault_eq, setdefaultIf_eq, claim_eq_claimIf] at h
  obtain ⟨topics, ht, h⟩ := bind_ok h
  obtain ⟨groups, hg, h⟩ := bind_ok h
  cases h
  exact ⟨hc.topics.claimIf ht, hc.groups.claimIf hg⟩

theorem card_toFinset_iff [DecidableEq α] (l : List α) : l.toFinset.card = l.length ↔ l.Nodup :=
  Multiset.toFinset_card_eq_card_iff_nodup (m := (l : Multiset α))

theorem passes_pythonRoutes (rows : List Python.RouteBinding) :
    Passes (Python.validateRoutes rows) ↔
      rows ≠ [] ∧ (rows.map encodeBinding).Pairwise Apart := by
  have hloop := foldlM_passes rows (P := PythonChecked)
    (fun done c a hc => passes_pythonRow hc a) (fun _ _ _ _ hc h => hc.round h) (s := {})
    ⟨lists_nil, lists_nil⟩
  have hlength : (rows.map Python.rowKey).length = rows.length := length_map ..
  rw [Python.validateRoutes, passes_seq, passes_refuseIf, not_or, not_not, pairwise_map]
  simp only [apart_encode]
  rw [pairwise_and_iff, ← pairwise_map (f := Python.rowKey) (R := (· ≠ ·)), and_assoc,
    ← hlength, card_toFinset_iff, passes_bind]
  refine and_congr_right' (and_congr_right' ⟨fun ⟨c, hc, _⟩ => (hloop.mp ⟨c, hc⟩).2, fun h => ?_⟩)
  obtain ⟨c, hc⟩ := hloop.mpr ⟨fun _ _ => trivial, h⟩
  exact ⟨c, hc, passes_pure _⟩

/-! ## Both lists -/

/-- The row that a later one of its broker topic has not replaced. -/
def latest (rows : List RouteBinding) (p : Bytes) : Option RouteBinding :=
  rows.reverse.find? (·.physicalTopic = p)

theorem latest_append (rows : List RouteBinding) (row : RouteBinding) :
    latest (rows ++ [row]) = Function.update (latest rows) row.physicalTopic (some row) := by
  funext p
  rw [latest, reverse_append, reverse_singleton, singleton_append, List.find?_cons]
  by_cases hp : row.physicalTopic = p
  · subst hp
    simp
  · simp [hp, update_of_ne (Ne.symm hp), latest]

/-- A consumer group belongs to one logical subscription. -/
def OneSubscription (b a : RouteBinding) : Prop :=
  a.consumerGroup ≠ [] → b.consumerGroup ≠ [] → b.consumerGroup = a.consumerGroup →
    logical b = logical a

/-- A logical subscription has one consumer group. -/
def OneGroup (b a : RouteBinding) : Prop :=
  a.consumerGroup ≠ [] → b.consumerGroup ≠ [] → logical b = logical a →
    b.consumerGroup = a.consumerGroup

/-- The tables of `newRouteResolver` after the rows `done` of a list, read behind the rows `before`
of another. -/
structure Tabled (before done : List RouteBinding) (s : Resolving) : Prop
    extends Resolved before done s where
  listed : Lists (·.consumerGroup ≠ []) (·.consumerGroup) logical (before ++ done) s.groups
  latest : s.recorded = latest (before ++ done)

theorem passes_refuseOverlap (hs : Resolved before done s) (a : RouteBinding) :
    Passes (refuseOverlap s a) ↔ ∀ b ∈ before, b.physicalTopic ≠ a.physicalTopic := by
  constructor
  · rintro ⟨u, hu⟩ b hb heq
    rcases refuseOverlap_ok hu with hnone | hflag
    · have hsome := hs.recorded_some b (mem_append_left _ hb)
      rw [heq, hnone] at hsome
      cases hsome
    · obtain ⟨d, hd, hda⟩ := (hs.physical_iff _).mp hflag
      exact hs.disjoint b hb d hd (heq.trans hda.symm)
  · intro hall
    unfold refuseOverlap
    cases hrecorded : s.recorded a.physicalTopic with
    | none => exact passes_ok _
    | some previous =>
      obtain ⟨hmem, htopic⟩ := hs.recorded_mem _ _ hrecorded
      rcases mem_append.mp hmem with hmem | hmem
      · exact absurd htopic (hall previous hmem)
      · have hflag := (hs.physical_iff a.physicalTopic).mpr ⟨previous, hmem, htopic⟩
        simp [hflag]

theorem Tabled.round {first : Bool} {row : RouteBinding} (hs : Tabled before done s)
    (h : resolveRow first s row = .ok s') : Tabled before (done ++ [row]) s' := by
  have hresolved := hs.toResolved.round h
  have hrecorded := (resolveRow_ok h).2.1
  unfold resolveRow at h
  obtain ⟨_, -, h⟩ := bind_ok h
  obtain ⟨_, -, h⟩ := bind_ok h
  obtain ⟨groups, hg, h⟩ := bind_ok h
  cases h
  refine { hresolved with listed := ?_, latest := ?_ }
  · rw [← append_assoc]
    exact hs.listed.claimIf hg
  · rw [hrecorded, hs.latest, ← append_assoc, latest_append]

theorem passes_historicalRow (hs : Tabled active done s) (a : RouteBinding) :
    Passes (resolveRow false s a) ↔
      (∀ b ∈ active, b.physicalTopic ≠ a.physicalTopic ∧ OneSubscription b a) ∧
        ∀ b ∈ done, OneSubscription b a := by
  have hgroups := hs.listed.passes "consumer group collision" a
  have hoverlap := passes_refuseOverlap hs.toResolved a
  constructor
  · intro h
    obtain ⟨ho, h⟩ := passes_seq.mp h
    obtain ⟨_, -, h⟩ := passes_bind.mp h
    obtain ⟨groups, hg, -⟩ := passes_bind.mp h
    have hone : ∀ b ∈ active ++ done, OneSubscription b a := fun b hb ha hb' =>
      hgroups.mp ⟨_, hg⟩ ha b hb hb'
    exact ⟨fun b hb => ⟨hoverlap.mp ho b hb, hone b (mem_append_left _ hb)⟩,
      fun b hb => hone b (mem_append_right _ hb)⟩
  · rintro ⟨hactive, hdone⟩
    obtain ⟨groups, hg⟩ := hgroups.mpr fun ha b hb hb' => by
      rcases mem_append.mp hb with hb | hb
      · exact (hactive b hb).2 ha hb'
      · exact hdone b hb ha hb'
    refine passes_seq.mpr ⟨hoverlap.mpr fun b hb => (hactive b hb).1, ?_⟩
    refine passes_bind.mpr ⟨s.logicalGroups, by simp [claimIf], ?_⟩
    exact passes_bind.mpr ⟨groups, hg, passes_pure _⟩

theorem passes_activeRow (hs : Tabled [] done s)
    (hlogical : Lists (·.consumerGroup ≠ []) logical (·.consumerGroup) done s.logicalGroups)
    (a : RouteBinding) :
    Passes (resolveRow true s a) ↔ True ∧ ∀ b ∈ done, OneGroup b a ∧ OneSubscription b a := by
  have hgroups := hs.listed.passes "consumer group collision" a
  have hoverlap := passes_refuseOverlap hs.toResolved a
  have hlogical := hlogical.passes "logical subscription mixes consumer group schemes" a
  simp only [resolveRow, and_true, true_and]
  constructor
  · intro h b hb
    obtain ⟨-, h⟩ := passes_seq.mp h
    obtain ⟨_, hl, h⟩ := passes_bind.mp h
    obtain ⟨groups, hg, -⟩ := passes_bind.mp h
    exact ⟨fun ha hb' => hlogical.mp ⟨_, hl⟩ ha b hb hb', fun ha hb' =>
      hgroups.mp ⟨_, hg⟩ ha b hb hb'⟩
  · intro hall
    obtain ⟨groups, hg⟩ := hgroups.mpr fun ha b hb hb' => (hall b hb).2 ha hb'
    obtain ⟨logicalGroups, hl⟩ := hlogical.mpr fun ha b hb hb' => (hall b hb).1 ha hb'
    refine passes_seq.mpr ⟨hoverlap.mpr (by simp), passes_bind.mpr ⟨logicalGroups, hl, ?_⟩⟩
    exact passes_bind.mpr ⟨groups, hg, passes_pure _⟩

theorem activeRow_logical {a : RouteBinding}
    (hlogical : Lists (·.consumerGroup ≠ []) logical (·.consumerGroup) done s.logicalGroups)
    (h : resolveRow true s a = .ok s') :
    Lists (·.consumerGroup ≠ []) logical (·.consumerGroup) (done ++ [a]) s'.logicalGroups := by
  simp only [resolveRow, and_true] at h
  obtain ⟨_, -, h⟩ := bind_ok h
  obtain ⟨_, hl, h⟩ := bind_ok h
  obtain ⟨_, -, h⟩ := bind_ok h
  cases h
  exact hlogical.claimIf hl

/-- Two lists that may stand beside each other. -/
structure Compatible (active historical : List RouteBinding) : Prop where
  groups : active.Pairwise fun b a => OneGroup b a ∧ OneSubscription b a
  historicalGroups : historical.Pairwise OneSubscription
  apart : ∀ b ∈ active, ∀ a ∈ historical, b.physicalTopic ≠ a.physicalTopic ∧ OneSubscription b a

theorem tabled_nil : Tabled [] [] {} :=
  ⟨⟨by simp, by simp, by simp, by simp, by simp⟩, lists_nil, rfl⟩

theorem tabled_active (h : resolveList true {} active = .ok s) :
    Tabled active [] { s with physical := fun _ => false } := by
  have hs : Tabled [] active s :=
    foldlM_rounds (P := Tabled []) (fun _ _ _ _ hP h => hP.round h) tabled_nil h
  exact ⟨⟨by simpa using hs.recorded_mem, by simpa using hs.recorded_some, by simp, by simp,
    by simpa using hs.groups⟩, by simpa using hs.listed, by simpa using hs.latest⟩

theorem passes_resolveLists (active historical : List RouteBinding) :
    (∃ s t, resolveList true {} active = .ok s ∧ resolveList false s historical = .ok t) ↔
      Compatible active historical := by
  have hactive := foldlM_passes active (f := resolveRow true) (s := {})
    (P := fun done s => Tabled [] done s ∧
      Lists (·.consumerGroup ≠ []) logical (·.consumerGroup) done s.logicalGroups)
    (fun done s a hP => passes_activeRow hP.1 hP.2 a)
    (fun _ _ _ _ hP h => ⟨hP.1.round h, activeRow_logical hP.2 h⟩) ⟨tabled_nil, lists_nil⟩
  have hhistorical : ∀ s, resolveList true {} active = .ok s →
      (Passes (resolveList false s historical) ↔
        (∀ a ∈ historical, ∀ b ∈ active, b.physicalTopic ≠ a.physicalTopic ∧ OneSubscription b a) ∧
          historical.Pairwise OneSubscription) := fun s hs =>
    foldlM_passes historical (P := Tabled active) (fun done s a hP => passes_historicalRow hP a)
      (fun _ _ _ _ hP h => hP.round h) (tabled_active hs)
  constructor
  · rintro ⟨s, t, hs, ht⟩
    obtain ⟨hapart, hpair⟩ := (hhistorical s hs).mp ⟨t, ht⟩
    exact ⟨(hactive.mp ⟨s, hs⟩).2, hpair, fun b hb a ha => hapart a ha b hb⟩
  · rintro ⟨hpair, hpair', hapart⟩
    obtain ⟨s, hs⟩ := hactive.mpr ⟨fun _ _ => trivial, hpair⟩
    obtain ⟨t, ht⟩ := (hhistorical s hs).mpr ⟨fun a ha b hb => hapart b hb a ha, hpair'⟩
    exact ⟨s, t, hs, ht⟩

/-- What both resolvers check of two lists of rows. -/
structure Manifest (sha256 : Bytes → Bytes) (active historical : List RouteBinding) : Prop
    extends Compatible active historical where
  nonempty : active ≠ []
  named : ∀ r ∈ active ++ historical, Named sha256 r
  rows : active.Pairwise Apart
  historicalRows : historical.Pairwise Apart

theorem newRouteResolver_ok_iff {sha256 : Bytes → Bytes} {historical : List RouteBinding}
    {r : RouteResolver} :
    newRouteResolver sha256 active historical = .ok r ↔
      Manifest sha256 active historical ∧ r = ⟨active, latest (active ++ historical)⟩ := by
  have hrouted : Passes (if historical ≠ [] then validateRoutes sha256 historical else .ok ()) ↔
      (∀ r ∈ historical, Named sha256 r) ∧ historical.Pairwise Apart := by
    by_cases hnil : historical = []
    · subst hnil
      simp
    · rw [if_pos hnil, passes_validateRoutes]
      simp [hnil]
  constructor
  · intro h
    obtain ⟨u, hactive, h⟩ := bind_ok h
    obtain ⟨u', hhistorical, h⟩ := bind_ok h
    obtain ⟨s, hs, h⟩ := bind_ok h
    obtain ⟨t, ht, h⟩ := bind_ok h
    cases h
    obtain ⟨hne, hnamed, hrows⟩ := (passes_validateRoutes sha256 active).mp ⟨u, hactive⟩
    obtain ⟨hnamed', hrows'⟩ := hrouted.mp ⟨u', hhistorical⟩
    have hcompatible := (passes_resolveLists active historical).mp ⟨s, t, hs, ht⟩
    have hlatest := (foldlM_rounds (P := Tabled active) (fun _ _ _ _ hP h => hP.round h)
      (tabled_active hs) ht).latest
    refine ⟨{ hcompatible with
      nonempty := hne, named := ?_, rows := hrows, historicalRows := hrows' }, by rw [hlatest]⟩
    intro r hr
    rcases mem_append.mp hr with hr | hr
    · exact hnamed r hr
    · exact hnamed' r hr
  · rintro ⟨hm, rfl⟩
    obtain ⟨s, t, hs, ht⟩ := (passes_resolveLists active historical).mpr hm.toCompatible
    obtain ⟨u, hactive⟩ := (passes_validateRoutes sha256 active).mpr
      ⟨hm.nonempty, fun r hr => hm.named r (mem_append_left _ hr), hm.rows⟩
    obtain ⟨u', hhistorical⟩ := hrouted.mpr
      ⟨fun r hr => hm.named r (mem_append_right _ hr), hm.historicalRows⟩
    have hlatest := (foldlM_rounds (P := Tabled active) (fun _ _ _ _ hP h => hP.round h)
      (tabled_active hs) ht).latest
    rw [newRouteResolver, hactive, hhistorical, hs]
    simp [bind, Except.bind, ht, pure, Except.pure, hlatest]

/-! ## The Python resolver -/

def pythonLatest (rows : List Python.RouteBinding) (p : String) : Option Python.RouteBinding :=
  rows.reverse.find? (·.physicalTopic = p)

theorem pythonLatest_append (rows : List Python.RouteBinding) (row : Python.RouteBinding) :
    pythonLatest (rows ++ [row]) =
      Function.update (pythonLatest rows) row.physicalTopic (some row) := by
  funext p
  rw [pythonLatest, reverse_append, reverse_singleton, singleton_append, List.find?_cons]
  by_cases hp : row.physicalTopic = p
  · subst hp
    simp
  · simp [hp, update_of_ne (Ne.symm hp), pythonLatest]

theorem latest_encode (rows : List Python.RouteBinding) (p : String) :
    latest (rows.map encodeBinding) (utf8 p) = (pythonLatest rows p).map encodeBinding := by
  rw [latest, ← map_reverse, List.find?_map, pythonLatest]
  simp [comp_def, encodeBinding, utf8_inj]

/-- The tables of the second loop after the rows done. -/
structure Recorded (done : List Python.RouteBinding) (s : Python.Recording) : Prop where
  latest : s.recorded = pythonLatest done
  keys : ∀ b ∈ done, ∀ old, s.recorded b.physicalTopic = some old →
    Python.keyFor old = Python.keyFor b
  groups : Lists (·.consumerGroup ≠ "") (·.consumerGroup) (fun r => (r.topic, r.subscription)) done
    s.groups

theorem oneSubscription_encode (b a : Python.RouteBinding) :
    OneSubscription (encodeBinding b) (encodeBinding a) ↔ (a.consumerGroup ≠ "" →
      b.consumerGroup ≠ "" → b.consumerGroup = a.consumerGroup →
        (b.topic, b.subscription) = (a.topic, a.subscription)) := by
  simp [OneSubscription, logical, encodeBinding, utf8_inj, utf8_eq_nil]

theorem oneGroup_encode (b a : Python.RouteBinding) :
    OneGroup (encodeBinding b) (encodeBinding a) ↔ (a.consumerGroup ≠ "" →
      b.consumerGroup ≠ "" → (b.topic, b.subscription) = (a.topic, a.subscription) →
        b.consumerGroup = a.consumerGroup) := by
  simp [OneGroup, logical, encodeBinding, utf8_inj, utf8_eq_nil]

theorem passes_recordRow {done : List Python.RouteBinding} {s : Python.Recording}
    (hs : Recorded done s) (a : Python.RouteBinding) :
    Passes (Python.recordRow s a) ↔ True ∧ ∀ b ∈ done,
      (b.physicalTopic = a.physicalTopic → Python.keyFor b = Python.keyFor a) ∧
        OneSubscription (encodeBinding b) (encodeBinding a) := by
  have hgroups := hs.groups.passes "consumer group collision" a
  simp only [Python.recordRow, setdefaultIf_eq, true_and, oneSubscription_encode]
  constructor
  · intro h b hb
    obtain ⟨hkey, h⟩ := passes_seq.mp h
    obtain ⟨groups, hg, -⟩ := passes_bind.mp h
    rw [passes_refuseIf] at hkey
    refine ⟨fun htopic => ?_, fun ha hb' => hgroups.mp ⟨_, hg⟩ ha b hb hb'⟩
    cases hfound : s.recorded a.physicalTopic with
    | none =>
      rw [hs.latest, pythonLatest, List.find?_eq_none] at hfound
      exact absurd (decide_eq_true htopic) (hfound b (mem_reverse.mpr hb))
    | some old =>
      have hsame := hs.keys b hb old (htopic ▸ hfound)
      by_contra hne
      exact hkey ⟨old, hfound, fun heq => hne (hsame.symm.trans heq)⟩
  · intro hall
    obtain ⟨groups, hg⟩ := hgroups.mpr fun ha b hb hb' => (hall b hb).2 ha hb'
    refine passes_seq.mpr ⟨?_, passes_bind.mpr ⟨groups, hg, passes_pure _⟩⟩
    rw [passes_refuseIf]
    rintro ⟨old, hold, hne⟩
    rw [Option.mem_def, hs.latest] at hold
    have hmem := mem_reverse.mp (mem_of_find?_eq_some hold)
    have htopic : decide (old.physicalTopic = a.physicalTopic) = true :=
      List.find?_some (p := fun r : Python.RouteBinding => r.physicalTopic = a.physicalTopic) hold
    exact hne ((hall old hmem).1 (of_decide_eq_true htopic))

theorem Recorded.round {done : List Python.RouteBinding} {s s' : Python.Recording}
    (hs : Recorded done s) (h : Python.recordRow s a = .ok s') : Recorded (done ++ [a]) s' := by
  have hpass := (passes_recordRow hs a).mp ⟨s', h⟩
  simp only [Python.recordRow, setdefaultIf_eq] at h
  obtain ⟨_, -, h⟩ := bind_ok h
  obtain ⟨groups, hg, h⟩ := bind_ok h
  cases h
  refine ⟨by rw [hs.latest, pythonLatest_append], fun b hb old hold => ?_, hs.groups.claimIf hg⟩
  simp only at hold
  by_cases htopic : b.physicalTopic = a.physicalTopic
  · rw [htopic, update_self] at hold
    cases hold
    rcases mem_append.mp hb with hb | hb
    · exact ((hpass.2 b hb).1 htopic).symm
    · rw [mem_singleton.mp hb]
  · rw [update_of_ne htopic] at hold
    rcases mem_append.mp hb with hb | hb
    · exact hs.keys b hb old hold
    · exact absurd (congrArg _ (mem_singleton.mp hb)) htopic

theorem passes_groupLoop (active : List Python.RouteBinding) :
    Passes (active.foldlM Python.groupRow fun _ => none) ↔
      active.Pairwise fun b a => OneGroup (encodeBinding b) (encodeBinding a) := by
  have hloop := foldlM_passes active (f := Python.groupRow) (s := fun _ => none)
    (V := fun _ => True) (R := fun b a => OneGroup (encodeBinding b) (encodeBinding a))
    (P := Lists (·.consumerGroup ≠ "") (fun r => (r.topic, r.subscription)) (·.consumerGroup))
    (fun done m a hm => by
      simp only [Python.groupRow, setdefaultIf_eq, true_and, oneGroup_encode]
      rw [hm.passes]
      exact ⟨fun h b hb ha hb' => h ha b hb hb', fun h ha b hb hb' => h b hb ha hb'⟩)
    (fun done m a m' hm h => by
      rw [Python.groupRow, setdefaultIf_eq] at h
      exact hm.claimIf h)
    lists_nil
  exact hloop.trans ⟨fun h => h.2, fun h => ⟨fun _ _ => trivial, h⟩⟩

theorem mapM_new_ok_iff {sha256 : Bytes → Bytes} {made : List Python.RouteBinding} :
    rows.mapM (Python.RouteBinding.new sha256) = .ok made ↔
      made = rows ∧ ∀ r ∈ rows.map encodeBinding, Named sha256 r := by
  simp only [forall_mem_map, ← passes_new]
  rcases passes_mapM_self (f := Python.RouteBinding.new sha256) (fun _ _ => new_eq) rows with
    ⟨hrows, hall⟩ | ⟨hrows, hall⟩
  · rw [hrows, Except.ok.injEq]
    exact ⟨fun h => ⟨h.symm, hall⟩, fun h => h.1.symm⟩
  · exact iff_of_false (fun h => hrows ⟨_, h⟩) fun h => hall h.2

theorem passes_pythonHistorical (historical : List Python.RouteBinding) :
    Passes (if historical ≠ [] then Python.validateRoutes historical else .ok ()) ↔
      (historical.map encodeBinding).Pairwise Apart := by
  by_cases hnil : historical = []
  · subst hnil
    simp
  · rw [if_pos hnil, passes_pythonRoutes]
    simp [hnil]

theorem not_overlapping_iff (active historical : List Python.RouteBinding) :
    ¬ ((active.map (·.physicalTopic)).toFinset ∩
        (historical.map (·.physicalTopic)).toFinset).Nonempty ↔
      ∀ b ∈ active, ∀ a ∈ historical, b.physicalTopic ≠ a.physicalTopic := by
  rw [Finset.not_nonempty_iff_eq_empty, ← Finset.disjoint_iff_inter_eq_empty, Finset.disjoint_left]
  simp only [mem_toFinset, mem_map, not_exists, not_and, forall_exists_index, and_imp,
    forall_apply_eq_imp_iff₂, ne_eq]
  exact ⟨fun h b hb a ha heq => h b hb a ha heq.symm, fun h b hb a ha heq => h b hb a ha heq.symm⟩

theorem recorded_nil : Recorded [] {} := ⟨rfl, by simp, lists_nil⟩

theorem recordLoop_latest {s : Python.Recording} (h : rows.foldlM Python.recordRow {} = .ok s) :
    s.recorded = pythonLatest rows :=
  (foldlM_rounds (P := Recorded) (fun _ _ _ _ hs h => hs.round h) recorded_nil h).latest

theorem passes_recordLoop (rows : List Python.RouteBinding) :
    Passes (rows.foldlM Python.recordRow {}) ↔ rows.Pairwise fun b a =>
      (b.physicalTopic = a.physicalTopic → Python.keyFor b = Python.keyFor a) ∧
        OneSubscription (encodeBinding b) (encodeBinding a) := by
  have hloop := foldlM_passes rows (P := Recorded)
    (fun done s a hs => passes_recordRow hs a) (fun _ _ _ _ hs h => hs.round h) recorded_nil
  exact hloop.trans ⟨fun h => h.2, fun h => ⟨fun _ _ => trivial, h⟩⟩

theorem pythonResolver_ok_iff {sha256 : Bytes → Bytes}
    {active historical : List Python.RouteBinding} {r : Python.RouteResolver} :
    Python.newRouteResolver sha256 active historical = .ok r ↔
      Manifest sha256 (active.map encodeBinding) (historical.map encodeBinding) ∧
        r = ⟨active, pythonLatest (active ++ historical)⟩ := by
  constructor
  · intro h
    obtain ⟨active', hactive, hrest⟩ := bind_ok h
    obtain ⟨historical', hhistorical, hinit⟩ := bind_ok hrest
    clear h hrest
    obtain ⟨rfl, hnamed⟩ := mapM_new_ok_iff.mp hactive
    obtain ⟨rfl, hnamed'⟩ := mapM_new_ok_iff.mp hhistorical
    obtain ⟨u, hvalid, h⟩ := bind_ok hinit
    obtain ⟨u', hvalid', h⟩ := bind_ok h
    obtain ⟨u'', hdisjoint, h⟩ := bind_ok h
    obtain ⟨g, hgroups, h⟩ := bind_ok h
    obtain ⟨s, hs, h⟩ := bind_ok h
    cases h
    obtain ⟨hne, hrows⟩ := (passes_pythonRoutes _).mp ⟨u, hvalid⟩
    have hrows' := (passes_pythonHistorical _).mp ⟨u', hvalid'⟩
    have happart := (not_overlapping_iff _ _).mp (refuseIf_ok hdisjoint)
    have hgrouped := (passes_groupLoop _).mp ⟨g, hgroups⟩
    obtain ⟨hpair, hpair', hacross⟩ :=
      pairwise_append.mp ((passes_recordLoop _).mp ⟨s, hs⟩)
    refine ⟨⟨⟨?_, ?_, ?_⟩, by simpa using hne, ?_, hrows, hrows'⟩, by rw [recordLoop_latest hs]⟩
    · rw [pairwise_map]
      exact hgrouped.imp₂ (fun _ _ hg hr => ⟨hg, hr.2⟩) hpair
    · rw [pairwise_map]
      exact hpair'.imp fun hr => hr.2
    · simp only [forall_mem_map]
      intro b hb a ha
      exact ⟨fun heq => happart b hb a ha (utf8_inj.mp heq), (hacross b hb a ha).2⟩
    · rw [← map_append]
      simp only [forall_mem_map, forall_mem_append] at hnamed hnamed' ⊢
      exact ⟨hnamed, hnamed'⟩
  · rintro ⟨hm, rfl⟩
    have hnamed := hm.named
    simp only [forall_mem_append] at hnamed
    have hactive : active.mapM (Python.RouteBinding.new sha256) = .ok active :=
      mapM_new_ok_iff.mpr ⟨rfl, hnamed.1⟩
    have hhistorical : historical.mapM (Python.RouteBinding.new sha256) = .ok historical :=
      mapM_new_ok_iff.mpr ⟨rfl, hnamed.2⟩
    obtain ⟨u, hvalid⟩ := (passes_pythonRoutes active).mpr ⟨by simpa using hm.nonempty, hm.rows⟩
    obtain ⟨u', hvalid'⟩ := (passes_pythonHistorical _).mpr hm.historicalRows
    have happart : ∀ b ∈ active, ∀ a ∈ historical, b.physicalTopic ≠ a.physicalTopic := by
      intro b hb a ha heq
      exact (hm.apart _ (mem_map_of_mem hb) _ (mem_map_of_mem ha)).1 (congrArg utf8 heq)
    have hgroups := hm.groups
    have hgroups' := hm.historicalGroups
    have hrows := hm.rows
    have hrows' := hm.historicalRows
    rw [pairwise_map] at hgroups hgroups' hrows hrows'
    obtain ⟨g, hg⟩ := (passes_groupLoop active).mpr (hgroups.imp fun h => h.1)
    obtain ⟨s, hs⟩ := (passes_recordLoop (active ++ historical)).mpr (pairwise_append.mpr
      ⟨hgroups.imp₂ (fun _ _ hg hr => ⟨((apart_encode _ _).mp hr).2.1, hg.2⟩) hrows,
        hgroups'.imp₂ (fun _ _ hg hr => ⟨((apart_encode _ _).mp hr).2.1, hg⟩) hrows',
        fun b hb a ha => ⟨fun heq => absurd heq (happart b hb a ha),
          (hm.apart _ (mem_map_of_mem hb) _ (mem_map_of_mem ha)).2⟩⟩)
    have hdisjoint : refuseIf (((active.map (·.physicalTopic)).toFinset ∩
        (historical.map (·.physicalTopic)).toFinset).Nonempty)
        "active/historical resource overlap" = .ok () :=
          if_neg ((not_overlapping_iff _ _).mpr happart)
    rw [Python.newRouteResolver, hactive, hhistorical]
    simp [bind, Except.bind, Python.RouteResolver.init, hvalid, hvalid', hdisjoint, hg, hs, pure,
      Except.pure, recordLoop_latest hs]

/-- The Go resolver and the Python one are made of the same lists, and then answer alike: with the
same rows, in the same order, or both with an error. -/
theorem resolvers_agree (sha256 : Bytes → Bytes) (active historical : List Python.RouteBinding) :
    ((∃ r, newRouteResolver sha256 (active.map encodeBinding) (historical.map encodeBinding) =
        .ok r) ↔
      ∃ r, Python.newRouteResolver sha256 active historical = .ok r) ∧
    ∀ r r', newRouteResolver sha256 (active.map encodeBinding) (historical.map encodeBinding) =
        .ok r →
      Python.newRouteResolver sha256 active historical = .ok r' →
      (∀ key, (r.publishRoute (encodeKey key)).toOption =
        (r'.publishRoute key).toOption.map encodeBinding) ∧
      (∀ key physical, (r.recordedRoute (encodeKey key) (utf8 physical)).toOption =
        (r'.recordedRoute key physical).toOption.map encodeBinding) ∧
      ∀ topic subscription, (r.subscriptionRoutes (utf8 topic) (utf8 subscription)).toOption =
        (r'.subscriptionRoutes topic subscription).toOption.map (List.map encodeBinding) := by
  have hkeys : ∀ (row : Python.RouteBinding) key,
      keyFor (encodeBinding row) = encodeKey key ↔ Python.keyFor row = key := by
    intro row key
    rw [keyFor_encode, encodeKey_inj]
  constructor
  · simp only [newRouteResolver_ok_iff, pythonResolver_ok_iff, exists_and_left, exists_eq, and_true]
  intro r r' hr hr'
  obtain ⟨-, rfl⟩ := newRouteResolver_ok_iff.mp hr
  obtain ⟨-, rfl⟩ := pythonResolver_ok_iff.mp hr'
  refine ⟨fun key => ?_, fun key physical => ?_, fun topic subscription => ?_⟩
  · simp only [RouteResolver.publishRoute, Python.RouteResolver.publishRoute, List.find?_map,
      comp_def, hkeys]
    cases active.find? fun row => decide (Python.keyFor row = key) <;> rfl
  · simp only [RouteResolver.recordedRoute, Python.RouteResolver.recordedRoute]
    rw [← map_append, latest_encode]
    cases pythonLatest (active ++ historical) physical with
    | none => rfl
    | some row =>
      by_cases hkey : Python.keyFor row = key
      · simp [hkeys, hkey, Except.toOption]
      · simp [hkeys, hkey, Except.toOption]
  · have hfilter : (active.map encodeBinding).filter (fun row => row.topic = utf8 topic &&
        row.subscription = utf8 subscription && row.consumerGroup ≠ []) =
        (active.filter fun row => (row.topic, row.subscription) = (topic, subscription) &&
          row.consumerGroup ≠ "").map encodeBinding := by
      rw [filter_map]
      congr 1
      refine filter_congr fun row _ => ?_
      simp [encodeBinding, utf8_inj, utf8_eq_nil]
    simp only [RouteResolver.subscriptionRoutes, Python.RouteResolver.subscriptionRoutes, hfilter,
      map_eq_nil_iff]
    split <;> rfl

end ReliableMessaging.Transport
