import ReliableMessaging.Wire.Envelopes

/-!
# What the package's own decoder makes of an envelope

`Encode` hashes the strings as they are, and `encoding/json` writes them with
every byte that is no UTF-8 replaced. So an envelope comes back as it went in
exactly if its identity and its metadata are valid UTF-8
(`envelope_round_trips_iff`); otherwise its reader finds another identity or
other metadata, and with revision 2 a checksum that does not fit.
-/

namespace ReliableMessaging.Legacy

open List Option Json

open Json (Text Value Reads FieldsRead goString goEscape coerce validString)
open Wire (envelopeType failedEnvelopeType)

/-! ## What the texts are read as -/

/-- A map as it is read: its entries in the order of the keys. -/
def mapFields (m : StringMap) : List (String × Value) :=
  m.listing.map fun e => (coerce e.1, .string (coerce e.2))

theorem reads_mapText (m : StringMap) : Reads (mapText m) (.object (mapFields m)) := by
  refine reads_objectText (forall₂_map_left_iff.mpr (forall₂_map_right_iff.mpr
    (forall₂_same.mpr fun e _ => ⟨?_, ?_⟩)))
  · exact readsString_goString e.1
  · exact (readsString_goString e.2).reads

theorem reads_quote (s : String) : Reads (quote goEscape s) (.string s) :=
  (readsString_quote standard_go s).reads

theorem reads_goString (b : Bytes) : Reads (goString b) (.string (coerce b)) :=
  (readsString_goString b).reads

theorem reads_integer (n : Int) : Reads (integerText n) (.integer n) := by
  have hread : Reads (render goEscape (.integer n)) (.integer n) :=
    reads_render standard_go trivial
  exact hread

theorem reads_payloadText (payload : Bytes) :
    Reads (payloadText payload) (Wire.payloadValue payload) := by
  refine reads_render standard_go ?_
  unfold Wire.payloadValue
  split <;> trivial

variable {name : String} {text : Text} {v : Value} {m : StringMap} {value : FailedHandoff}
variable {body : Bytes}

theorem fieldsRead_omitEmpty {empty : Bool} (h : Reads text v) :
    FieldsRead (omitEmpty empty name text) (Wire.omitEmpty empty name v) := by
  cases empty with
  | true => exact .nil
  | false => exact .cons ⟨rfl, h⟩ .nil

theorem fieldsRead_cons {fields : List (String × Text)} {values : List (String × Value)}
    (h : Reads text v) (hrest : FieldsRead fields values) :
    FieldsRead ((name, text) :: fields) ((name, v) :: values) :=
  .cons ⟨rfl, h⟩ hrest

def envelopeFields (H : Sha256) (value : Envelope) (revision : Nat) : List (String × Value) :=
  let sum := checksum H value.uuid value.metadata value.payload
  [("type", .string envelopeType)] ++
    Wire.omitEmpty (revision ≠ 2) "schema_revision" (.integer 2) ++
    Wire.omitEmpty (value.uuid = []) "uuid" (.string (coerce value.uuid)) ++
    Wire.omitEmpty value.metadata.entries.isEmpty "metadata" (.object (mapFields value.metadata)) ++
    [("payload", Wire.payloadValue value.payload)] ++
    Wire.omitEmpty (revision ≠ 2 ∨ sum = "") "checksum" (.string sum)

theorem read_envelopeText (H : Sha256) (value : Envelope) (revision : Nat) :
    read (envelopeText H value revision) =
      some (.object (envelopeFields H value revision)) := by
  refine (reads_object standard_go ?_).read
  refine rel_append (rel_append (rel_append (rel_append (rel_append ?_ ?_)
    ?_) ?_) ?_) ?_
  · exact fieldsRead_cons (reads_quote _) .nil
  · exact fieldsRead_omitEmpty (reads_integer 2)
  · exact fieldsRead_omitEmpty (reads_goString _)
  · exact fieldsRead_omitEmpty (reads_mapText _)
  · exact fieldsRead_cons (reads_payloadText _) .nil
  · exact fieldsRead_omitEmpty (reads_quote _)

/-! ## Filling the structs -/

@[simp] theorem coerce_nil : coerce [] = "" := coerce_eq_empty.mpr rfl

theorem names_omitEmpty (empty : Bool) (name : String) (v : Value) :
    ((Wire.omitEmpty empty name v).map Prod.fst).Sublist [name] := by
  cases empty
  · exact List.Sublist.refl _
  · exact nil_sublist _

theorem plain_of_sublist {names : List String} {fields : List (String × Value)}
    (hnames : names.Nodup) (h : (fields.map Prod.fst).Sublist names) :
    plain names (.object fields) = some fields :=
  if_pos ⟨hnames.sublist h, h.subset⟩

theorem lookup_field (name other : String) (v : Value) (fields : List (String × Value)) :
    ((name, v) :: fields).lookup other = if other = name then some v else fields.lookup other := by
  rw [lookup_cons]
  by_cases h : other = name
  · simp [h]
  · simp [h, beq_false_of_ne h]

theorem lookup_omitEmpty (empty : Bool) (name other : String) (v : Value) :
    (Wire.omitEmpty empty name v).lookup other =
      if other = name then (if empty then none else some v) else none := by
  cases empty <;> simp [Wire.omitEmpty, lookup_field]

theorem byteSlice_payloadValue (payload : Bytes) :
    byteSlice (Wire.payloadValue payload) = some payload := by
  unfold Wire.payloadValue
  split
  next hempty =>
    rw [isEmpty_iff.mp hempty]
    rfl
  · rw [byteSlice, String.toList_ofList]
    exact base64Bytes_base64Chars payload

def coerceMap (m : StringMap) : Map String String :=
  .ofList (m.listing.map fun e => (coerce e.1, coerce e.2))

theorem textEntries_texts (entries : List (String × String)) :
    textEntries (entries.map fun e => (e.1, .string e.2)) = some entries := by
  induction entries with
  | nil => rfl
  | cons e entries ih => rw [map_cons, textEntries, ih, map_some]

theorem texts_mapFields (m : StringMap) : texts (.object (mapFields m)) = some (coerceMap m) := by
  have hfields : mapFields m =
      (m.listing.map fun e => (coerce e.1, coerce e.2)).map fun e => (e.1, .string e.2) := by
    simp [mapFields]
  rw [texts, hfields, textEntries_texts, map_some, coerceMap]

theorem coerceMap_of_empty (h : m.entries.isEmpty = true) : coerceMap m = .empty := by
  have hempty : m = .empty := Map.ext_entries (isEmpty_iff.mp h)
  rw [hempty, coerceMap, Map.listing_empty]
  rfl

def encodedEnvelope (H : Sha256) (value : Envelope) (revision : Nat) : EncodedEnvelope where
  type := envelopeType
  schemaRevision := if revision = 2 then 2 else 0
  uuid := coerce value.uuid
  metadata := coerceMap value.metadata
  payload := value.payload
  checksum := if revision = 2 then checksum H value.uuid value.metadata value.payload else ""

theorem plain_envelopeFields (H : Sha256) (value : Envelope) (revision : Nat) :
    plain envelopeNames (.object (envelopeFields H value revision)) =
      some (envelopeFields H value revision) := by
  refine plain_of_sublist (by decide) ?_
  simp only [envelopeFields, map_append]
  exact (((((List.Sublist.refl _).append (names_omitEmpty _ _ _)).append
    (names_omitEmpty _ _ _)).append (names_omitEmpty _ _ _)).append (List.Sublist.refl _)).append
      (names_omitEmpty _ _ _)

theorem fillEnvelope_envelopeFields (H : Sha256) (value : Envelope) (revision : Nat) :
    fillEnvelope (.object (envelopeFields H value revision)) =
      some (encodedEnvelope H value revision) := by
  have htype : member (envelopeFields H value revision) "type" Value.text "" =
      some envelopeType := rfl
  have hrevision : member (envelopeFields H value revision) "schema_revision" int64 0 =
      some (if revision = 2 then 2 else 0) := by
    by_cases h : revision = 2 <;>
      simp [member, envelopeFields, lookup_append, lookup_omitEmpty, lookup_field, h, int64]
  have huuid : member (envelopeFields H value revision) "uuid" Value.text "" =
      some (coerce value.uuid) := by
    by_cases h : value.uuid = [] <;>
      simp [member, envelopeFields, lookup_append, lookup_omitEmpty, lookup_field, h, Value.text]
  have hmetadata : member (envelopeFields H value revision) "metadata" texts .empty =
      some (coerceMap value.metadata) := by
    cases h : value.metadata.entries.isEmpty <;>
      simp [member, envelopeFields, lookup_append, lookup_omitEmpty, lookup_field, h,
        texts_mapFields, coerceMap_of_empty]
  have hpayload : member (envelopeFields H value revision) "payload" byteSlice [] =
      some value.payload := by
    simp [member, envelopeFields, lookup_append, lookup_omitEmpty, lookup_field,
      byteSlice_payloadValue]
  have hchecksum : member (envelopeFields H value revision) "checksum" Value.text "" =
      some (if revision = 2 then checksum H value.uuid value.metadata value.payload else "") := by
    by_cases h : revision = 2 <;>
      by_cases hsum : checksum H value.uuid value.metadata value.payload = "" <;>
      simp [member, envelopeFields, lookup_append, lookup_omitEmpty, lookup_field, h, hsum,
        Value.text]
  rw [fillEnvelope, plain_envelopeFields, bind_some, envelopeOf]
  generalize envelopeFields H value revision = fields at *
  rw [htype, hrevision, huuid, hmetadata, hpayload, hchecksum]
  rfl

theorem fillProbe_envelopeFields (H : Sha256) (value : Envelope) (revision : Nat) :
    fillProbe (.object (envelopeFields H value revision)) = some ⟨envelopeType⟩ := by
  have htype : member (envelopeFields H value revision) "type" Value.text "" =
      some envelopeType := rfl
  rw [fillProbe, plain_envelopeFields, bind_some, htype]
  rfl

/-! ## The round trip -/

theorem decode_envelopeText (U : Unmarshaling) (H : Sha256) (value : Envelope) (revision : Nat) :
    decode U H (bytes (envelopeText H value revision)) =
      ((encodedEnvelope H value revision).value, true,
        decodeEncoded H (encodedEnvelope H value revision)) := by
  have hprobe := U.probe.standard (read_envelopeText H value revision)
    (fillProbe_envelopeFields H value revision)
  have hencoded := U.envelope.standard (read_envelopeText H value revision)
    (fillEnvelope_envelopeFields H value revision)
  simp [decode, hprobe, hencoded]

/-- The same envelope, with its metadata met in any order. -/
def Envelope.Same (v w : Envelope) : Prop :=
  v.uuid = w.uuid ∧ v.metadata.Same w.metadata ∧ v.payload = w.payload

/-- Identity and metadata are valid UTF-8. -/
def Envelope.Valid (v : Envelope) : Prop :=
  validString v.uuid = true ∧
    ∀ e ∈ v.metadata.entries, validString e.1 = true ∧ validString e.2 = true

theorem ofTexts_coerceMap (h : ∀ e ∈ m.entries, validString e.1 = true ∧ validString e.2 = true) :
    (ofTexts (coerceMap m)).Same m := by
  have hkept : ∀ e ∈ m.listing, (utf8 (coerce e.1), utf8 (coerce e.2)) = e := by
    intro e he
    obtain ⟨hkey, hvalue⟩ := h e (m.listing_perm.mem_iff.mp he)
    rw [utf8_coerce_iff.mpr hkey, utf8_coerce_iff.mpr hvalue]
  have hback : (m.listing.map fun e => (coerce e.1, coerce e.2)).map
      (fun e => (utf8 e.1, utf8 e.2)) = m.listing := by
    rw [List.map_map]
    exact (map_congr_left hkept).trans (map_id _)
  have hdistinct : ((m.listing.map fun e => (coerce e.1, coerce e.2)).map Prod.fst).Nodup := by
    refine List.Nodup.of_map utf8 ?_
    have hkeys : ((m.listing.map fun e => (coerce e.1, coerce e.2)).map Prod.fst).map utf8 =
        m.listing.map Prod.fst := by
      rw [← congrArg (List.map Prod.fst) hback]
      simp
    rw [hkeys]
    exact (m.listing_perm.map Prod.fst).nodup_iff.mpr m.distinct
  have hentries : (ofTexts (coerceMap m)).entries = m.listing := by
    rw [← hback]
    exact congrArg (List.map _) (Map.ofList_of_distinct hdistinct)
  exact (List.Perm.of_eq hentries).trans m.listing_perm

theorem valid_of_ofTexts {t : Map String String} (h : (ofTexts t).Same m) :
    ∀ e ∈ m.entries, validString e.1 = true ∧ validString e.2 = true := by
  intro e he
  obtain ⟨e', -, rfl⟩ := mem_map.mp (h.mem_iff.mpr he)
  exact ⟨validString_iff.mpr ⟨_, rfl⟩, validString_iff.mpr ⟨_, rfl⟩⟩

theorem encodedEnvelope_same_iff (H : Sha256) (v : Envelope) (revision : Nat) :
    (encodedEnvelope H v revision).value.Same v ↔ v.Valid := by
  constructor
  · rintro ⟨huuid, hmetadata, -⟩
    exact ⟨utf8_coerce_iff.mp huuid, valid_of_ofTexts hmetadata⟩
  · rintro ⟨huuid, hmetadata⟩
    exact ⟨utf8_coerce_iff.mpr huuid, ofTexts_coerceMap hmetadata, rfl⟩

theorem checksum_congr (H : Sha256) {v w : Envelope} (h : v.Same w) :
    checksum H v.uuid v.metadata v.payload = checksum H w.uuid w.metadata w.payload := by
  obtain ⟨huuid, hmetadata, hpayload⟩ := h
  rw [checksum, checksum, checksumPreimage, checksumPreimage, huuid, hpayload,
    Map.listing_eq_iff.mpr hmetadata]

theorem checksum_ne_empty (H : Sha256) (uuid : Bytes) (m : StringMap) (payload : Bytes) :
    checksum H uuid m payload ≠ "" := by
  intro hempty
  have hchars := congrArg String.toList hempty
  rw [checksum, String.toList_ofList] at hchars
  obtain ⟨b, rest, hsum⟩ := exists_cons_of_ne_nil
    (H.sum_ne_nil (checksumPreimage uuid m payload))
  rw [hsum] at hchars
  cases hchars

theorem checksumPreimage_of_checksum {H : Sha256} [H.CollisionFree] {uuid uuid' : Bytes}
    {m' : StringMap} {payload payload' : Bytes}
    (h : checksum H uuid m payload = checksum H uuid' m' payload') :
    checksumPreimage uuid m payload = checksumPreimage uuid' m' payload' := by
  have hhex := congrArg hexBytes (String.ofList_injective h)
  rw [hexBytes_hexChars, hexBytes_hexChars] at hhex
  exact H.sum_injective (Option.some.inj hhex)

theorem decodeEncoded_of_valid (H : Sha256) {v : Envelope} (h : v.Valid) (revision : Nat) :
    decodeEncoded H (encodedEnvelope H v revision) = none := by
  have hsum := checksum_congr H ((encodedEnvelope_same_iff H v revision).mpr h)
  have hne := checksum_ne_empty H v.uuid v.metadata v.payload
  simp only [decodeEncoded, hsum]
  by_cases hrevision : revision = 2
  · simp [encodedEnvelope, hrevision, hne]
  · simp [encodedEnvelope, hrevision]

/-- What `Encode` writes comes back as it went in, recognized and without an error, exactly if the
identity and the metadata are valid UTF-8. -/
theorem envelope_round_trips_iff (U : Unmarshaling) (H : Sha256) (v : Envelope) (revision : Nat)
    (h : revision = 1 ∨ revision = 2) :
    ∃ body, encode H v revision = .ok body ∧
      ((∃ w, decode U H body = (w, true, none) ∧ w.Same v) ↔ v.Valid) := by
  refine ⟨_, if_neg (by omega), ?_⟩
  rw [decode_envelopeText]
  constructor
  · rintro ⟨w, hw, hsame⟩
    rw [← (Prod.mk.inj hw).1] at hsame
    exact (encodedEnvelope_same_iff H v revision).mp hsame
  · intro hvalid
    refine ⟨_, ?_, (encodedEnvelope_same_iff H v revision).mpr hvalid⟩
    rw [decodeEncoded_of_valid H hvalid]

def Sample.order : Envelope := ⟨utf8 "7", ⟨[(utf8 "trace", utf8 "9"), ([], [])], by decide⟩, [0, 1]⟩

theorem envelope_round_trips_iff_order :
    ∃ body, encode default Sample.order 2 = .ok body ∧
      ∃ w, decode default default body = (w, true, none) ∧ w.Same Sample.order := by
  obtain ⟨body, hbody, hiff⟩ := envelope_round_trips_iff default default Sample.order 2 (.inr rfl)
  exact ⟨body, hbody, hiff.mpr ⟨by decide, by decide⟩⟩

/-- An identity of one byte that is no UTF-8: with revision 2 its reader reports a checksum
mismatch, with revision 1 it reads another identity. -/
theorem invalid_identity_is_rejected :
    (∃ body, encode default ⟨[255], .empty, [1]⟩ 2 = .ok body ∧
      (decode default default body).2 = (true, some (utf8 "legacy envelope checksum mismatch"))) ∧
    ∃ body, encode default ⟨[255], .empty, [1]⟩ 1 = .ok body ∧
      (decode default default body).1.uuid = utf8 (String.singleton replacement) ∧
      (decode default default body).1.uuid ≠ [255] := by
  have hcoerce : coerce [255] = String.singleton replacement := by
    have hrunes : runes [255] = [none] := by decide
    rw [coerce, hrunes]
    rfl
  have hsize : (utf8 (String.singleton replacement)).length = 3 := by decide
  constructor
  · refine ⟨_, if_neg (by decide), ?_⟩
    rw [decode_envelopeText]
    have hempty : ofTexts (coerceMap .empty) = .empty := congrArg ofTexts (coerceMap_of_empty rfl)
    have hdiffer : checksum default [255] .empty [1] ≠
        checksum default (utf8 (String.singleton replacement)) .empty [1] := by
      intro heq
      have hlength := congrArg List.length (checksumPreimage_of_checksum heq)
      simp [checksumPreimage, length_field, hsize] at hlength
    have hne := checksum_ne_empty default [255] .empty [1]
    simp [decodeEncoded, encodedEnvelope, EncodedEnvelope.value, hempty, hcoerce, hdiffer, hne]
  · refine ⟨_, if_neg (by decide), ?_⟩
    rw [decode_envelopeText]
    have huuid : (encodedEnvelope default ⟨[255], .empty, [1]⟩ 1).value.uuid =
        utf8 (String.singleton replacement) := congrArg utf8 hcoerce
    refine ⟨huuid, fun heq => ?_⟩
    have hlength := congrArg List.length (huuid.symm.trans heq)
    rw [hsize] at hlength
    exact absurd hlength (by decide)

/-! ## Failure records -/

def handoffFields (value : FailedHandoff) : List (String × Value) :=
  [("type", .string failedEnvelopeType), ("provider", .string "nsq"),
    ("topic", .string (coerce value.topic)), ("channel", .string (coerce value.channel)),
    ("uuid", .string (coerce value.uuid))] ++
    Wire.omitEmpty (value.transportMessageId = []) "transport_message_id"
      (.string (coerce value.transportMessageId)) ++
    Wire.omitEmpty value.metadata.entries.isEmpty "metadata" (.object (mapFields value.metadata)) ++
    [("payload", Wire.payloadValue value.payload), ("attempts", .integer value.attempts.toInt)] ++
    Wire.omitEmpty (value.timestamp = 0) "timestamp" (.integer value.timestamp.toInt) ++
    [("cause", .string (coerce value.cause))]

theorem read_handoffText (value : FailedHandoff) :
    read (handoffText value) = some (.object (handoffFields value)) := by
  refine (reads_object standard_go ?_).read
  refine rel_append (rel_append (rel_append (rel_append (rel_append ?_ ?_)
    ?_) ?_) ?_) ?_
  · exact fieldsRead_cons (reads_quote _) (fieldsRead_cons (reads_quote _)
      (fieldsRead_cons (reads_goString _) (fieldsRead_cons (reads_goString _)
        (fieldsRead_cons (reads_goString _) .nil))))
  · exact fieldsRead_omitEmpty (reads_goString _)
  · exact fieldsRead_omitEmpty (reads_mapText _)
  · exact fieldsRead_cons (reads_payloadText _) (fieldsRead_cons (reads_integer _) .nil)
  · exact fieldsRead_omitEmpty (reads_integer _)
  · exact fieldsRead_cons (reads_goString _) .nil

def encodedHandoff (value : FailedHandoff) : EncodedFailedHandoff where
  type := failedEnvelopeType
  provider := "nsq"
  topic := coerce value.topic
  channel := coerce value.channel
  uuid := coerce value.uuid
  transportMessageId := coerce value.transportMessageId
  metadata := coerceMap value.metadata
  payload := value.payload
  attempts := value.attempts
  timestamp := value.timestamp
  cause := coerce value.cause

theorem int64_toInt (n : Int64) : int64 (.integer n.toInt) = some n := by
  rw [int64, if_pos ⟨n.le_toInt, n.toInt_lt⟩, Int64.ofInt_toInt]

theorem plain_handoffFields (value : FailedHandoff) :
    plain handoffNames (.object (handoffFields value)) = some (handoffFields value) := by
  refine plain_of_sublist (by decide) ?_
  simp only [handoffFields, map_append]
  exact (((((List.Sublist.refl _).append (names_omitEmpty _ _ _)).append
    (names_omitEmpty _ _ _)).append (List.Sublist.refl _)).append (names_omitEmpty _ _ _)).append
      (List.Sublist.refl _)

theorem fillHandoff_handoffFields (value : FailedHandoff) :
    fillHandoff (.object (handoffFields value)) = some (encodedHandoff value) := by
  have htype : member (handoffFields value) "type" Value.text "" = some failedEnvelopeType := rfl
  have hprovider : member (handoffFields value) "provider" Value.text "" = some "nsq" := rfl
  have htopic : member (handoffFields value) "topic" Value.text "" = some (coerce value.topic) :=
    rfl
  have hchannel : member (handoffFields value) "channel" Value.text "" =
      some (coerce value.channel) := rfl
  have huuid : member (handoffFields value) "uuid" Value.text "" = some (coerce value.uuid) := rfl
  have htransport : member (handoffFields value) "transport_message_id" Value.text "" =
      some (coerce value.transportMessageId) := by
    by_cases h : value.transportMessageId = [] <;>
      simp [member, handoffFields, lookup_append, lookup_omitEmpty, lookup_field, h, Value.text]
  have hmetadata : member (handoffFields value) "metadata" texts .empty =
      some (coerceMap value.metadata) := by
    cases h : value.metadata.entries.isEmpty <;>
      simp [member, handoffFields, lookup_append, lookup_omitEmpty, lookup_field, h,
        texts_mapFields, coerceMap_of_empty]
  have hpayload : member (handoffFields value) "payload" byteSlice [] = some value.payload := by
    simp [member, handoffFields, lookup_append, lookup_omitEmpty, lookup_field,
      byteSlice_payloadValue]
  have hattempts : member (handoffFields value) "attempts" int64 0 = some value.attempts := by
    simp [member, handoffFields, lookup_append, lookup_omitEmpty, lookup_field, int64_toInt]
  have htimestamp : member (handoffFields value) "timestamp" int64 0 = some value.timestamp := by
    by_cases h : value.timestamp = 0 <;>
      simp [member, handoffFields, lookup_append, lookup_omitEmpty, lookup_field, h, int64_toInt]
  have hcause : member (handoffFields value) "cause" Value.text "" =
      some (coerce value.cause) := by
    simp [member, handoffFields, lookup_append, lookup_omitEmpty, lookup_field, Value.text]
  rw [fillHandoff, plain_handoffFields, bind_some, handoffOf]
  generalize handoffFields value = fields at *
  rw [htype, hprovider, htopic, hchannel, huuid, htransport, hmetadata, hpayload, hattempts,
    htimestamp, hcause]
  rfl

/-- The failure record that is read for this one. -/
def FailedHandoff.coerced (value : FailedHandoff) : FailedHandoff where
  topic := utf8 (coerce value.topic)
  channel := utf8 (coerce value.channel)
  uuid := utf8 (coerce value.uuid)
  transportMessageId := utf8 (coerce value.transportMessageId)
  metadata := ofTexts (coerceMap value.metadata)
  payload := value.payload
  attempts := value.attempts
  timestamp := value.timestamp
  cause := utf8 (coerce value.cause)

theorem encodeFailedHandoff_ok (h : encodeFailedHandoff value = .ok body) :
    value.complete = true ∧ body = bytes (handoffText value) := by
  unfold encodeFailedHandoff at h
  split at h
  next hcomplete => exact ⟨hcomplete, (Except.ok.inj h).symm⟩
  next => cases h

theorem decodeFailedHandoff_encoded (U : Unmarshaling) (h : encodeFailedHandoff value = .ok body) :
    decodeFailedHandoff U body = .ok value.coerced := by
  obtain ⟨hcomplete, hbody⟩ := encodeFailedHandoff_ok h
  have hread := U.handoff.standard (read_handoffText value) (fillHandoff_handoffFields value)
  obtain ⟨htopic, hchannel, huuid, hattempts, hcause⟩ := complete_iff.mp hcomplete
  rw [hbody, decodeFailedHandoff, hread]
  refine if_neg ?_
  rintro (hne | hne | hempty | hempty | hempty | hlt | hempty)
  · exact hne rfl
  · exact hne rfl
  · exact htopic (coerce_eq_empty.mp hempty)
  · exact hchannel (coerce_eq_empty.mp hempty)
  · exact huuid (coerce_eq_empty.mp hempty)
  · exact absurd hlt (Int.not_lt.mpr hattempts)
  · exact hcause (coerce_eq_empty.mp hempty)

end ReliableMessaging.Legacy
