import ReliableMessaging.Encoding.JsonSizes
import ReliableMessaging.Transport.FailureRecords

/-!
# The size budget of an NSQ message

`FitsNSQ` lets a message pass if its wire and one failure record fit: the record
that names the message's own identity and metadata and carries the whole wire.
A record of a delivery that decodes is no longer than that one. A delivery whose
body is not recognized is recorded under its physical id and without metadata,
and its record is the longer one if identity and metadata take less room than
that id (`budget_holds_iff`).
-/

namespace ReliableMessaging.Budget

open List Json

open FailureRecords (Raw failedHandoff receivedOn decoded identified)
open Json (size goString goEscape quote fieldSize memberSize Plain coerce)
open Legacy (Envelope FailedHandoff StringMap Unmarshaling handoffText mapText payloadText)

def nsqMaxBytes : Nat := 262144

def maxMetadataBytes : Nat := 4096

def maxCauseBytes : Nat := 1024

/-- The physical id that is budgeted for. -/
def zeros : Bytes := utf8 "0000000000000000"

def longestCause : Bytes := List.replicate maxCauseBytes 'x'.toUInt8

def worst (value : Envelope) (wire topic channel : Bytes) : FailedHandoff where
  topic := topic
  channel := channel
  uuid := value.uuid
  transportMessageId := zeros
  metadata := value.metadata
  payload := wire
  attempts := 65535
  timestamp := 9223372036854775807
  cause := longestCause

/-- `FitsNSQ`. Metadata that are `nil` are written as `null`, which is within the bound as well. -/
def fitsNSQ (H : Sha256) (value : Envelope) (topic channel : Bytes) : Bool :=
  if maxMetadataBytes < (bytes (mapText value.metadata)).length then false
  else
    match Legacy.encode H value 2 with
    | .error _ => false
    | .ok wire =>
      match Legacy.encodeFailedHandoff (worst value wire topic channel) with
      | .error _ => false
      | .ok handoff => wire.length ≤ nsqMaxBytes && handoff.length ≤ nsqMaxBytes

/-- The wire of revision 2. -/
def wireOf (H : Sha256) (value : Envelope) : Bytes := bytes (Legacy.envelopeText H value 2)

theorem encode_two (H : Sha256) (value : Envelope) :
    Legacy.encode H value 2 = .ok (wireOf H value) := if_neg (by decide)

theorem fitsNSQ_iff {H : Sha256} {value : Envelope} {topic channel : Bytes} :
    fitsNSQ H value topic channel = true ↔
      size (mapText value.metadata) ≤ maxMetadataBytes ∧
      (worst value (wireOf H value) topic channel).complete = true ∧
      (wireOf H value).length ≤ nsqMaxBytes ∧
      size (handoffText (worst value (wireOf H value) topic channel)) ≤ nsqMaxBytes := by
  rw [fitsNSQ, encode_two, length_bytes]
  dsimp only
  by_cases hmetadata : maxMetadataBytes < size (mapText value.metadata)
  · simp [hmetadata, Nat.not_le.mpr hmetadata]
  rw [if_neg hmetadata, Legacy.encodeFailedHandoff]
  by_cases hcomplete : (worst value (wireOf H value) topic channel).complete = true
  · simp [hcomplete, Nat.not_lt.mp hmetadata, length_bytes]
  · simp [hcomplete]

/-! ## How long a failure record is -/

/-- The room that a field takes unless it is left out. -/
def omitSize (empty : Bool) (name : String) (text : Json.Text) : Nat :=
  if empty then 0 else fieldSize name text

theorem sum_omitEmpty (empty : Bool) (name : String) (text : Json.Text) :
    ((Legacy.omitEmpty empty name text).map fun f => fieldSize f.1 f.2).sum =
      omitSize empty name text := by
  cases empty <;> simp [Legacy.omitEmpty, omitSize]

def metadataSize (m : StringMap) : Nat := omitSize m.entries.isEmpty "metadata" (mapText m)

def transportSize (id : Bytes) : Nat := omitSize (id = []) "transport_message_id" (goString id)

def timestampSize (t : Int64) : Nat :=
  omitSize (t = 0) "timestamp" (integerText t.toInt)

theorem size_handoffText (value : FailedHandoff) :
    size (handoffText value) = 1 + (fieldSize "type" (quote goEscape Wire.failedEnvelopeType) +
      fieldSize "provider" (quote goEscape "nsq") + fieldSize "topic" (goString value.topic) +
      fieldSize "channel" (goString value.channel) + fieldSize "uuid" (goString value.uuid) +
      transportSize value.transportMessageId + metadataSize value.metadata +
      fieldSize "payload" (payloadText value.payload) +
      fieldSize "attempts" (integerText value.attempts.toInt) +
      timestampSize value.timestamp + fieldSize "cause" (goString value.cause)) := by
  rw [handoffText, size_object (by simp)]
  simp only [map_append, sum_append, sum_omitEmpty, map_cons, map_nil,
    sum_cons, sum_nil, metadataSize, transportSize, timestampSize]
  omega

theorem size_payloadText (payload : Bytes) :
    size (payloadText payload) =
      if payload.isEmpty then 4 else 2 + 4 * ((payload.length + 2) / 3) := by
  rw [payloadText, Wire.payloadValue]
  split
  · rfl
  · have hplain := base64Chars_plain payload
    rw [render, quote, String.toList_ofList, size_literal_of_plain fun c hc => (hplain c hc).1,
      size_ascii fun c hc => (hplain c hc).2, length_base64Chars]

theorem size_payloadText_mono {payload payload' : Bytes} (h : payload.length ≤ payload'.length) :
    size (payloadText payload) ≤ size (payloadText payload') := by
  rw [size_payloadText, size_payloadText]
  simp only [isEmpty_iff_length_eq_zero]
  split <;> split <;> omega

theorem size_handoffText_le {a b : FailedHandoff} (htopic : a.topic = b.topic)
    (hchannel : a.channel = b.channel)
    (htransport : transportSize a.transportMessageId ≤ transportSize b.transportMessageId)
    (hpayload : a.payload.length ≤ b.payload.length)
    (hattempts : size (integerText a.attempts.toInt) ≤
      size (integerText b.attempts.toInt))
    (htimestamp : timestampSize a.timestamp ≤ timestampSize b.timestamp)
    (hcause : size (goString a.cause) ≤ size (goString b.cause)) :
    size (handoffText a) + (size (goString b.uuid) + metadataSize b.metadata) ≤
      size (handoffText b) + (size (goString a.uuid) + metadataSize a.metadata) := by
  have hpayloads := size_payloadText_mono hpayload
  rw [size_handoffText, size_handoffText, htopic, hchannel]
  simp only [fieldSize, memberSize]
  omega

theorem fieldSize_eq (name : String) (text : Json.Text) :
    fieldSize name text = size (quote goEscape name) + 2 + size text := by
  simp only [fieldSize, memberSize]
  omega

theorem fieldSize_mono {name : String} {text text' : Json.Text} (h : size text ≤ size text') :
    fieldSize name text ≤ fieldSize name text' := by
  simp only [fieldSize, memberSize]
  omega

theorem size_envelopeText (H : Sha256) (value : Envelope) :
    size (Legacy.envelopeText H value 2) =
      1 + (fieldSize "type" (quote goEscape Wire.envelopeType) +
        fieldSize "schema_revision" (integerText 2) +
        omitSize (value.uuid = []) "uuid" (goString value.uuid) + metadataSize value.metadata +
        fieldSize "payload" (payloadText value.payload) +
        fieldSize "checksum" (quote goEscape
          (Legacy.checksum H value.uuid value.metadata value.payload))) := by
  have hsum := Legacy.checksum_ne_empty H value.uuid value.metadata value.payload
  rw [Legacy.envelopeText, size_object (by simp)]
  simp only [map_append, sum_append, sum_omitEmpty, map_cons, map_nil,
    sum_cons, sum_nil, metadataSize]
  simp [omitSize, hsum]

theorem length_payload_le_wire (H : Sha256) (value : Envelope) :
    value.payload.length ≤ (wireOf H value).length := by
  have hpayload := size_payloadText value.payload
  rw [wireOf, length_bytes, size_envelopeText]
  simp only [fieldSize, memberSize, isEmpty_iff_length_eq_zero] at hpayload ⊢
  split at hpayload <;> omega

/-! ## Metadata that were read -/

/-- The room that an entry of a map takes. -/
def entrySize (e : Bytes × Bytes) : Nat := 1 + memberSize (goString e.1, goString e.2)

theorem size_mapText {m : StringMap} (h : m.entries ≠ []) :
    size (mapText m) = 1 + (m.entries.map entrySize).sum := by
  rw [← (m.listing_perm.map entrySize).sum_eq, mapText]
  obtain ⟨e, es, hlisting⟩ := exists_cons_of_ne_nil fun hnil =>
    h (List.Perm.nil_eq (hnil ▸ m.listing_perm)).symm
  have hrest : (es.map fun e => (goString e.1, goString e.2)).map (fun f => 1 + memberSize f) =
      es.map entrySize := by
    rw [map_map]
    rfl
  rw [hlisting, map_cons, size_objectText_cons, hrest, map_cons, sum_cons, entrySize]
  omega

theorem metadataSize_coerce_le (m : StringMap) :
    metadataSize (Legacy.ofTexts (Legacy.coerceMap m)) ≤ metadataSize m := by
  have hsublist : (Legacy.ofTexts (Legacy.coerceMap m)).entries.Sublist
      ((m.listing.map fun e => (coerce e.1, coerce e.2)).map fun e => (utf8 e.1, utf8 e.2)) :=
    (Map.ofList_sublist _).map _
  rw [map_map] at hsublist
  unfold metadataSize omitSize
  split
  · exact Nat.zero_le _
  next hread =>
    have hread : (Legacy.ofTexts (Legacy.coerceMap m)).entries ≠ [] := fun hnil =>
      hread (isEmpty_iff.mpr hnil)
    have hwritten : m.entries ≠ [] := by
      intro hnil
      have hlisting : m.listing = [] := List.Perm.eq_nil (hnil ▸ m.listing_perm)
      rw [hlisting] at hsublist
      exact hread (sublist_nil.mp hsublist)
    rw [if_neg fun hempty => hwritten (isEmpty_iff.mp hempty)]
    refine fieldSize_mono ?_
    rw [size_mapText hread, size_mapText hwritten]
    refine Nat.add_le_add_left ?_ 1
    calc ((Legacy.ofTexts (Legacy.coerceMap m)).entries.map entrySize).sum
        ≤ ((m.listing.map _).map entrySize).sum :=
          (hsublist.map entrySize).sum_le_sum fun _ _ => Nat.zero_le _
      _ ≤ (m.listing.map entrySize).sum := by
          rw [map_map]
          refine sum_le_sum fun e _ => ?_
          have hkey := size_goString_coerce_le e.1
          have hvalue := size_goString_coerce_le e.2
          simp only [Function.comp_def, entrySize, memberSize]
          omega
      _ = (m.entries.map entrySize).sum := (m.listing_perm.map entrySize).sum_eq

/-! ## The records of a delivery -/

theorem plain_longestCause : Plain longestCause := by
  intro b hb
  rw [eq_of_mem_replicate hb]
  decide

theorem size_longestCause : size (goString longestCause) = 2 + maxCauseBytes := by
  rw [size_goString_of_plain plain_longestCause, longestCause, length_replicate]

theorem size_zeros : size (goString zeros) = 18 := by decide

theorem transportSize_le {id : Bytes} (h : size (goString id) = 18) :
    transportSize id ≤ transportSize zeros := by
  have hzeros : transportSize zeros = fieldSize "transport_message_id" (goString zeros) := by
    rw [transportSize, omitSize, if_neg (by decide)]
  rw [hzeros, transportSize, omitSize]
  split
  · exact Nat.zero_le _
  · exact fieldSize_mono (h.trans size_zeros.symm).le

theorem size_integerText_le {n k : Nat} (hk : 0 < k) (h : n < 10 ^ k) :
    size (integerText n) ≤ k := size_decimal_le hk h

theorem timestampSize_le {t : Int64} (h : 0 ≤ t.toInt) :
    timestampSize t ≤ timestampSize 9223372036854775807 := by
  have hlast : timestampSize 9223372036854775807 =
      fieldSize "timestamp" (integerText (9223372036854775807 : Int64).toInt) := by
    rw [timestampSize, omitSize, if_neg (by decide)]
  have hsize : size (integerText (9223372036854775807 : Int64).toInt) = 19 := by decide
  obtain ⟨n, hn⟩ := Int.eq_ofNat_of_zero_le h
  have hlt := t.toInt_lt
  rw [hlast, timestampSize, omitSize]
  split
  · exact Nat.zero_le _
  · refine fieldSize_mono ?_
    rw [hsize, hn]
    exact size_integerText_le (by decide) (by omega)

theorem size_payload {payload : Bytes} (h : payload ≠ []) :
    size (payloadText payload) = 2 + 4 * ((payload.length + 2) / 3) := by
  rw [size_payloadText, if_neg fun hempty => h (isEmpty_iff.mp hempty)]

theorem size_worst (value : Envelope) (topic channel : Bytes) {wire : Bytes} (hwire : wire ≠ []) :
    size (handoffText (worst value wire topic channel)) =
      1229 + size (goString topic) + size (goString channel) + 4 * ((wire.length + 2) / 3) +
        (size (goString value.uuid) + metadataSize value.metadata) := by
  have hnames : fieldSize "type" (quote goEscape Wire.failedEnvelopeType) +
      fieldSize "provider" (quote goEscape "nsq") + transportSize zeros +
      size (quote goEscape "topic") + size (quote goEscape "channel") +
      size (quote goEscape "uuid") + size (quote goEscape "payload") = 134 := by
    decide
  have hnumbers : fieldSize "attempts" (integerText (65535 : Int64).toInt) +
      timestampSize 9223372036854775807 = 49 := by
    decide
  have hcause : fieldSize "cause" (goString longestCause) = 1035 := by
    have hname : size (quote goEscape "cause") = 7 := by decide
    rw [fieldSize_eq, hname, size_longestCause, maxCauseBytes]
  have hsize := size_handoffText (worst value wire topic channel)
  simp only [worst, fieldSize_eq "topic", fieldSize_eq "channel", fieldSize_eq "uuid",
    fieldSize_eq "payload", size_payload hwire] at hsize ⊢
  omega

section Records

variable {U : Unmarshaling} {H : Sha256} {value : Envelope} {topic channel : Bytes} {raw : Raw}

theorem size_record_le (value : Envelope) (topic channel : Bytes) (maxAttempts : UInt16)
    {wire cause : Bytes} (hid : Plain raw.id.toList) (htimestamp : 0 ≤ raw.timestamp.toInt)
      (hcause : Plain cause) (hbounded : cause.length ≤ maxCauseBytes)
    (hpayload : (decoded U H raw).payload.length ≤ wire.length) :
    size (handoffText (failedHandoff topic channel maxAttempts (receivedOn U H topic channel raw)
        cause)) + (size (goString value.uuid) + metadataSize value.metadata) ≤
      size (handoffText (worst value wire topic channel)) +
        (size (goString (decoded U H raw).uuid) + metadataSize (decoded U H raw).metadata) := by
  have hsize : size (goString raw.id.toList) = 18 := by
    rw [size_goString_of_plain hid, Vector.length_toList]
  have hattempts : (Int64.ofNat maxAttempts.toNat).toInt = maxAttempts.toNat := by
    have hlt := maxAttempts.toNat_lt
    exact Int64.toInt_ofNat_of_lt (by omega)
  have hdigits : size (integerText (Int64.ofNat maxAttempts.toNat).toInt) ≤
      size (integerText (65535 : Int64).toInt) := by
    have hlast : size (integerText (65535 : Int64).toInt) = 5 := by decide
    have hlt := maxAttempts.toNat_lt
    rw [hattempts, hlast]
    exact size_integerText_le (by decide) (by omega)
  have hcauses : size (goString cause) ≤ size (goString longestCause) := by
    rw [size_longestCause, size_goString_of_plain hcause]
    exact Nat.add_le_add_left hbounded 2
  exact size_handoffText_le (a := failedHandoff topic channel maxAttempts
    (receivedOn U H topic channel raw) cause) (b := worst value wire topic channel)
    rfl rfl (transportSize_le hsize) hpayload hdigits (timestampSize_le htimestamp) hcauses

theorem decoded_wire (hbody : raw.body = wireOf H value) (huuid : value.uuid ≠ []) :
    decoded U H raw = (Legacy.encodedEnvelope H value 2).value := by
  have hread : (Legacy.encodedEnvelope H value 2).value.uuid ≠ [] := fun hnil =>
    huuid (coerce_eq_empty.mp (utf8_eq_nil.mp hnil))
  have hdecode := Legacy.decode_envelopeText U H value 2
  rw [decoded, hbody, wireOf, hdecode]
  exact if_neg hread

theorem decoded_unrecognized (h : (Legacy.decode U H raw.body).2.1 = false) :
    decoded U H raw = ⟨raw.id.toList, .empty, raw.body⟩ := by
  unfold decoded
  split
  next heq =>
    rw [heq] at h
    cases h
  next => exact if_neg (FailureRecords.id_ne_nil raw.id)

/-- The deliveries and causes that the budget is about: the wire itself, or a body of its length at
most that is not recognized, and a cause of which nothing is escaped. -/
structure Budgeted (U : Unmarshaling) (H : Sha256) (value : Envelope) (raw : Raw) (cause : Bytes) :
    Prop where
  body : raw.body = wireOf H value ∨
    raw.body.length ≤ (wireOf H value).length ∧ (Legacy.decode U H raw.body).2.1 = false
  id : Plain raw.id.toList
  timestamp : 0 ≤ raw.timestamp.toInt
  plain : Plain cause
  bounded : cause.length ≤ maxCauseBytes

/-- The two names and the wire in base64 leave 1247 bytes for the rest of a record under a physical
id. -/
def Roomy (H : Sha256) (value : Envelope) (topic channel : Bytes) : Prop :=
  1247 + size (goString topic) + size (goString channel) +
    4 * (((wireOf H value).length + 2) / 3) ≤ nsqMaxBytes

theorem size_wire_record_le (topic channel : Bytes) (maxAttempts : UInt16) {cause : Bytes}
    (h : Budgeted U H value raw cause) (hbody : raw.body = wireOf H value)
    (huuid : value.uuid ≠ []) :
    size (handoffText (failedHandoff topic channel maxAttempts (receivedOn U H topic channel raw)
      cause)) ≤ size (handoffText (worst value (wireOf H value) topic channel)) := by
  have hdecoded := decoded_wire (U := U) hbody huuid
  have hpayload : (decoded U H raw).payload.length ≤ (wireOf H value).length := by
    rw [hdecoded]
    exact length_payload_le_wire H value
  have hle := size_record_le value topic channel maxAttempts h.id h.timestamp h.plain h.bounded
    hpayload
  have hidentity : size (goString (decoded U H raw).uuid) ≤ size (goString value.uuid) := by
    rw [hdecoded]
    exact size_goString_coerce_le value.uuid
  have hmetadata : metadataSize (decoded U H raw).metadata ≤ metadataSize value.metadata := by
    rw [hdecoded]
    exact metadataSize_coerce_le value.metadata
  omega

theorem size_unrecognized_le (topic channel : Bytes) (maxAttempts : UInt16) {cause : Bytes}
    (h : Budgeted U H value raw cause) (hlength : raw.body.length ≤ (wireOf H value).length)
    (hunrecognized : (Legacy.decode U H raw.body).2.1 = false) :
    size (handoffText (failedHandoff topic channel maxAttempts (receivedOn U H topic channel raw)
        cause)) + (size (goString value.uuid) + metadataSize value.metadata) ≤
      size (handoffText (worst value (wireOf H value) topic channel)) + 18 := by
  have hdecoded := decoded_unrecognized hunrecognized
  have hpayload : (decoded U H raw).payload.length ≤ (wireOf H value).length := by
    rw [hdecoded]
    exact hlength
  have hle := size_record_le value topic channel maxAttempts h.id h.timestamp h.plain h.bounded
    hpayload
  have hidentity : size (goString (decoded U H raw).uuid) = 18 := by
    rw [hdecoded, size_goString_of_plain h.id, Vector.length_toList]
  have hmetadata : metadataSize (decoded U H raw).metadata = 0 := by
    rw [hdecoded]
    rfl
  omega

end Records

/-! ## When the budget holds -/

/-- A delivery that spoils the budget: `n` bytes that are not recognized. -/
def spoiled (n : Nat) : Raw := ⟨.replicate 16 48, List.replicate n 0, 1, 9223372036854775807, []⟩

section Worst

variable (U : Unmarshaling) (H : Sha256) (value : Envelope) (topic channel : Bytes) {n : Nat}

theorem wireOf_ne_nil : wireOf H value ≠ [] := by
  intro hnil
  have hlength := congrArg List.length hnil
  rw [wireOf, length_bytes, size_envelopeText, length_nil] at hlength
  omega

theorem id_spoiled : (spoiled n).id.toList = zeros := by
  have hzeros : (Vector.replicate 16 (48 : UInt8)).toList = zeros := by decide
  exact hzeros

theorem decode_spoiled (hn : n ≠ 0) :
    Legacy.decode U H (spoiled n).body = (⟨[], .empty, []⟩, false, none) := by
  obtain ⟨m, rfl⟩ := Nat.exists_eq_succ_of_ne_zero hn
  exact Legacy.decode_nul U H (List.replicate m 0)

theorem decoded_spoiled (hn : n ≠ 0) :
    decoded U H (spoiled n) = ⟨zeros, .empty, List.replicate n 0⟩ := by
  rw [decoded_unrecognized (by rw [decode_spoiled U H hn]), id_spoiled]
  rfl

theorem budgeted_spoiled :
    Budgeted U H value (spoiled (wireOf H value).length) longestCause := by
  have hn : (wireOf H value).length ≠ 0 := fun hzero =>
    wireOf_ne_nil H value (length_eq_zero_iff.mp hzero)
  generalize hlength : (wireOf H value).length = n at hn
  have hbody : (spoiled n).body.length = n := length_replicate ..
  have hplain : Plain zeros := by decide
  exact
    { body := .inr ⟨(hbody.trans hlength.symm).le, by rw [decode_spoiled U H hn]⟩
      id := id_spoiled ▸ hplain
      timestamp := show 0 ≤ (9223372036854775807 : Int64).toInt by decide
      plain := plain_longestCause
      bounded := (length_replicate ..).le }

theorem complete_spoiled_record (htopic : topic ≠ []) (hchannel : channel ≠ []) :
    (failedHandoff topic channel 65535 (receivedOn U H topic channel (spoiled n))
      longestCause).complete = true := by
  have hattempts : 1 ≤ (Int64.ofNat (65535 : UInt16).toNat).toInt := by decide
  have hcause : longestCause ≠ [] := cons_ne_nil _ _
  exact Legacy.complete_iff.mpr ⟨htopic, hchannel, FailureRecords.decoded_uuid_ne_nil U H _,
    hattempts, hcause⟩

/-- Its record takes as much room as the one budgeted for, with the physical id instead of identity
and metadata. -/
theorem size_spoiled_record {wire : Bytes} (hwire : wire ≠ []) :
    size (handoffText (worst value wire topic channel)) + 18 ≤
      size (handoffText (failedHandoff topic channel 65535
        (receivedOn U H topic channel (spoiled wire.length)) longestCause)) +
        (size (goString value.uuid) + metadataSize value.metadata) := by
  have hn : wire.length ≠ 0 := fun hzero => hwire (length_eq_zero_iff.mp hzero)
  have hmetadata : metadataSize .empty = 0 := rfl
  have hle : size (handoffText (worst value wire topic channel)) +
      (size (goString zeros) + metadataSize .empty) ≤ _ :=
    size_handoffText_le (a := worst value wire topic channel)
      (b := failedHandoff topic channel 65535 ⟨zeros, zeros, topic, channel, .empty,
        List.replicate wire.length 0, 1, 9223372036854775807⟩ longestCause)
      rfl rfl (Nat.le_refl _) (length_replicate ..).ge (Nat.le_refl _) (Nat.le_refl _)
      (Nat.le_refl _)
  rw [size_zeros, hmetadata] at hle
  rw [receivedOn, decoded_spoiled U H hn, id_spoiled]
  exact hle

end Worst

/-- A message that fits has all its failure records fit exactly if its budget is roomy. -/
theorem budget_holds_iff (U : Unmarshaling) (H : Sha256) (value : Envelope)
    (topic channel : Bytes) (hfits : fitsNSQ H value topic channel = true) :
    (∀ raw maxAttempts cause body, Budgeted U H value raw cause →
        Legacy.encodeFailedHandoff (failedHandoff topic channel maxAttempts
          (receivedOn U H topic channel raw) cause) = .ok body → body.length ≤ nsqMaxBytes) ↔
      Roomy H value topic channel := by
  obtain ⟨-, hcomplete, -, hhandoff⟩ := fitsNSQ_iff.mp hfits
  obtain ⟨htopic, hchannel, huuid, -⟩ := Legacy.complete_iff.mp hcomplete
  constructor
  · intro hsound
    have hfit := hsound _ _ _ _ (budgeted_spoiled U H value)
      (if_pos (complete_spoiled_record U H topic channel htopic hchannel))
    have hspoiled := size_spoiled_record U H value topic channel (wireOf_ne_nil H value)
    rw [length_bytes] at hfit
    rw [size_worst value topic channel (wireOf_ne_nil H value)] at hspoiled
    unfold Roomy
    omega
  · intro hroomy raw maxAttempts cause body hbudgeted hencoded
    rw [(Legacy.encodeFailedHandoff_ok hencoded).2, length_bytes]
    rcases hbudgeted.body with hbody | ⟨hlength, hunrecognized⟩
    · exact (size_wire_record_le topic channel maxAttempts hbudgeted hbody huuid).trans hhandoff
    · have hle := size_unrecognized_le topic channel maxAttempts hbudgeted hlength hunrecognized
      rw [size_worst value topic channel (wireOf_ne_nil H value)] at hle
      unfold Roomy at hroomy
      omega

namespace Sample

def value (n : Nat) : Envelope := ⟨utf8 "a", .empty, List.replicate n 0⟩

/-- Any digest of 32 bytes will do. -/
def digest : Sha256 := ⟨fun _ => List.replicate 32 0, by simp, fun _ => rfl⟩

theorem length_wire {n : Nat} (hn : n ≠ 0) :
    (wireOf digest (value n)).length = 168 + 4 * ((n + 2) / 3) := by
  have htype : fieldSize "type" (quote goEscape Wire.envelopeType) +
      fieldSize "schema_revision" (integerText 2) +
      omitSize ((value n).uuid = []) "uuid" (goString (value n).uuid) +
      metadataSize (value n).metadata = 76 := by
    have huuid : (value n).uuid = utf8 "a" := rfl
    have hmetadata : metadataSize (value n).metadata = 0 := rfl
    rw [huuid, hmetadata]
    decide
  have hpayload : fieldSize "payload" (payloadText (value n).payload) =
      13 + 4 * ((n + 2) / 3) := by
    have hne : List.replicate n (0 : UInt8) ≠ [] := fun hnil =>
      hn ((replicate_eq_nil_iff _).mp hnil)
    have hname : size (quote goEscape "payload") = 9 := by decide
    rw [value, fieldSize_eq, hname, size_payload hne, length_replicate]
    omega
  have hchecksum : fieldSize "checksum" (quote goEscape (Legacy.checksum digest (value n).uuid
      (value n).metadata (value n).payload)) = 78 := by
    have hname : size (quote goEscape "checksum") = 10 := by decide
    have hhex := size_hex (digest.sum (Legacy.checksumPreimage (value n).uuid
      (value n).metadata (value n).payload))
    have hlength : ∀ x, (digest.sum x).length = 32 := fun _ => rfl
    rw [hlength, hex] at hhex
    rw [fieldSize_eq, hname, quote, Legacy.checksum, String.toList_ofList, hhex]
  rw [wireOf, length_bytes, size_envelopeText, htype, hpayload, hchecksum]
  omega

theorem size_record (n : Nat) {wire : Bytes} (hwire : wire ≠ []) :
    size (handoffText (worst (value n) wire (utf8 "orders") (utf8 "billing"))) =
      1249 + 4 * ((wire.length + 2) / 3) := by
  have hnames : size (goString (utf8 "orders")) + size (goString (utf8 "billing")) +
      (size (goString (utf8 "a")) + metadataSize .empty) = 20 := by
    decide
  have hsize := size_worst (value n) (utf8 "orders") (utf8 "billing") hwire
  simp only [value] at hsize ⊢
  omega

theorem fits {n : Nat} (hn : n ≠ 0) (h : n ≤ 146620) :
    fitsNSQ digest (value n) (utf8 "orders") (utf8 "billing") = true := by
  have hwire := length_wire hn
  have hworst := size_record n (wireOf_ne_nil digest (value n))
  have hmetadata : size (mapText (value n).metadata) = 2 := by
    have hempty : mapText .empty = objectText [] := by
      rw [mapText, Map.listing_empty, map_nil]
    exact congrArg size hempty
  have hcomplete : (worst (value n) (wireOf digest (value n)) (utf8 "orders")
      (utf8 "billing")).complete = true := by
    have hattempts : 1 ≤ (65535 : Int64).toInt := by decide
    have hcause : longestCause ≠ [] := cons_ne_nil _ _
    exact Legacy.complete_iff.mpr ⟨show utf8 "orders" ≠ [] by decide,
      show utf8 "billing" ≠ [] by decide, show utf8 "a" ≠ [] by decide, hattempts, hcause⟩
  rw [fitsNSQ_iff, hmetadata, hworst, hwire, maxMetadataBytes, nsqMaxBytes]
  exact ⟨by decide, hcomplete, by omega, by omega⟩

end Sample

open Sample

theorem budget_holds_iff_small :
    (∀ raw maxAttempts cause body, Budgeted default digest (value 1) raw cause →
        Legacy.encodeFailedHandoff (failedHandoff (utf8 "orders") (utf8 "billing") maxAttempts
          (receivedOn default digest (utf8 "orders") (utf8 "billing") raw) cause) =
            .ok body → body.length ≤ nsqMaxBytes) ↔
      Roomy digest (value 1) (utf8 "orders") (utf8 "billing") :=
  budget_holds_iff default digest (value 1) (utf8 "orders") (utf8 "billing")
    (fits (by decide) (by decide))

/-- An identity of one byte and a payload of 146620: the message fits, and the failure record of a
body of its wire's length that is not recognized is 262152 bytes long. -/
theorem unrecognized_record_exceeds_the_limit :
    fitsNSQ digest (value 146620) (utf8 "orders") (utf8 "billing") = true ∧
    ∃ raw maxAttempts cause body,
      Budgeted default digest (value 146620) raw cause ∧
      Legacy.encodeFailedHandoff (failedHandoff (utf8 "orders") (utf8 "billing") maxAttempts
        (receivedOn default digest (utf8 "orders") (utf8 "billing") raw) cause) =
          .ok body ∧ nsqMaxBytes < body.length := by
  have hne := wireOf_ne_nil digest (value 146620)
  have hworst := size_record 146620 hne
  have hspoiled := size_spoiled_record default digest (value 146620)
    (utf8 "orders") (utf8 "billing") hne
  have hidentity : size (goString (value 146620).uuid) +
      metadataSize (value 146620).metadata = 3 := by
    have hsize : size (goString (utf8 "a")) + metadataSize .empty = 3 := by decide
    exact hsize
  rw [length_wire (by decide)] at hworst
  rw [hworst, hidentity] at hspoiled
  refine ⟨fits (by decide) (by decide), _, 65535, _, _, budgeted_spoiled _ _ _,
    if_pos (complete_spoiled_record _ _ _ _ (by decide) (by decide)), ?_⟩
  rw [length_bytes, nsqMaxBytes]
  omega

end ReliableMessaging.Budget
