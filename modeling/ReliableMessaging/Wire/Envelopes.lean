import ReliableMessaging.Encoding.GoStrings
import ReliableMessaging.Wire.Legacy

/-!
# Package legacy over Go strings

The Go package as it is called: its strings are any bytes, and what it reads
went through `json.Unmarshal`. `Wire.Go` has the writers over texts; here they
are once more over bytes, with the decoders (`decode`, `decodeFailedHandoff`).
-/

namespace ReliableMessaging.Legacy

open List Json

open Json (Text Value goString goEscape objectText)
open Wire (envelopeType failedEnvelopeType)

/-- `map[string]string`. -/
abbrev StringMap : Type := Map Bytes Bytes

structure Envelope where
  uuid : Bytes
  metadata : StringMap
  payload : Bytes

structure FailedHandoff where
  topic : Bytes
  channel : Bytes
  uuid : Bytes
  transportMessageId : Bytes
  metadata : StringMap
  payload : Bytes
  attempts : Int64
  timestamp : Int64
  cause : Bytes

/-! ## Writing -/

/-- What `checksum` hashes; `field` is `writePart`. -/
def checksumPreimage (uuid : Bytes) (metadata : StringMap) (payload : Bytes) : Bytes :=
  field uuid ++ (metadata.listing.flatMap fun e => field e.1 ++ field e.2) ++ field payload

def checksum (H : Sha256) (uuid : Bytes) (metadata : StringMap) (payload : Bytes) : String :=
  String.ofList (hexChars (H.sum (checksumPreimage uuid metadata payload)))

/-- The parts of a checksum: the identity, the keys and values in their order, the payload. -/
def checksumParts (uuid : Bytes) (metadata : StringMap) (payload : Bytes) : List Bytes :=
  uuid :: (metadata.listing.flatMap fun e => [e.1, e.2]) ++ [payload]

theorem checksumPreimage_eq (uuid : Bytes) (metadata : StringMap) (payload : Bytes) :
    checksumPreimage uuid metadata payload =
      (checksumParts uuid metadata payload).flatMap field := by
  simp [checksumPreimage, checksumParts, flatMap_assoc]

theorem flatMap_pair_inj {as bs : List (Bytes × Bytes)}
    (h : (as.flatMap fun e => [e.1, e.2]) = bs.flatMap fun e => [e.1, e.2]) : as = bs := by
  induction as generalizing bs with
  | nil =>
    cases bs with
    | nil => rfl
    | cons b bs => cases h
  | cons a as ih =>
    cases bs with
    | nil => cases h
    | cons b bs =>
      simp only [flatMap_cons, cons_append, nil_append, List.cons.injEq] at h
      obtain ⟨hkey, hvalue, hrest⟩ := h
      rw [Prod.ext hkey hvalue, ih hrest]

theorem checksumParts_inj {uuid uuid' : Bytes} {m m' : StringMap} {payload payload' : Bytes}
    (h : checksumParts uuid m payload = checksumParts uuid' m' payload') :
    uuid = uuid' ∧ m.Same m' ∧ payload = payload' := by
  simp only [checksumParts, cons_append, List.cons.injEq] at h
  obtain ⟨huuid, hrest⟩ := h
  obtain ⟨hpairs, hpayload⟩ := append_inj' hrest rfl
  exact ⟨huuid, Map.listing_eq_iff.mp (flatMap_pair_inj hpairs), (List.cons.inj hpayload).1⟩

/-- `encoding/json` writes a map in the order of its keys. -/
def mapText (m : StringMap) : Text :=
  objectText (m.listing.map fun e => (goString e.1, goString e.2))

def payloadText (payload : Bytes) : Text := render goEscape (Wire.payloadValue payload)

def omitEmpty (empty : Bool) (name : String) (text : Text) : List (String × Text) :=
  if empty then [] else [(name, text)]

def envelopeText (H : Sha256) (value : Envelope) (revision : Nat) : Text :=
  let sum := checksum H value.uuid value.metadata value.payload
  object goEscape (
    [("type", quote goEscape envelopeType)] ++
    omitEmpty (revision ≠ 2) "schema_revision" (integerText 2) ++
    omitEmpty (value.uuid = []) "uuid" (goString value.uuid) ++
    omitEmpty value.metadata.entries.isEmpty "metadata" (mapText value.metadata) ++
    [("payload", payloadText value.payload)] ++
    omitEmpty (revision ≠ 2 ∨ sum = "") "checksum" (quote goEscape sum))

def encode (H : Sha256) (value : Envelope) (revision : Nat) : Except String Bytes :=
  if revision ≠ 1 ∧ revision ≠ 2 then
    .error ("unsupported legacy envelope revision " ++ toString revision)
  else .ok (bytes (envelopeText H value revision))

def handoffText (value : FailedHandoff) : Text :=
  object goEscape (
    [("type", quote goEscape failedEnvelopeType), ("provider", quote goEscape "nsq"),
      ("topic", goString value.topic), ("channel", goString value.channel),
      ("uuid", goString value.uuid)] ++
    omitEmpty (value.transportMessageId = []) "transport_message_id"
      (goString value.transportMessageId) ++
    omitEmpty value.metadata.entries.isEmpty "metadata" (mapText value.metadata) ++
    [("payload", payloadText value.payload), ("attempts", integerText value.attempts.toInt)] ++
    omitEmpty (value.timestamp = 0) "timestamp" (integerText value.timestamp.toInt) ++
    [("cause", goString value.cause)])

/-- What `EncodeFailedHandoff` refuses. -/
def FailedHandoff.complete (value : FailedHandoff) : Bool :=
  value.topic ≠ [] && value.channel ≠ [] && value.uuid ≠ [] && 1 ≤ value.attempts.toInt &&
    value.cause ≠ []

theorem complete_iff {value : FailedHandoff} : value.complete = true ↔
    value.topic ≠ [] ∧ value.channel ≠ [] ∧ value.uuid ≠ [] ∧ 1 ≤ value.attempts.toInt ∧
      value.cause ≠ [] := by
  simp [FailedHandoff.complete, and_assoc]

def encodeFailedHandoff (value : FailedHandoff) : Except String Bytes :=
  if value.complete then .ok (bytes (handoffText value))
  else .error "invalid legacy NSQ failed handoff"

/-! ## What `json.Unmarshal` fills -/

/-- The fields of an object that has only these, each at most once. -/
def plain (names : List String) : Value → Option (List (String × Value))
  | .object fields =>
    if (fields.map Prod.fst).Nodup ∧ fields.map Prod.fst ⊆ names then some fields else none
  | _ => none

/-- A field of a struct; a missing one keeps its zero value. -/
def member {α : Type} (fields : List (String × Value)) (name : String) (kind : Value → Option α)
    (zero : α) : Option α :=
  match fields.lookup name with
  | none => some zero
  | some v => kind v

def int64 : Value → Option Int64
  | .integer n => if -2 ^ 63 ≤ n ∧ n < 2 ^ 63 then some (Int64.ofInt n) else none
  | _ => none

/-- `[]byte`. -/
def byteSlice : Value → Option Bytes
  | .null => some []
  | .string text => base64Bytes text.toList
  | _ => none

def textEntries : List (String × Value) → Option (List (String × String))
  | [] => some []
  | (name, .string text) :: fields => (textEntries fields).map ((name, text) :: ·)
  | _ :: _ => none

/-- `map[string]string`; of two entries with one key the later one counts. -/
def texts : Value → Option (Map String String)
  | .object fields => (textEntries fields).map Map.ofList
  | _ => none

structure Probe where
  type : String
deriving Inhabited

structure EncodedEnvelope where
  type : String
  schemaRevision : Int64
  uuid : String
  metadata : Map String String
  payload : Bytes
  checksum : String

structure Recoverable where
  uuid : String
  metadata : Map String String

structure EncodedFailedHandoff where
  type : String
  provider : String
  topic : String
  channel : String
  uuid : String
  transportMessageId : String
  metadata : Map String String
  payload : Bytes
  attempts : Int64
  timestamp : Int64
  cause : String

instance : Inhabited EncodedEnvelope := ⟨⟨"", 0, "", .empty, [], ""⟩⟩
instance : Inhabited Recoverable := ⟨⟨"", .empty⟩⟩
instance : Inhabited EncodedFailedHandoff := ⟨⟨"", "", "", "", "", "", .empty, [], 0, 0, ""⟩⟩

def envelopeNames : List String :=
  ["type", "schema_revision", "uuid", "metadata", "payload", "checksum"]

/-- Fields that a struct does not have are skipped. -/
def fillProbe (v : Value) : Option Probe :=
  (plain envelopeNames v).bind fun fields => do
    some ⟨← member fields "type" Value.text ""⟩

def envelopeOf (fields : List (String × Value)) : Option EncodedEnvelope := do
  let type ← member fields "type" Value.text ""
  let schemaRevision ← member fields "schema_revision" int64 0
  let uuid ← member fields "uuid" Value.text ""
  let metadata ← member fields "metadata" texts .empty
  let payload ← member fields "payload" byteSlice []
  let checksum ← member fields "checksum" Value.text ""
  some { type, schemaRevision, uuid, metadata, payload, checksum }

def fillEnvelope (v : Value) : Option EncodedEnvelope := (plain envelopeNames v).bind envelopeOf

def fillRecoverable (v : Value) : Option Recoverable :=
  (plain envelopeNames v).bind fun fields => do
    some ⟨← member fields "uuid" Value.text "", ← member fields "metadata" texts .empty⟩

def handoffNames : List String :=
  ["type", "provider", "topic", "channel", "uuid", "transport_message_id", "metadata", "payload",
    "attempts", "timestamp", "cause"]

def handoffOf (fields : List (String × Value)) : Option EncodedFailedHandoff := do
  let type ← member fields "type" Value.text ""
  let provider ← member fields "provider" Value.text ""
  let topic ← member fields "topic" Value.text ""
  let channel ← member fields "channel" Value.text ""
  let uuid ← member fields "uuid" Value.text ""
  let transportMessageId ← member fields "transport_message_id" Value.text ""
  let metadata ← member fields "metadata" texts .empty
  let payload ← member fields "payload" byteSlice []
  let attempts ← member fields "attempts" int64 0
  let timestamp ← member fields "timestamp" int64 0
  let cause ← member fields "cause" Value.text ""
  some { type, provider, topic, channel, uuid, transportMessageId, metadata, payload, attempts,
         timestamp, cause }

def fillHandoff (v : Value) : Option EncodedFailedHandoff := (plain handoffNames v).bind handoffOf

/-- `json.Unmarshal` at the four structs of the package. -/
structure Unmarshaling where
  probe : Json.Unmarshal fillProbe
  envelope : Json.Unmarshal fillEnvelope
  recoverable : Json.Unmarshal fillRecoverable
  handoff : Json.Unmarshal fillHandoff

noncomputable instance : Inhabited Unmarshaling := ⟨⟨default, default, default, default⟩⟩

/-! ## Reading -/

def ofTexts (m : Map String String) : StringMap := m.rename utf8 utf8_injective utf8

def EncodedEnvelope.value (e : EncodedEnvelope) : Envelope :=
  ⟨utf8 e.uuid, ofTexts e.metadata, e.payload⟩

section Decoding

variable (U : Unmarshaling) (H : Sha256)

/-- `Decode` once the struct is filled. -/
def decodeEncoded (encoded : EncodedEnvelope) : Option Bytes :=
  let value := encoded.value
  if encoded.schemaRevision = 0 ∨ encoded.schemaRevision = 1 then none
  else if encoded.schemaRevision = 2 then
    if encoded.checksum = "" then some (utf8 "legacy envelope checksum is required")
    else if encoded.checksum ≠ checksum H value.uuid value.metadata value.payload then
      some (utf8 "legacy envelope checksum mismatch")
    else none
  else some (utf8 ("unsupported legacy envelope revision " ++ toString encoded.schemaRevision.toInt))

/-- `Decode`: the envelope, whether it was recognized, and the error's text. -/
def decode (body : Bytes) : Envelope × Bool × Option Bytes :=
  let (probe, err) := U.probe.run body
  if err.isSome ∨ probe.type ≠ envelopeType then (⟨[], .empty, []⟩, false, none)
  else
    match U.envelope.run body with
    | (_, some err) =>
      let (recoverable, _) := U.recoverable.run body
      (⟨utf8 recoverable.uuid, ofTexts recoverable.metadata, body⟩, true,
        some (utf8 "decode recognized legacy envelope: " ++ err))
    | (encoded, none) => (encoded.value, true, decodeEncoded H encoded)

theorem decode_nul (rest : Bytes) : decode U H (0 :: rest) = (⟨[], .empty, []⟩, false, none) := by
  have hrefused := U.probe.refuses rest
  simp [decode, hrefused]

def decodeFailedHandoff (body : Bytes) : Except Bytes FailedHandoff :=
  match U.handoff.run body with
  | (_, some err) => .error (utf8 "decode legacy NSQ failed handoff: " ++ err)
  | (encoded, none) =>
    if encoded.type ≠ failedEnvelopeType ∨ encoded.provider ≠ "nsq" ∨ encoded.topic = "" ∨
        encoded.channel = "" ∨ encoded.uuid = "" ∨ encoded.attempts.toInt < 1 ∨
        encoded.cause = "" then
      .error (utf8 "invalid legacy NSQ failed handoff")
    else
      .ok
        { topic := utf8 encoded.topic, channel := utf8 encoded.channel, uuid := utf8 encoded.uuid,
          transportMessageId := utf8 encoded.transportMessageId,
          metadata := ofTexts encoded.metadata, payload := encoded.payload,
          attempts := encoded.attempts, timestamp := encoded.timestamp,
          cause := utf8 encoded.cause }

end Decoding

end ReliableMessaging.Legacy
