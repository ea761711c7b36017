import ReliableMessaging.Encoding.JsonValue

/-!
# The legacy envelopes

What `wire/legacy` and the Python module `wire` put around a message on its way
through NSQ: the business envelope and the record of a failed delivery. Both
write them, so both writers are here.
-/

namespace ReliableMessaging.Wire

open Json

open Json (Value)

/-- A map of texts, in the order in which an iteration meets its entries. -/
abbrev Metadata : Type := List (String × String)

/-- `legacy.Envelope`: application identity and payload within a broker body. -/
structure Envelope where
  uuid : String
  metadata : Metadata
  payload : Bytes

structure FailedHandoff where
  topic : String
  channel : String
  uuid : String
  transportMessageId : String
  metadata : Metadata
  payload : Bytes
  attempts : Int
  timestamp : Int
  cause : String

def envelopeType : String := "component-base.messaging.message.v1"
def failedEnvelopeType : String := "component-base.messaging.failed.v1"

def omitEmpty (empty : Bool) (name : String) (v : Value) : List (String × Value) :=
  if empty then [] else [(name, v)]

def entries (m : Metadata) : Value := .object (m.map fun e => (e.1, .string e.2))

/-- `null` for no bytes, and otherwise base64. -/
def payloadValue (payload : Bytes) : Value :=
  if payload.isEmpty then .null else .string (String.ofList (base64Chars payload))

/-! ## Go -/

namespace Go

/-- `sort.Strings`, which compares bytes. -/
def sortedKeys (m : Metadata) : List String :=
  (m.map Prod.fst).mergeSort fun a b => !decide (utf8 b < utf8 a)

/-- What `m[key]` gives. -/
def get (m : Metadata) (key : String) : String := (m.lookup key).getD ""

/-- `encoding/json` writes a map in the order of its keys. -/
def sortedEntries (m : Metadata) : Metadata := (sortedKeys m).map fun key => (key, get m key)

def marshal (v : Value) : Bytes := bytes (render goEscape v)

/-- `checksum`; `field` is `writePart`. -/
def checksum (H : Sha256) (uuid : String) (metadata : Metadata) (payload : Bytes) : String :=
  let parts := (sortedKeys metadata).flatMap fun key =>
    field (utf8 key) ++ field (utf8 (get metadata key))
  String.ofList (hexChars (H.sum (field (utf8 uuid) ++ parts ++ field payload)))

/-- `Encode`; a revision other than 1 and 2 is an error. -/
def encode (H : Sha256) (value : Envelope) (revision : Nat) : Option Bytes :=
  if revision ≠ 1 ∧ revision ≠ 2 then none
  else
    let schemaRevision := if revision = 2 then 2 else 0
    let sum := if revision = 2 then checksum H value.uuid value.metadata value.payload else ""
    some (marshal (.object (
      [("type", .string envelopeType)] ++
      omitEmpty (schemaRevision = 0) "schema_revision" (.integer schemaRevision) ++
      omitEmpty (value.uuid = "") "uuid" (.string value.uuid) ++
      omitEmpty value.metadata.isEmpty "metadata" (entries (sortedEntries value.metadata)) ++
      [("payload", payloadValue value.payload)] ++
      omitEmpty (sum = "") "checksum" (.string sum))))

def encodeFailedHandoff (value : FailedHandoff) : Option Bytes :=
  if value.topic = "" ∨ value.channel = "" ∨ value.uuid = "" ∨ value.attempts < 1 ∨
      value.cause = "" then none
  else
    some (marshal (.object (
      [("type", .string failedEnvelopeType), ("provider", .string "nsq"),
        ("topic", .string value.topic), ("channel", .string value.channel),
        ("uuid", .string value.uuid)] ++
      omitEmpty (value.transportMessageId = "") "transport_message_id"
        (.string value.transportMessageId) ++
      omitEmpty value.metadata.isEmpty "metadata" (entries (sortedEntries value.metadata)) ++
      [("payload", payloadValue value.payload), ("attempts", .integer value.attempts)] ++
      omitEmpty (value.timestamp = 0) "timestamp" (.integer value.timestamp) ++
      [("cause", .string value.cause)])))

end Go

/-! ## Python -/

namespace Python

/-- `sorted(metadata)`, which compares code points. -/
def sortedKeys (m : Metadata) : List String :=
  (m.map Prod.fst).mergeSort fun a b => decide (a ≤ b)

/-- `dict(sorted(metadata.items()))`, which compares pairs. -/
def sortedItems (m : Metadata) : Metadata :=
  m.mergeSort fun a b => decide (a.1 < b.1 ∨ a.1 = b.1 ∧ a.2 ≤ b.2)

/-- `text.replace(original, escaped)` for one character. -/
def replace (original : Char) (escaped : Json.Text) (text : Json.Text) : Json.Text :=
  text.flatMap fun c => if c = original then escaped else [c]

def goJson (v : Value) : Bytes :=
  let encoded := render pythonEscape v
  let encoded := replace '&' ['\\', 'u', '0', '0', '2', '6'] encoded
  let encoded := replace '<' ['\\', 'u', '0', '0', '3', 'c'] encoded
  let encoded := replace '>' ['\\', 'u', '0', '0', '3', 'e'] encoded
  let encoded := replace (Char.ofNat 0x2028) ['\\', 'u', '2', '0', '2', '8'] encoded
  let encoded := replace (Char.ofNat 0x2029) ['\\', 'u', '2', '0', '2', '9'] encoded
  bytes encoded

/-- `checksum`: the parts are the texts in their order and then the payload. -/
def checksum (H : Sha256) (value : Envelope) : String :=
  let texts := value.uuid ::
    (sortedKeys value.metadata).flatMap fun key => [key, (value.metadata.lookup key).getD ""]
  let parts := texts.map utf8 ++ [value.payload]
  String.ofList (hexChars (H.sum (parts.flatMap field)))

def encode (H : Sha256) (value : Envelope) : Bytes :=
  goJson (.object (
    [("type", .string envelopeType), ("schema_revision", .integer 2)] ++
    omitEmpty (value.uuid = "") "uuid" (.string value.uuid) ++
    omitEmpty value.metadata.isEmpty "metadata" (entries (sortedItems value.metadata)) ++
    [("payload", payloadValue value.payload), ("checksum", .string (checksum H value))]))

def encodeFailure (value : Envelope) (topic channel transportId : String)
    (attempts timestamp : Int) (cause : String) : Option Bytes :=
  if topic = "" ∨ channel = "" ∨ value.uuid = "" ∨ attempts < 1 ∨ cause = "" then none
  else
    some (goJson (.object (
      [("type", .string failedEnvelopeType), ("provider", .string "nsq"),
        ("topic", .string topic), ("channel", .string channel), ("uuid", .string value.uuid)] ++
      omitEmpty (transportId = "") "transport_message_id" (.string transportId) ++
      omitEmpty value.metadata.isEmpty "metadata" (entries (sortedItems value.metadata)) ++
      [("payload", payloadValue value.payload), ("attempts", .integer attempts)] ++
      omitEmpty (timestamp = 0) "timestamp" (.integer timestamp) ++
      [("cause", .string cause)])))

end Python

end ReliableMessaging.Wire
