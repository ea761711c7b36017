import ReliableMessaging.Transaction.References

/-!
# Stored plans in two languages

`EncodePlan` and `DecodePlan`, `encode_plan` and `decode_plan`. Both languages
store a plan under the same names, with texts as they are, bytes in base64 and
digests in hexadecimal digits, and both recompute the digest of what they
read. The two check what they read in their own constructors; in everything but
the syntax of a timestamp these ask for the same (`PlanFields.meets`).
-/

namespace ReliableMessaging.Transaction

open Json (Escape Text Value Decoder Library textField)

/-! ## What a plan holds -/

structure BranchFields where
  id : String
  physicalTopic : String
  routeRevision : String
  message : Message.Input
  wire : Bytes

structure PlanFields where
  owner : String
  scope : String
  operationID : String
  idempotencyKey : String
  inputHash : Bytes
  branches : List BranchFields

def BranchInput.fields (b : BranchInput) : BranchFields :=
  ⟨b.id, b.physicalTopic, b.routeRevision, b.message.input, b.wire⟩

def PlanInput.fields (p : PlanInput) : PlanFields :=
  ⟨p.owner, p.scope, p.operationID, p.idempotencyKey, p.inputHash.toList,
    p.branches.map BranchInput.fields⟩

/-- What `NewPlan` and `message.New` ask for, `parses` being the syntax of timestamps. -/
def BranchFields.meets (parses : String → Bool) (scope : String) (b : BranchFields) : Bool :=
  Message.bounded b.id 128 && Message.bounded b.physicalTopic 255 &&
    Message.bounded b.routeRevision 128 && !b.wire.isEmpty && b.message.scope = scope &&
    Message.bounded b.message.producer 128 && Message.bounded b.message.id 128 &&
    Message.bounded b.message.destination 255 && Message.bounded b.message.eventType 255 &&
    Message.bounded b.message.schemaVersion 128 && Message.bounded b.message.scope 255 &&
    Message.bounded b.message.contentType 255 && Message.bounded b.message.occurredAt 64 &&
    parses b.message.occurredAt && !b.message.payload.isEmpty

@[inherit_doc BranchFields.meets]
def PlanFields.meets (parses : String → Bool) (p : PlanFields) : Bool :=
  Message.bounded p.owner 128 && Message.bounded p.scope 255 &&
    Message.bounded p.operationID 128 && Message.bounded p.idempotencyKey 1024 &&
    p.inputHash.length = 32 && !p.branches.isEmpty && p.branches.length ≤ maxBranches &&
    (p.branches.map (·.id)).Nodup && p.branches.all (·.meets parses p.scope)

/-! ## Digests -/

section

variable (sum : Bytes → Bytes)

/-- What `NewPlan` hashes. -/
def PlanFields.preimage (p : PlanFields) : Bytes :=
  utf8 "rm-tx-plan-draft-v1\x00" ++ field (utf8 p.owner) ++ field (utf8 p.scope) ++
    field (utf8 p.operationID) ++ field (utf8 p.idempotencyKey) ++ field p.inputHash ++
    field (be64 p.branches.length) ++ p.branches.flatMap fun b =>
      field (utf8 b.id) ++ field (sum (Message.preimage b.message)) ++
        field (utf8 b.physicalTopic) ++ field (utf8 b.routeRevision) ++ field (sum b.wire)

def PlanFields.digest (p : PlanFields) : Bytes := sum (p.preimage sum)

end

end ReliableMessaging.Transaction

namespace ReliableMessaging.Python

open Json (Value Library textField)
open Transaction

/-! ## The frozen dataclasses -/

/-- Exactly `n` digits, as a number. -/
def digits (n : Nat) (chars : List Char) : Option (Nat × List Char) :=
  if (chars.take n).length = n ∧ (chars.take n).all Char.isDigit then
    some (Nat.ofDigitChars 10 (chars.take n) 0, chars.drop n)
  else none

/-- The optional fraction of `_TIME`. -/
def fraction : List Char → Option (List Char)
  | c :: rest =>
    if c = '.' ∨ c = ',' then
      if (rest.takeWhile Char.isDigit).isEmpty then none else some (rest.dropWhile Char.isDigit)
    else some (c :: rest)
  | [] => some []

/-- The zone of `_TIME` and the check on it, at the end of the text. -/
def zone : List Char → Option Unit
  | ['Z'] => some ()
  | sign :: rest => do
    let (hours, rest) ← digits 2 rest
    let rest ← Clock.expect ':' rest
    let (minutes, rest) ← digits 2 rest
    if (sign = '+' ∨ sign = '-') ∧ rest = [] ∧ hours ≤ 24 ∧ minutes ≤ 60 then some () else none
  | [] => none

/-- `_TIME` and the checks of `Message.__post_init__` on the date and the clock. -/
def timeAccepted (value : String) : Bool :=
  (do
    let (year, rest) ← digits 4 value.toList
    let rest ← Clock.expect '-' rest
    let (month, rest) ← digits 2 rest
    let rest ← Clock.expect '-' rest
    let (day, rest) ← digits 2 rest
    let rest ← Clock.expect 'T' rest
    let (hour, rest) ← digits 2 rest <|> digits 1 rest
    let rest ← Clock.expect ':' rest
    let (minute, rest) ← digits 2 rest
    let rest ← Clock.expect ':' rest
    let (second, rest) ← digits 2 rest
    let rest ← fraction rest
    let _ ← zone rest
    if 1 ≤ month ∧ month ≤ 12 ∧ 1 ≤ day ∧ day ≤ Clock.daysIn month year ∧ hour ≤ 23 ∧
        minute ≤ 59 ∧ second ≤ 59 then some ()
    else none
    : Option Unit).isSome

/-- `Message.__post_init__`. -/
def messageAccepted (m : Message.Input) : Bool :=
  Message.bounded m.producer 128 && Message.bounded m.id 128 &&
    Message.bounded m.destination 255 && Message.bounded m.eventType 255 &&
    Message.bounded m.schemaVersion 128 && Message.bounded m.scope 255 &&
    Message.bounded m.contentType 255 && Message.bounded m.occurredAt 64 &&
    timeAccepted m.occurredAt && !m.payload.isEmpty

/-- `FrozenBranch.__post_init__`, on a message that was made. -/
def branchAccepted (b : BranchFields) : Bool :=
  required [b.id, b.physicalTopic, b.routeRevision] && b.id.utf8ByteSize ≤ 128 &&
    b.physicalTopic.utf8ByteSize ≤ 255 && b.routeRevision.utf8ByteSize ≤ 128 && !b.wire.isEmpty

/-- `FrozenPlan.__post_init__`, on branches that were made. -/
def planAccepted (p : PlanFields) : Bool :=
  required [p.owner, p.scope, p.operationID, p.idempotencyKey] && p.owner.utf8ByteSize ≤ 128 &&
    p.scope.utf8ByteSize ≤ 255 && p.operationID.utf8ByteSize ≤ 128 &&
    p.idempotencyKey.utf8ByteSize ≤ 1024 && p.inputHash.length = 32 && !p.branches.isEmpty &&
    p.branches.length ≤ maxBranches && (p.branches.map (·.id)).Nodup &&
    p.branches.all (·.message.scope = p.scope)

/-- A `FrozenPlan` that Python made, with its branches and their messages. -/
structure FrozenPlan where
  fields : PlanFields
  messages : ∀ b ∈ fields.branches, messageAccepted b.message = true
  branches : ∀ b ∈ fields.branches, branchAccepted b = true
  plan : planAccepted fields = true

section

variable (sum : Bytes → Bytes)

def messageFields (m : Message.Input) : List Bytes :=
  [utf8 m.producer, utf8 m.id, utf8 m.destination, utf8 m.eventType, utf8 m.schemaVersion,
    utf8 m.scope, utf8 m.contentType, utf8 m.occurredAt, m.payload]

def fingerprint (m : Message.Input) : String :=
  encodeHex (sum (utf8 "rm-fingerprint-draft-v1\x00" ++ (messageFields m).flatMap field))

/-- The digest that `FrozenPlan.__post_init__` computes. -/
def digest (p : PlanFields) : Bytes :=
  sum (utf8 "rm-tx-plan-draft-v1\x00" ++
    [p.owner, p.scope, p.operationID, p.idempotencyKey].flatMap (fun v => field (utf8 v)) ++
    field p.inputHash ++ field (be64 p.branches.length) ++
    p.branches.flatMap fun b =>
      -- `bytes.fromhex` does not fail on what `hexdigest` gives
      [utf8 b.id, (fromhex (fingerprint sum b.message)).getD [], utf8 b.physicalTopic,
        utf8 b.routeRevision, sum b.wire].flatMap field)

end

/-! ## The codec -/

/-- Every constructor that runs while a plan is read; any of them may refuse. -/
def newPlan (p : PlanFields) : Option FrozenPlan :=
  if h : (∀ b ∈ p.branches, messageAccepted b.message = true) ∧
      (∀ b ∈ p.branches, branchAccepted b = true) ∧ planAccepted p = true then
    some ⟨p, h.1, h.2.1, h.2.2⟩
  else none

end ReliableMessaging.Python

namespace ReliableMessaging.Transaction

open Json (Escape Text Value Decoder Library textField)

/-- `base64.b64encode(...).decode("ascii")`, and how `encoding/json` writes a `[]byte`. -/
def base64Text (b : Bytes) : String := String.ofList (Json.base64Chars b)

def messageNames : List String :=
  ["producer", "message_id", "destination", "event_type", "schema_version", "scope",
    "content_type", "occurred_at", "payload"]

/-- A message as both writers lay it out. -/
def messageLayout (m : Message.Input) : List (String × Value) :=
  [("producer", .string m.producer), ("message_id", .string m.id),
    ("destination", .string m.destination), ("event_type", .string m.eventType),
    ("schema_version", .string m.schemaVersion), ("scope", .string m.scope),
    ("content_type", .string m.contentType), ("occurred_at", .string m.occurredAt),
    ("payload", .string (base64Text m.payload))]

def branchNames : List String :=
  ["branch_id", "physical_topic", "route_revision", "message", "wire"]

def branchLayout (b : BranchFields) : List (String × Value) :=
  [("branch_id", .string b.id), ("physical_topic", .string b.physicalTopic),
    ("route_revision", .string b.routeRevision), ("message", .object (messageLayout b.message)),
    ("wire", .string (base64Text b.wire))]

def planNames : List String :=
  ["version", "owner", "scope", "operation_id", "idempotency_key", "input_hash", "plan_digest",
    "branches"]

def planLayout (digest : Bytes) (p : PlanFields) : List (String × Value) :=
  [("version", .integer codecVersion), ("owner", .string p.owner), ("scope", .string p.scope),
    ("operation_id", .string p.operationID), ("idempotency_key", .string p.idempotencyKey),
    ("input_hash", .string (encodeHex p.inputHash)), ("plan_digest", .string (encodeHex digest)),
    ("branches", .array (p.branches.map fun b => .object (branchLayout b)))]

/-- The text of a plan under these escapes. -/
def PlanFields.text (sum : Bytes → Bytes) (w : Escape) (p : PlanFields) : Bytes :=
  Json.bytes (Json.render w (.object (planLayout (p.digest sum) p)))

/-! ### Go -/

/-- `EncodePlan`. -/
def marshalPlan (sum : Bytes → Bytes) (p : FrozenPlan) : Except Err Bytes :=
  if !p.valid then .error .invalidPlan
  else
    let data := Json.bytes (Json.render Json.goEscape
      (.object (planLayout (p.input.fields.digest sum) p.input.fields)))
    if data.length > maxPlanBytes then .error .invalidPlan else .ok data

/-- The fields of `storedBranch`; `storedMessage` has those of `message.Input`. -/
structure StoredBranch where
  id : String
  physicalTopic : String
  revision : String
  message : Message.Input
  wire : Bytes

structure StoredPlan where
  version : Int
  owner : String
  scope : String
  operation : String
  key : String
  inputHash : String
  digest : String
  branches : List StoredBranch

/-- A `[]byte` under a name. -/
def bytesField (fields : List (String × Value)) (name : String) : Option Bytes :=
  (textField fields name).bind fun text => base64Bytes text.toList

/-- An `int`. -/
def int64 : Value → Option Int
  | .integer n => if -2 ^ 63 ≤ n ∧ n < 2 ^ 63 then some n else none
  | _ => none

def fillMessage (v : Value) : Option Message.Input := do
  let fields ← v.once messageNames
  let producer ← textField fields "producer"
  let id ← textField fields "message_id"
  let destination ← textField fields "destination"
  let eventType ← textField fields "event_type"
  let schemaVersion ← textField fields "schema_version"
  let scope ← textField fields "scope"
  let contentType ← textField fields "content_type"
  let occurredAt ← textField fields "occurred_at"
  let payload ← bytesField fields "payload"
  some ⟨producer, id, destination, eventType, schemaVersion, scope, contentType, occurredAt,
    payload⟩

def StoredBranch.fill (v : Value) : Option StoredBranch := do
  let fields ← v.once branchNames
  let id ← textField fields "branch_id"
  let physicalTopic ← textField fields "physical_topic"
  let revision ← textField fields "route_revision"
  let message ← (fields.lookup "message").bind fillMessage
  let wire ← bytesField fields "wire"
  some ⟨id, physicalTopic, revision, message, wire⟩

def StoredPlan.fill (v : Value) : Option StoredPlan := do
  let fields ← v.once planNames
  let version ← (fields.lookup "version").bind int64
  let owner ← textField fields "owner"
  let scope ← textField fields "scope"
  let operation ← textField fields "operation_id"
  let key ← textField fields "idempotency_key"
  let inputHash ← textField fields "input_hash"
  let digest ← textField fields "plan_digest"
  let items ← (fields.lookup "branches").bind Value.items
  let branches ← items.mapM StoredBranch.fill
  some ⟨version, owner, scope, operation, key, inputHash, digest, branches⟩

/-- A round of the loop of `DecodePlan` over the stored branches. -/
def StoredBranch.restore (b : StoredBranch) : Except CodecErr BranchInput :=
  match Message.new b.message with
  | some m => .ok ⟨b.id, b.physicalTopic, b.revision, m, b.wire⟩
  | none => .error .message

/-- What `DecodePlan` does with the struct it has read. -/
def StoredPlan.restore (sum : Bytes → Bytes) (s : StoredPlan) : Except CodecErr FrozenPlan := do
  if s.version ≠ codecVersion then .error .invalidPlan
  else
    let h ← decodeDigest s.inputHash
    let branches ← s.branches.mapM StoredBranch.restore
    if hlength : h.toArray.size = 32 then
      match newPlan ⟨s.owner, s.scope, s.operation, s.key, ⟨h.toArray, hlength⟩, branches⟩ with
      | .error _ => .error .invalidPlan
      | .ok p =>
        if s.digest ≠ encodeHex (p.input.fields.digest sum) then .error .invalidPlan else .ok p
    else .error .invalidPlan

def decodePlan (sum : Bytes → Bytes) (D : Decoder StoredPlan.fill) (data : Bytes) :
    Except CodecErr FrozenPlan :=
  if data.length = 0 ∨ data.length > maxPlanBytes then .error .invalidPlan
  else match D.decode data with
    | .error .malformed => .error .json
    | .error .trailing => .error .invalidPlan
    | .ok s => s.restore sum

end ReliableMessaging.Transaction

namespace ReliableMessaging.Python

open Json (Value Library textField)
open Transaction

def encodePlan (sum : Bytes → Bytes) (p : FrozenPlan) : Option Bytes :=
  let data := Json.bytes (Json.render Json.pythonEscape
    (.object (planLayout (digest sum p.fields) p.fields)))
  if data.length > maxPlanBytes then none else some data

section

variable (L : Library)

/-- The arguments of `Message` in `decode_plan`. -/
def decodeMessage (v : Value) : Option Message.Input := do
  let m ← v.exactly messageNames
  let producer ← textField m "producer"
  let id ← textField m "message_id"
  let destination ← textField m "destination"
  let eventType ← textField m "event_type"
  let schemaVersion ← textField m "schema_version"
  let scope ← textField m "scope"
  let contentType ← textField m "content_type"
  let occurredAt ← textField m "occurred_at"
  let payload ← (textField m "payload").bind L.b64decode
  some ⟨producer, id, destination, eventType, schemaVersion, scope, contentType, occurredAt,
    payload⟩

/-- The arguments of `FrozenBranch` in `decode_plan`. -/
def decodeBranch (v : Value) : Option BranchFields := do
  let b ← v.exactly branchNames
  let id ← textField b "branch_id"
  let physicalTopic ← textField b "physical_topic"
  let revision ← textField b "route_revision"
  let message ← (b.lookup "message").bind (decodeMessage L)
  let wire ← (textField b "wire").bind L.b64decode
  some ⟨id, physicalTopic, revision, message, wire⟩

/-- `decode_plan`. What is not a list has no branch, or none that is an object. -/
def decodePlan (sum : Bytes → Bytes) (data : Bytes) : Option FrozenPlan := do
  if data.length = 0 ∨ data.length > maxPlanBytes then none
  else
    let loaded ← L.loads data
    let p ← loaded.exactly planNames
    match p.lookup "version" with
    | some (.integer 1) =>
      let items ← (p.lookup "branches").bind Value.items
      let branches ← items.mapM (decodeBranch L)
      let owner ← textField p "owner"
      let scope ← textField p "scope"
      let operation ← textField p "operation_id"
      let key ← textField p "idempotency_key"
      let inputHash ← (textField p "input_hash").bind fromhex
      let plan ← newPlan ⟨owner, scope, operation, key, inputHash, branches⟩
      let stored ← textField p "plan_digest"
      if encodeHex (digest sum plan.fields) ≠ stored then none else some plan
    | _ => none

end

end ReliableMessaging.Python

namespace ReliableMessaging.Transaction

open Json (Escape Text Value Decoder Library textField)

/-! ## The two languages agree -/

theorem mapM_map_pure {m : Type → Type} [Monad m] [LawfulMonad m] {α β γ : Type} {f : β → m γ}
    {g : α → β} {h : α → γ} (items : List α) (hf : ∀ a ∈ items, f (g a) = pure (h a)) :
    (items.map g).mapM f = pure (items.map h) := by
  induction items with
  | nil => rfl
  | cons a items ih =>
    simp only [List.map_cons, List.mapM_cons, hf a List.mem_cons_self,
      ih fun b hb => hf b (List.mem_cons_of_mem _ hb), pure_bind]

theorem python_fingerprint (sum : Bytes → Bytes) (m : Message.Input) :
    fromhex (Python.fingerprint sum m) = some (sum (Message.preimage m)) := by
  have hpreimage : utf8 "rm-fingerprint-draft-v1\x00" ++ (Python.messageFields m).flatMap field =
      Message.preimage m := by
    simp [Python.messageFields, Message.preimage]
  rw [Python.fingerprint, fromhex_encodeHex, hpreimage]

theorem python_digest (sum : Bytes → Bytes) (p : PlanFields) :
    Python.digest sum p = p.digest sum := by
  simp [Python.digest, PlanFields.digest, PlanFields.preimage, python_fingerprint]

/-! ### What is written -/

theorem quote_base64Text (w : Escape) (b : Bytes) :
    Json.quote w (base64Text b) = Json.base64 w b := by
  rw [Json.quote, base64Text, String.toList_ofList, Json.base64]

theorem renderItems_eq_map (w : Escape) (items : List Value) :
    Json.renderItems w items = items.map (Json.render w) := by
  induction items with
  | nil => rfl
  | cons v items ih => rw [Json.renderItems, ih, List.map_cons]

theorem storedBranch_eq (w : Escape) (b : BranchInput) :
    storedBranch w b = Json.render w (.object (branchLayout b.fields)) := by
  simp [storedBranch, storedMessage, branchLayout, messageLayout, BranchInput.fields, Json.render,
    Json.renderFields, quote_base64Text]

theorem storedPlan_eq (H : Sha256) (w : Escape) (p : FrozenPlan) :
    storedPlan H w p = Json.render w (.object (planLayout (p.digest H) p.input.fields)) := by
  have hbranches : p.input.branches.map (storedBranch w) =
      p.input.branches.map fun b => Json.render w (.object (branchLayout b.fields)) :=
    List.map_congr_left fun b _ => storedBranch_eq w b
  simp only [storedPlan, hbranches, planLayout, PlanInput.fields, Json.render, Json.renderFields,
    renderItems_eq_map, List.map_map, quote_encodeHex]
  rfl

variable {p : FrozenPlan} {b : BranchInput} {scope : String} {data : Bytes} {q : Python.FrozenPlan}

theorem digest_eq_fields (H : Sha256) (hp : p.valid = true) :
    p.digest H = p.input.fields.digest H.sum := by
  simp only [FrozenPlan.digest, hp, if_true, planPreimage, PlanFields.digest,
    PlanFields.preimage, PlanInput.fields, BranchInput.fields, List.flatMap_map, List.length_map]
  rfl

/-- What the stores' `encodePlan` decides about. -/
theorem marshalPlan_eq (H : Sha256) (p : FrozenPlan) :
    marshalPlan H.sum p =
      (encodePlan H Json.goEscape p).map fun p => Json.bytes (storedPlan H Json.goEscape p) := by
  cases hp : p.valid with
  | false => simp [marshalPlan, encodePlan, hp, Except.map]
  | true =>
    have htext : storedPlan H Json.goEscape p = Json.render Json.goEscape
        (.object (planLayout (p.input.fields.digest H.sum) p.input.fields)) := by
      rw [storedPlan_eq, digest_eq_fields H hp]
    simp only [marshalPlan, encodePlan, hp, Bool.not_true, Bool.false_eq_true, if_false, ← htext,
      Json.length_bytes]
    split <;> rfl

theorem modest_planLayout (digest : Bytes) (p : PlanFields) :
    (Value.object (planLayout digest p)).Modest 64 := by
  have hmessage : ∀ m, (Value.object (messageLayout m)).Modest 61 := fun m =>
    ⟨(by decide : messageNames.Nodup), by simp [messageLayout, Value.Modest]⟩
  have hbranch : ∀ b, (Value.object (branchLayout b)).Modest 62 := fun b =>
    ⟨(by decide : branchNames.Nodup), by
      simpa [branchLayout, Value.Modest] using hmessage b.message⟩
  refine ⟨(by decide : planNames.Nodup), ?_⟩
  simpa [planLayout, Value.Modest, codecVersion] using fun b _ => hbranch b

/-! ### What is read -/

theorem base64Bytes_base64Text (b : Bytes) : base64Bytes (base64Text b).toList = some b := by
  rw [base64Text, String.toList_ofList, base64Bytes_base64Chars]

theorem fillMessage_layout (m : Message.Input) :
    fillMessage (.object (messageLayout m)) = some m := by
  have honce : (Value.object (messageLayout m)).once messageNames = some (messageLayout m) :=
    Value.once_object rfl (by decide)
  rw [fillMessage, honce, Option.bind_eq_bind, Option.bind_some]
  simp [textField, messageLayout, List.lookup_cons, Value.text, bytesField, base64Bytes_base64Text]

def BranchFields.stored (b : BranchFields) : StoredBranch :=
  ⟨b.id, b.physicalTopic, b.routeRevision, b.message, b.wire⟩

theorem StoredBranch.fill_layout (b : BranchFields) :
    StoredBranch.fill (.object (branchLayout b)) = some b.stored := by
  have honce : (Value.object (branchLayout b)).once branchNames = some (branchLayout b) :=
    Value.once_object rfl (by decide)
  rw [StoredBranch.fill, honce, Option.bind_eq_bind, Option.bind_some]
  simp [textField, branchLayout, List.lookup_cons, Value.text, bytesField, base64Bytes_base64Text,
    fillMessage_layout, BranchFields.stored]

def PlanFields.stored (digest : Bytes) (p : PlanFields) : StoredPlan :=
  ⟨codecVersion, p.owner, p.scope, p.operationID, p.idempotencyKey, encodeHex p.inputHash,
    encodeHex digest, p.branches.map BranchFields.stored⟩

theorem StoredPlan.fill_layout (digest : Bytes) (p : PlanFields) :
    StoredPlan.fill (.object (planLayout digest p)) = some (p.stored digest) := by
  have honce : (Value.object (planLayout digest p)).once planNames =
      some (planLayout digest p) := Value.once_object rfl (by decide)
  have hversion : int64 (.integer 1) = some 1 := by decide
  have hbranches := mapM_map_pure (m := Option) p.branches fun b _ =>
    StoredBranch.fill_layout b
  rw [StoredPlan.fill, honce, Option.bind_eq_bind, Option.bind_some]
  simp [textField, planLayout, List.lookup_cons, Value.text, Value.items, hversion, hbranches,
    codecVersion, PlanFields.stored]

theorem StoredBranch.restore_fields (hb : b.message.valid = true) :
    b.fields.stored.restore = .ok b := by
  have hnew : Message.new b.fields.stored.message = some b.message := Message.new_input hb
  unfold StoredBranch.restore
  rw [hnew]
  rfl

theorem valid_of_newPlan {input : PlanInput} (h : newPlan input = .ok p) : p.valid = true := by
  unfold newPlan at h
  split at h
  next haccepted =>
    cases h
    simp only [planAccepted, required, Bool.and_eq_true, List.all_cons] at haccepted
    exact haccepted.1.1.1.1.1.1.1.1
  · cases h

theorem newPlan_input (hp : p.valid = true) : newPlan p.input = .ok p := by
  rw [newPlan, dif_pos (p.accepted_of_valid hp)]

theorem restore_branches (hp : p.valid = true) :
    (p.input.fields.branches.map BranchFields.stored).mapM StoredBranch.restore =
      .ok p.input.branches := by
  have hone : ∀ b ∈ p.input.branches,
      b.fields.stored.restore = (pure (id b) : Except CodecErr BranchInput) := fun b hb =>
    StoredBranch.restore_fields (p.branch_spec hp hb).2.2.2.2.1
  have hall := mapM_map_pure (g := fun b => b.fields.stored) p.input.branches hone
  rw [List.map_id] at hall
  rw [PlanInput.fields, List.map_map]
  exact hall

theorem StoredPlan.restore_stored (sum : Bytes → Bytes) (hp : p.valid = true) :
    (p.input.fields.stored (p.input.fields.digest sum)).restore sum = .ok p := by
  have hhash : decodeDigest (encodeHex p.input.fields.inputHash) = .ok p.input.inputHash.toList :=
    decodeDigest_encodeHex (show p.input.inputHash.toList.length = 32 by simp)
  have hsize : p.input.inputHash.toList.toArray.size = 32 := by simp
  have hvector : (⟨p.input.inputHash.toList.toArray, hsize⟩ : Vector UInt8 32) =
      p.input.inputHash := Vector.toArray_inj.mp Array.toArray_toList
  have hnew : newPlan ⟨p.input.fields.owner, p.input.fields.scope, p.input.fields.operationID,
      p.input.fields.idempotencyKey, ⟨p.input.inputHash.toList.toArray, hsize⟩,
      p.input.branches⟩ = .ok p := by
    rw [hvector]
    exact newPlan_input hp
  simp [StoredPlan.restore, PlanFields.stored, hhash, restore_branches hp, bind, Except.bind,
    hsize, hnew]

theorem decodePlan_written (sum : Bytes → Bytes) (D : Decoder StoredPlan.fill) {w : Escape}
    (hw : Json.Standard w) (hp : p.valid = true)
    (hsize : (p.input.fields.text sum w).length ≤ maxPlanBytes) :
    decodePlan sum D (p.input.fields.text sum w) = .ok p := by
  unfold PlanFields.text at hsize ⊢
  have hread := D.decode_render hw (modest_planLayout (p.input.fields.digest sum) p.input.fields)
    (StoredPlan.fill_layout _ _)
  rw [decodePlan, if_neg (not_or.mpr ⟨Json.length_render_object w _, by omega⟩), hread]
  exact StoredPlan.restore_stored sum hp

/-! ### Python reads it -/

section

variable (L : Library)

theorem python_decodeMessage (m : Message.Input) :
    Python.decodeMessage L (.object (messageLayout m)) = some m := by
  have hexact : (Value.object (messageLayout m)).exactly messageNames = some (messageLayout m) :=
    Value.exactly_object rfl
  rw [Python.decodeMessage, hexact, Option.bind_eq_bind, Option.bind_some]
  simp [textField, messageLayout, List.lookup_cons, Value.text, base64Text, L.b64decode_base64]

theorem python_decodeBranch (b : BranchFields) :
    Python.decodeBranch L (.object (branchLayout b)) = some b := by
  have hexact : (Value.object (branchLayout b)).exactly branchNames = some (branchLayout b) :=
    Value.exactly_object rfl
  rw [Python.decodeBranch, hexact, Option.bind_eq_bind, Option.bind_some]
  simp [textField, branchLayout, List.lookup_cons, Value.text, base64Text, L.b64decode_base64,
    python_decodeMessage]

theorem python_newPlan (q : Python.FrozenPlan) : Python.newPlan q.fields = some q := by
  rw [Python.newPlan, dif_pos ⟨q.messages, q.branches, q.plan⟩]

theorem python_decodePlan_written (sum : Bytes → Bytes) {w : Escape} (hw : Json.Standard w)
    (q : Python.FrozenPlan) (hsize : (q.fields.text sum w).length ≤ maxPlanBytes) :
    Python.decodePlan L sum (q.fields.text sum w) = some q := by
  unfold PlanFields.text at hsize ⊢
  rw [← python_digest] at hsize ⊢
  have hread := L.loads_render hw (modest_planLayout (Python.digest sum q.fields) q.fields)
  have hexact : (Value.object (planLayout (Python.digest sum q.fields) q.fields)).exactly
      planNames = some (planLayout (Python.digest sum q.fields) q.fields) :=
    Value.exactly_object rfl
  have hone : ∀ b ∈ q.fields.branches,
      Python.decodeBranch L (.object (branchLayout b)) = pure (id b) := fun b _ =>
    python_decodeBranch L b
  have hbranches := mapM_map_pure (f := Python.decodeBranch L)
    (g := fun b => Value.object (branchLayout b)) q.fields.branches hone
  rw [List.map_id, Option.pure_def] at hbranches
  rw [Python.decodePlan, if_neg (not_or.mpr ⟨Json.length_render_object w _, by omega⟩), hread,
    Option.bind_eq_bind, Option.bind_some, hexact, Option.bind_eq_bind, Option.bind_some]
  have hnew : Python.newPlan ⟨q.fields.owner, q.fields.scope, q.fields.operationID,
      q.fields.idempotencyKey, q.fields.inputHash, q.fields.branches⟩ = some q := python_newPlan q
  simp [textField, planLayout, List.lookup_cons, Value.text, Value.items, codecVersion, hbranches,
    fromhex_encodeHex, hnew]

end

/-! ### What either reader accepts -/

theorem StoredPlan.restore_digest {sum : Bytes → Bytes} {s : StoredPlan}
    (h : s.restore sum = .ok p) :
    newPlan p.input = .ok p ∧ s.digest = encodeHex (p.input.fields.digest sum) := by
  rw [StoredPlan.restore] at h
  split at h
  · cases h
  obtain ⟨hash, -, h⟩ := Loops.bind_ok h
  obtain ⟨branches, -, h⟩ := Loops.bind_ok h
  split at h
  · split at h
    · cases h
    next q hq =>
      split at h
      · cases h
      next hdigest =>
        cases h
        exact ⟨newPlan_input (valid_of_newPlan hq), not_not.mp hdigest⟩
  · cases h

theorem bounded_iff {value : String} {limit : Nat} :
    Message.bounded value limit = true ↔ value ≠ "" ∧ value.utf8ByteSize ≤ limit := by
  simp [Message.bounded]

theorem meets_branch (h : branchAccepted scope [] b = true) :
    b.fields.meets Clock.parsesRFC3339Nano scope = true := by
  simp only [branchAccepted, required, Bool.and_eq_true, decide_eq_true_eq, List.all_cons,
    List.all_nil] at h
  have hm := Message.accepted_of_valid h.1.1.2
  simp only [Message.accepted, Bool.and_eq_true, bounded_iff] at hm
  simp only [BranchFields.meets, Bool.and_eq_true, decide_eq_true_eq, bounded_iff]
  simp only [BranchInput.fields]
  tauto

theorem meets_fields {p : PlanInput} (h : planAccepted p = true) :
    p.fields.meets Clock.parsesRFC3339Nano = true := by
  simp only [planAccepted, required, Bool.and_eq_true, decide_eq_true_eq, List.all_cons,
    List.all_nil] at h
  obtain ⟨hbranches, hnodup⟩ := branchesAccepted_spec h.2
  have hlength : p.inputHash.toList.length = 32 := by simp
  have hids : (p.branches.map BranchInput.fields).map (·.id) = p.branches.map (·.id) := by
    rw [List.map_map]
    rfl
  have hall : (p.branches.map BranchInput.fields).all
      (·.meets Clock.parsesRFC3339Nano p.scope) = true := by
    rw [List.all_map, List.all_eq_true]
    exact fun b hb => meets_branch (hbranches b hb)
  have hempty : (p.branches.map BranchInput.fields).isEmpty = p.branches.isEmpty := by
    cases p.branches <;> rfl
  simp only [PlanFields.meets, Bool.and_eq_true, decide_eq_true_eq, bounded_iff]
  simp only [PlanInput.fields, hlength, hids, hall, hempty, List.length_map]
  tauto

theorem meets_python (q : Python.FrozenPlan) : q.fields.meets Python.timeAccepted = true := by
  have hplan := q.plan
  simp only [Python.planAccepted, required, Bool.and_eq_true, decide_eq_true_eq, List.all_cons,
    List.all_nil, List.all_eq_true] at hplan
  have hall : q.fields.branches.all (·.meets Python.timeAccepted q.fields.scope) = true := by
    rw [List.all_eq_true]
    intro b hb
    have hmessage := q.messages b hb
    have hbranch := q.branches b hb
    have hscope := hplan.2 b hb
    simp only [Python.messageAccepted, Python.branchAccepted, required, Bool.and_eq_true,
      decide_eq_true_eq, List.all_cons, List.all_nil] at hmessage hbranch
    simp only [BranchFields.meets, Bool.and_eq_true, decide_eq_true_eq, bounded_iff] at hmessage ⊢
    tauto
  simp only [PlanFields.meets, Bool.and_eq_true, decide_eq_true_eq, bounded_iff, hall]
  tauto

theorem meets_any {parses : String → Bool} {p : PlanFields} (h : p.meets parses = true) :
    p.meets (fun _ => true) = true := by
  simp only [PlanFields.meets, Bool.and_eq_true, List.all_eq_true] at h ⊢
  refine ⟨h.1, fun b hb => ?_⟩
  have hb' := h.2 b hb
  simp only [BranchFields.meets, Bool.and_eq_true] at hb' ⊢
  tauto

/-! `meets` asks for what `NewPlan` asks for, and for nothing else. -/

theorem exists_branch {f : BranchFields} (h : f.meets Clock.parsesRFC3339Nano scope = true) :
    ∃ b : BranchInput, b.fields = f ∧ branchAccepted scope [] b = true := by
  simp only [BranchFields.meets, Bool.and_eq_true, decide_eq_true_eq, bounded_iff] at h
  have hm : Message.accepted f.message = true := by
    simp only [Message.accepted, Bool.and_eq_true, bounded_iff]
    tauto
  have hvalid : Message.valid ⟨f.message, .inr hm⟩ = true := by
    simp only [Message.valid, decide_eq_true_eq]
    tauto
  refine ⟨⟨f.id, f.physicalTopic, f.routeRevision, ⟨f.message, .inr hm⟩, f.wire⟩, rfl, ?_⟩
  simp only [branchAccepted, required, Bool.and_eq_true, decide_eq_true_eq, List.all_cons,
    List.all_nil, hvalid, List.contains_nil, Bool.not_false]
  tauto

theorem exists_branches {fs : List BranchFields} {ids : List String}
    (h : ∀ f ∈ fs, f.meets Clock.parsesRFC3339Nano scope = true) (hnodup : (fs.map (·.id)).Nodup)
    (hids : ∀ f ∈ fs, f.id ∉ ids) :
    ∃ bs : List BranchInput, bs.map BranchInput.fields = fs ∧
      branchesAccepted scope ids bs = true := by
  induction fs generalizing ids with
  | nil => exact ⟨[], rfl, rfl⟩
  | cons f fs ih =>
    obtain ⟨b, rfl, hb⟩ := exists_branch (h f List.mem_cons_self)
    rw [List.map_cons, List.nodup_cons] at hnodup
    have hlater : ∀ g ∈ fs, g.id ∉ b.id :: ids := by
      intro g hg hmem
      rcases List.mem_cons.mp hmem with heq | hmem
      · exact hnodup.1 (List.mem_map.mpr ⟨g, hg, heq⟩)
      · exact hids g (List.mem_cons_of_mem _ hg) hmem
    obtain ⟨bs, rfl, hbs⟩ := ih (fun g hg => h g (List.mem_cons_of_mem _ hg)) hnodup.2 hlater
    have hnot : b.id ∉ ids := hids _ List.mem_cons_self
    have hfresh : ids.contains b.id = false := by simpa using hnot
    refine ⟨b :: bs, rfl, ?_⟩
    simp only [branchAccepted, List.contains_nil, Bool.and_eq_true] at hb
    simp only [branchesAccepted, branchAccepted, hfresh, hbs, Bool.and_eq_true]
    tauto

theorem meets_iff {f : PlanFields} : f.meets Clock.parsesRFC3339Nano = true ↔
    ∃ p : FrozenPlan, newPlan p.input = .ok p ∧ p.input.fields = f := by
  constructor
  · intro h
    simp only [PlanFields.meets, Bool.and_eq_true, decide_eq_true_eq, bounded_iff,
      List.all_eq_true] at h
    have hnone : ∀ g ∈ f.branches, g.id ∉ ([] : List String) := fun _ _ hm => nomatch hm
    obtain ⟨bs, hbs, haccepted⟩ := exists_branches h.2 h.1.2 hnone
    have hsize : f.inputHash.toArray.size = 32 := by simpa using h.1.1.1.1.2
    have hlength : bs.length = f.branches.length := by rw [← hbs, List.length_map]
    have hempty : bs.isEmpty = f.branches.isEmpty := by
      rw [← hbs]
      cases bs <;> rfl
    let input : PlanInput :=
      ⟨f.owner, f.scope, f.operationID, f.idempotencyKey, ⟨f.inputHash.toArray, hsize⟩, bs⟩
    have hinput : planAccepted input = true := by
      simp only [planAccepted, required, Bool.and_eq_true, decide_eq_true_eq, List.all_cons,
        List.all_nil, input, hlength, hempty, haccepted]
      tauto
    refine ⟨⟨input, .inr hinput⟩, ?_, ?_⟩
    · rw [newPlan, dif_pos hinput]
    · simp only [input, PlanInput.fields, hbs]
      rfl
  · rintro ⟨p, hp, rfl⟩
    exact meets_fields (p.accepted_of_valid (valid_of_newPlan hp))

theorem marshalPlan_eq_ok (sum : Bytes → Bytes) (hp : p.valid = true) :
    marshalPlan sum p = .ok data ↔
      data = p.input.fields.text sum Json.goEscape ∧ data.length ≤ maxPlanBytes := by
  rw [marshalPlan, if_neg (by simp [hp])]
  dsimp only
  rw [← PlanFields.text]
  split <;> grind

theorem python_encodePlan_eq_some (sum : Bytes → Bytes) :
    Python.encodePlan sum q = some data ↔
      data = q.fields.text sum Json.pythonEscape ∧ data.length ≤ maxPlanBytes := by
  rw [Python.encodePlan, python_digest, ← PlanFields.text]
  split <;> grind

theorem decodePlan_ok {sum : Bytes → Bytes} {D : Decoder StoredPlan.fill}
    (h : decodePlan sum D data = .ok p) :
    newPlan p.input = .ok p ∧
      ∃ s, D.decode data = .ok s ∧ s.digest = encodeHex (p.input.fields.digest sum) := by
  unfold decodePlan at h
  split at h
  · cases h
  · split at h
    · cases h
    · cases h
    next s hs =>
      obtain ⟨hnew, hdigest⟩ := StoredPlan.restore_digest h
      exact ⟨hnew, s, hs, hdigest⟩

theorem python_decodePlan_some {sum : Bytes → Bytes} {L : Library}
    (h : Python.decodePlan L sum data = some q) :
    ∃ v fields, L.loads data = some v ∧ v.exactly planNames = some fields ∧
      textField fields "plan_digest" = some (encodeHex (Python.digest sum q.fields)) := by
  unfold Python.decodePlan at h
  split at h
  · cases h
  · simp only [Option.bind_eq_bind, Option.bind_eq_some_iff] at h
    obtain ⟨v, hv, fields, hfields, h⟩ := h
    refine ⟨v, fields, hv, hfields, ?_⟩
    split at h
    · simp only [Option.bind_eq_some_iff] at h
      obtain ⟨-, -, -, -, -, -, -, -, -, -, -, -, -, -, plan, -, stored, hstored, h⟩ := h
      split at h
      · cases h
      next hdigest =>
        cases h
        rw [hstored, not_not.mp hdigest]
    · cases h

/-- The stored form of a plan is one codec in two languages: each writer returns its text if that
fits the limit, what either writer wrote, both readers read as the same plan, and what either
reader accepts is a plan `NewPlan` would accept, but for the syntax of its timestamps, with the
stored digest. -/
theorem plans_are_one_codec (sum : Bytes → Bytes) (D : Decoder StoredPlan.fill) (L : Library) :
    (∀ (p : FrozenPlan) (q : Python.FrozenPlan), newPlan p.input = .ok p →
      p.input.fields = q.fields →
      p.input.fields.digest sum = Python.digest sum q.fields ∧
      ((p.input.fields.text sum Json.goEscape).length ≤ maxPlanBytes →
        marshalPlan sum p = .ok (p.input.fields.text sum Json.goEscape)) ∧
      ((q.fields.text sum Json.pythonEscape).length ≤ maxPlanBytes →
        Python.encodePlan sum q = some (q.fields.text sum Json.pythonEscape)) ∧
      ∀ data, marshalPlan sum p = .ok data ∨ Python.encodePlan sum q = some data →
        decodePlan sum D data = .ok p ∧ Python.decodePlan L sum data = some q) ∧
    (∀ data p, decodePlan sum D data = .ok p →
      p.input.fields.meets (fun _ => true) = true ∧
        ∃ s, D.decode data = .ok s ∧ s.digest = encodeHex (p.input.fields.digest sum)) ∧
    ∀ data q, Python.decodePlan L sum data = some q →
      q.fields.meets (fun _ => true) = true ∧
        ∃ v fields, L.loads data = some v ∧ v.exactly planNames = some fields ∧
          textField fields "plan_digest" = some (encodeHex (Python.digest sum q.fields)) := by
  refine ⟨?_, ?_, ?_⟩
  · intro p q hnew hfields
    have hp := valid_of_newPlan hnew
    refine ⟨by rw [hfields, python_digest], fun hsize =>
      (marshalPlan_eq_ok sum hp).mpr ⟨rfl, hsize⟩,
      fun hsize => (python_encodePlan_eq_some sum).mpr ⟨rfl, hsize⟩, fun data hdata => ?_⟩
    obtain ⟨w, hw, rfl, hsize⟩ : ∃ w, Json.Standard w ∧ data = p.input.fields.text sum w ∧
        data.length ≤ maxPlanBytes := by
      rcases hdata with h | h
      · exact ⟨_, Json.standard_go, (marshalPlan_eq_ok sum hp).mp h⟩
      · exact ⟨_, Json.standard_python, hfields ▸ (python_encodePlan_eq_some sum).mp h⟩
    refine ⟨decodePlan_written sum D hw hp hsize, ?_⟩
    rw [hfields] at hsize ⊢
    exact python_decodePlan_written L sum hw q hsize
  · intro data p h
    obtain ⟨hnew, hstored⟩ := decodePlan_ok h
    exact ⟨meets_any (meets_iff.mpr ⟨p, hnew, rfl⟩), hstored⟩
  · intro data q h
    exact ⟨meets_any (meets_python q), python_decodePlan_some h⟩

namespace Sample

def noDigest : Bytes → Bytes := fun _ => zeroHash

def pythonPlan : Python.FrozenPlan :=
  ⟨(plan "a<b" "k").input.fields, by decide +kernel, by decide +kernel, by decide +kernel⟩

theorem size_text (w : Escape) (h : w = Json.goEscape ∨ w = Json.pythonEscape) :
    (pythonPlan.fields.text noDigest w).length ≤ maxPlanBytes := by
  rw [PlanFields.text, Json.length_bytes]
  rcases h with rfl | rfl <;> decide +kernel

end Sample

open Sample

/-- Each writer's text, through both readers; the writers differ on `<`. -/
theorem plans_are_one_codec_escaped :
    ∃ go python, marshalPlan noDigest (plan "a<b" "k") = .ok go ∧
      Python.encodePlan noDigest pythonPlan = some python ∧
      ∀ data ∈ [go, python],
        decodePlan noDigest default data = .ok (plan "a<b" "k") ∧
          Python.decodePlan default noDigest data = some pythonPlan := by
  obtain ⟨-, hgo, hpython, hread⟩ := (plans_are_one_codec noDigest default default).1
    (plan "a<b" "k") pythonPlan (by decide +kernel) rfl
  replace hgo := hgo (size_text _ (.inl rfl))
  replace hpython := hpython (size_text _ (.inr rfl))
  exact ⟨_, _, hgo, hpython, List.forall_mem_cons.mpr ⟨hread _ (.inl hgo),
    List.forall_mem_singleton.mpr (hread _ (.inr hpython))⟩⟩

end ReliableMessaging.Transaction
