import ReliableMessaging.Encoding.JsonLibraries
import ReliableMessaging.Loops
import ReliableMessaging.Python.Store
import ReliableMessaging.Sender.Execute

/-!
# References on the wire

A half message carries its reference as JSON, and whoever checks it decodes it:
a Go sender what a Python sender wrote, and the other way round. The writers
differ in their escapes, the readers in how they treat unknown, missing and
repeated fields; what one of the writers wrote, both readers read
(`references_survive_the_broker`), and the checkers come to the same decision.
-/

namespace ReliableMessaging.Transaction

open Json (Escape Value Decoder Library textField)

/-- The digests of a reference are digests: `[32]byte`, or what `_hash` checks. -/
def Reference.hashed (r : Reference) : Bool :=
  r.planDigest.length = 32 && r.wireHash.length = 32 && r.messageFingerprint.length = 32

inductive CodecErr
  | invalidPlan
  | json
  | message

/-! ## Go -/

def marshalReference (r : Reference) : Except Err Bytes :=
  (encodeReference Json.goEscape r).map fun r => Json.bytes (storedReference Json.goEscape r)

/-- The fields of `storedReference`, by their names in JSON. -/
structure StoredReference where
  owner : String
  scope : String
  operation : String
  branch : String
  message : String
  logical : String
  physical : String
  revision : String
  epoch : String
  plan : String
  wire : String
  fingerprint : String
  fence : Nat

def referenceNames : List String :=
  ["owner", "scope", "operation_id", "branch_id", "message_id", "logical_topic", "physical_topic",
    "route_revision", "writer_epoch", "plan_digest", "wire_hash", "message_fingerprint", "fence"]

/-- A `uint64`. -/
def uint64 : Value → Option Nat
  | .integer (.ofNat n) => if n < 2 ^ 64 then some n else none
  | _ => none

def StoredReference.fill (v : Value) : Option StoredReference := do
  let fields ← v.once referenceNames
  let owner ← textField fields "owner"
  let scope ← textField fields "scope"
  let operation ← textField fields "operation_id"
  let branch ← textField fields "branch_id"
  let message ← textField fields "message_id"
  let logical ← textField fields "logical_topic"
  let physical ← textField fields "physical_topic"
  let revision ← textField fields "route_revision"
  let epoch ← textField fields "writer_epoch"
  let plan ← textField fields "plan_digest"
  let wire ← textField fields "wire_hash"
  let fingerprint ← textField fields "message_fingerprint"
  let fence ← (fields.lookup "fence").bind uint64
  some ⟨owner, scope, operation, branch, message, logical, physical, revision, epoch, plan, wire,
    fingerprint, fence⟩

def decodeDigest (text : String) : Except CodecErr Bytes :=
  match decodeHex text with
  | some h => if h.length = 32 then .ok h else .error .invalidPlan
  | none => .error .invalidPlan

def decodeReference (D : Decoder StoredReference.fill) (data : Bytes) :
    Except CodecErr Reference :=
  if data.length = 0 ∨ data.length > maxReferenceBytes then .error .invalidPlan
  else match D.decode data with
    | .error .malformed => .error .json
    | .error .trailing => .error .invalidPlan
    | .ok s => do
      let plan ← decodeDigest s.plan
      let wire ← decodeDigest s.wire
      let fingerprint ← decodeDigest s.fingerprint
      let r : Reference := ⟨s.owner, s.scope, s.operation, s.branch, s.message, s.logical,
        s.physical, s.revision, s.epoch, plan, wire, fingerprint, s.fence⟩
      if !r.valid then .error .invalidPlan else .ok r

/-- `checkMessage`, without its counters; `found` is what the store's `Evidence` gave in time. -/
def checkMessage (D : Decoder StoredReference.fill) (H : Sha256) (config : Sender.Config)
    (found : Reference → Option (Option Evidence)) (physical : String) (raw body : Bytes) :
    Decision :=
  match decodeReference D raw, config.routes physical with
  | .ok ref, some route =>
    if ref.owner ≠ config.owner || ref.physicalTopic ≠ physical ||
        ref.logicalTopic ≠ route.logicalTopic || ref.routeRevision ≠ route.revision ||
        body.length = 0 || body.length > 262144 || H.sum body ≠ ref.wireHash then
      .unknown
    else match found ref with
      | some evidence => resolve ref evidence
      | none => .unknown
  | _, _ => .unknown

end ReliableMessaging.Transaction

namespace ReliableMessaging.Python

open Json (Value Library textField)
open Transaction

def encodeReference (r : Reference) : Option Bytes :=
  let data := Json.bytes (storedReference Json.pythonEscape r)
  if data.length > 8192 then none else some data

/-- `Reference.__post_init__`. -/
def newReference (r : Reference) : Option Reference :=
  if required [r.owner, r.scope, r.operationID, r.branchID, r.messageID, r.logicalTopic,
      r.physicalTopic, r.routeRevision, r.writerEpoch] && 0 < r.fence && r.fence ≤ maxFence &&
      r.planDigest.length = 32 && r.wireHash.length = 32 && r.messageFingerprint.length = 32 then
    some r
  else none

/-- An `int` that is not negative; `True` is none. -/
def natural : Value → Option Nat
  | .integer (.ofNat n) => some n
  | _ => none

/-- `decode_reference`; the call of `Reference` takes every name once. -/
def decodeReference (L : Library) (data : Bytes) : Option Reference := do
  if data.length = 0 ∨ data.length > 8192 then none
  else
    let values ← L.loads data
    let fields ← values.exactly referenceNames
    let plan ← (textField fields "plan_digest").bind fromhex
    let wire ← (textField fields "wire_hash").bind fromhex
    let fingerprint ← (textField fields "message_fingerprint").bind fromhex
    let owner ← textField fields "owner"
    let scope ← textField fields "scope"
    let operation ← textField fields "operation_id"
    let branch ← textField fields "branch_id"
    let message ← textField fields "message_id"
    let logical ← textField fields "logical_topic"
    let physical ← textField fields "physical_topic"
    let revision ← textField fields "route_revision"
    let epoch ← textField fields "writer_epoch"
    let fence ← (fields.lookup "fence").bind natural
    newReference ⟨owner, scope, operation, branch, message, logical, physical, revision, epoch,
      plan, wire, fingerprint, fence⟩

/-- `_check`, without its counters; `found` is what the store's `evidence` gave in time. -/
def check (L : Library) (H : Sha256) (config : Sender.Config)
    (found : Reference → Option (Option Evidence)) (topic : String) (property body : Bytes) :
    Decision :=
  match decodeReference L property, config.routes topic with
  | some ref, some route =>
    if ref.owner ≠ config.owner || ref.physicalTopic ≠ topic ||
        ref.logicalTopic ≠ route.logicalTopic || ref.routeRevision ≠ route.revision ||
        body.length > 262144 || H.sum body ≠ ref.wireHash then
      .unknown
    else match found ref with
      | some evidence => resolve ref evidence
      | none => .unknown
  | _, _ => .unknown

end ReliableMessaging.Python

namespace ReliableMessaging.Transaction

open Json (Escape Value Decoder Library textField)

/-! ## What is written is read -/

/-- A reference as both writers lay it out. -/
def referenceFields (r : Reference) : List (String × Value) :=
  [("owner", .string r.owner), ("scope", .string r.scope),
    ("operation_id", .string r.operationID), ("branch_id", .string r.branchID),
    ("message_id", .string r.messageID), ("logical_topic", .string r.logicalTopic),
    ("physical_topic", .string r.physicalTopic), ("route_revision", .string r.routeRevision),
    ("writer_epoch", .string r.writerEpoch), ("plan_digest", .string (encodeHex r.planDigest)),
    ("wire_hash", .string (encodeHex r.wireHash)),
    ("message_fingerprint", .string (encodeHex r.messageFingerprint)), ("fence", .integer r.fence)]

def referenceValue (r : Reference) : Value := .object (referenceFields r)

theorem exactly_referenceValue (r : Reference) :
    (referenceValue r).exactly referenceNames = some (referenceFields r) :=
  Value.exactly_object rfl

theorem quote_encodeHex (w : Escape) (b : Bytes) : Json.quote w (encodeHex b) = Json.hex w b := by
  rw [Json.quote, encodeHex, String.toList_ofList, Json.hex]

theorem storedReference_eq (w : Escape) (r : Reference) :
    storedReference w r = Json.render w (referenceValue r) := by
  simp only [storedReference, referenceValue, referenceFields, Json.render, Json.renderFields,
    quote_encodeHex]
  rfl

theorem fence_lt {r : Reference} (hv : r.valid = true) : r.fence < 2 ^ 64 := by
  simp only [Reference.valid, Bool.and_eq_true, decide_eq_true_eq] at hv
  have hmax := hv.1.2
  unfold maxFence at hmax
  omega

theorem modest_referenceValue {r : Reference} (hv : r.valid = true) :
    (referenceValue r).Modest 64 := by
  refine ⟨(by decide : referenceNames.Nodup), ?_⟩
  simpa [referenceFields, Value.Modest] using fence_lt hv

theorem fill_referenceValue {r : Reference} (hv : r.valid = true) :
    StoredReference.fill (referenceValue r) = some ⟨r.owner, r.scope, r.operationID, r.branchID,
      r.messageID, r.logicalTopic, r.physicalTopic, r.routeRevision, r.writerEpoch,
      encodeHex r.planDigest, encodeHex r.wireHash, encodeHex r.messageFingerprint, r.fence⟩ := by
  have hnumber : uint64 (.integer r.fence) = some r.fence := if_pos (fence_lt hv)
  have honce : (referenceValue r).once referenceNames = some (referenceFields r) :=
    Value.once_object rfl (by decide)
  rw [StoredReference.fill, honce, Option.bind_eq_bind, Option.bind_some]
  simp [textField, referenceFields, List.lookup_cons, Value.text, hnumber]

theorem decodeDigest_encodeHex {b : Bytes} (h : b.length = 32) :
    decodeDigest (encodeHex b) = .ok b := by
  rw [decodeDigest, decodeHex_encodeHex]
  exact if_pos h

theorem length_storedReference (w : Escape) (r : Reference) :
    (Json.bytes (storedReference w r)).length ≠ 0 := by
  rw [storedReference_eq]
  exact Json.length_render_object w _

section

variable {w : Escape} {r : Reference}

theorem decodeReference_stored (D : Decoder StoredReference.fill) (hw : Json.Standard w)
    (hv : r.valid = true) (hh : r.hashed = true)
    (hsize : (Json.bytes (storedReference w r)).length ≤ maxReferenceBytes) :
    decodeReference D (Json.bytes (storedReference w r)) = .ok r := by
  have hread := D.decode_render hw (modest_referenceValue hv) (fill_referenceValue hv)
  rw [← storedReference_eq] at hread
  simp only [Reference.hashed, Bool.and_eq_true, decide_eq_true_eq] at hh
  rw [decodeReference, if_neg (not_or.mpr ⟨length_storedReference w r, by omega⟩), hread]
  simp only [decodeDigest_encodeHex hh.1.1, decodeDigest_encodeHex hh.1.2,
    decodeDigest_encodeHex hh.2]
  simp [bind, Except.bind, hv]

theorem python_decodeReference_stored (L : Library) (hw : Json.Standard w) (hv : r.valid = true)
    (hh : r.hashed = true) (hsize : (Json.bytes (storedReference w r)).length ≤ 8192) :
    Python.decodeReference L (Json.bytes (storedReference w r)) = some r := by
  have hread : L.loads (Json.bytes (storedReference w r)) = some (referenceValue r) := by
    rw [storedReference_eq]
    exact L.loads_render hw (modest_referenceValue hv)
  have hfence : Python.natural (.integer r.fence) = some r.fence := rfl
  have hnew : Python.newReference r = some r := by
    simp only [Reference.hashed, Reference.valid, Bool.and_eq_true, decide_eq_true_eq] at hh hv
    exact if_pos (by simp [hh, hv])
  rw [Python.decodeReference, if_neg (not_or.mpr ⟨length_storedReference w r, by omega⟩), hread,
    Option.bind_eq_bind, Option.bind_some, exactly_referenceValue, Option.bind_eq_bind,
    Option.bind_some]
  simp only [textField, referenceFields, List.lookup_cons, String.reduceBEq,
    Option.bind_eq_bind, Option.bind_some, Value.text, fromhex_encodeHex, hfence]
  exact hnew

end

theorem resolve_eq_python {r : Reference} (hv : r.valid = true) (evidence : Option Evidence) :
    resolve r evidence = Python.resolve r evidence := by
  cases evidence with
  | none => rfl
  | some ev => simp [resolve, Python.resolve, hv]

theorem check_eq_python {D : Decoder StoredReference.fill} {L : Library} (H : Sha256)
    {data : Bytes} {r : Reference} (hv : r.valid = true) (hgo : decodeReference D data = .ok r)
    (hpython : Python.decodeReference L data = some r) (config : Sender.Config)
    (found : Reference → Option (Option Evidence)) (topic : String) {body : Bytes}
    (hbody : body ≠ []) :
    checkMessage D H config found topic data body = Python.check L H config found topic data body := by
  have hlength : body.length ≠ 0 := fun h => hbody (List.length_eq_zero_iff.mp h)
  rw [checkMessage, Python.check, hgo, hpython]
  cases config.routes topic with
  | none => rfl
  | some route => simp [hlength, resolve_eq_python hv]

theorem marshalReference_ok {r : Reference} {data : Bytes} (h : marshalReference r = .ok data) :
    data = Json.bytes (storedReference Json.goEscape r) ∧ data.length ≤ maxReferenceBytes := by
  obtain ⟨s, hs, hdata⟩ := Loops.bind_ok (x := encodeReference Json.goEscape r)
    (f := fun r => .ok (Json.bytes (storedReference Json.goEscape r))) h
  obtain ⟨rfl, hsize⟩ := encodeReference_size hs
  have heq := (Except.ok.inj hdata).symm
  exact ⟨heq, by rw [heq, Json.length_bytes]; exact hsize⟩

theorem python_encodeReference_some {r : Reference} {data : Bytes}
    (h : Python.encodeReference r = some data) :
    data = Json.bytes (storedReference Json.pythonEscape r) ∧ data.length ≤ 8192 := by
  simp only [Python.encodeReference, Option.ite_none_left_eq_some, Nat.not_lt,
    Option.some.injEq] at h
  exact ⟨h.2.symm, h.2 ▸ h.1⟩

/-- What either writer wrote, both readers read as the same reference, and both checkers come to
the same decision about a half message that carries it. -/
theorem references_survive_the_broker (D : Decoder StoredReference.fill) (L : Library) (H : Sha256)
    {r : Reference} (hv : r.valid = true) (hh : r.hashed = true) {data : Bytes}
    (hdata : marshalReference r = .ok data ∨ Python.encodeReference r = some data) :
    decodeReference D data = .ok r ∧ Python.decodeReference L data = some r ∧
      (∀ evidence, resolve r evidence = Python.resolve r evidence) ∧
      ∀ config found topic body, body ≠ [] →
        checkMessage D H config found topic data body =
          Python.check L H config found topic data body := by
  have hread : decodeReference D data = .ok r ∧ Python.decodeReference L data = some r := by
    rcases hdata with h | h
    · obtain ⟨heq, hsize⟩ := marshalReference_ok h
      rw [heq] at hsize ⊢
      exact ⟨decodeReference_stored D Json.standard_go hv hh hsize,
        python_decodeReference_stored L Json.standard_go hv hh hsize⟩
    · obtain ⟨heq, hsize⟩ := python_encodeReference_some h
      rw [heq] at hsize ⊢
      exact ⟨decodeReference_stored D Json.standard_python hv hh hsize,
        python_decodeReference_stored L Json.standard_python hv hh hsize⟩
  exact ⟨hread.1, hread.2, resolve_eq_python hv,
    fun config found topic body => check_eq_python H hv hread.1 hread.2 config found topic⟩

namespace Sample

def escaped : Reference where
  owner := "orders<eu>"
  scope := "scope:global"
  operationID := "op-1"
  branchID := "b-1"
  messageID := "m-1"
  logicalTopic := "orders"
  physicalTopic := "orders-v1"
  routeRevision := "r-1"
  writerEpoch := "e-1"
  fence := 7

def go : Bytes := Json.bytes (storedReference Json.goEscape escaped)

def python : Bytes := Json.bytes (storedReference Json.pythonEscape escaped)

theorem written_escaped :
    marshalReference escaped = .ok go ∧ Python.encodeReference escaped = some python := by
  constructor
  · rw [marshalReference, encodeReference, if_neg (by decide), if_neg (by decide +kernel)]
    rfl
  · rw [Python.encodeReference, if_neg (by decide +kernel)]
    rfl

end Sample

open Sample

/-- Each writer's text, through both readers; the writers differ on `<`. -/
theorem references_survive_the_broker_escaped :
    marshalReference escaped = .ok go ∧ Python.encodeReference escaped = some python ∧
      ∀ data ∈ [go, python], decodeReference default data = .ok escaped ∧
        Python.decodeReference default data = some escaped := by
  have hread : ∀ data, marshalReference escaped = .ok data ∨
      Python.encodeReference escaped = some data →
      decodeReference default data = .ok escaped ∧
        Python.decodeReference default data = some escaped := fun data hdata =>
    have h := references_survive_the_broker default default default (by decide) (by decide) hdata
    ⟨h.1, h.2.1⟩
  obtain ⟨hgo, hpython⟩ := written_escaped
  exact ⟨hgo, hpython, List.forall_mem_cons.mpr ⟨hread _ (.inl hgo),
    List.forall_mem_singleton.mpr (hread _ (.inr hpython))⟩⟩

end ReliableMessaging.Transaction
