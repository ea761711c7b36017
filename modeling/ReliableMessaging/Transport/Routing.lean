import ReliableMessaging.Encoding.Json
import ReliableMessaging.Loops

/-!
# Routes of the RocketMQ transport

A route binds a logical topic, and for subscribers a logical subscription, to
the names the broker knows. The host lists its routes; `validateRoutes`
recomputes every name and `newRouteResolver` admits a list of active rows
beside a list of historical ones. Three generations of names live side by
side: digests of the topic, digests of the typed route, and readable names.
-/

namespace ReliableMessaging.Transport

open Loops

/-- Host-reviewed configuration, never data supplied by a message. -/
structure RouteBinding where
  topic : Bytes
  subscription : Bytes := []
  physicalTopic : Bytes
  consumerGroup : Bytes := []
  messageType : Bytes := []
  owner : Bytes := []
  routeRevision : Bytes := []
  namingScheme : Bytes := []
  deriving DecidableEq

structure RouteKey where
  topic : Bytes
  messageType : Bytes
  owner : Bytes
  routeRevision : Bytes
  deriving DecidableEq

def keyFor (r : RouteBinding) : RouteKey := ⟨r.topic, r.messageType, r.owner, r.routeRevision⟩

def normalMessageType : Bytes := utf8 "NORMAL"
def transactionMessageType : Bytes := utf8 "TRANSACTION"
def readableNamingV1 : Bytes := utf8 "readable-v1"

/-! ## Names -/

def isAlnum (b : UInt8) : Bool :=
  ('a'.toUInt8 ≤ b && b ≤ 'z'.toUInt8) || ('0'.toUInt8 ≤ b && b ≤ '9'.toUInt8)

def isSeparator (b : UInt8) : Bool := b = '.'.toUInt8 || b = '-'.toUInt8

/-- The rest of a match of `^[a-z0-9]+([.-][a-z0-9]+)*$`; `token` says whether a letter or digit
came last. -/
def readableRest (token : Bool) : Bytes → Bool
  | [] => token
  | b :: rest =>
    if isAlnum b then readableRest true rest
    else isSeparator b && token && readableRest false rest

def readableField (field : Bytes) : Bool := readableRest false field

def readablePart (field : Bytes) : Bytes :=
  field.map fun b => if b = '.'.toUInt8 then '-'.toUInt8 else b

def readableName (fields : List Bytes) : Except String Bytes :=
  if !fields.all readableField then
    .error "readable route requires lowercase single-separated tokens"
  else
    let name := (utf8 "--").intercalate (fields.map readablePart)
    if name.length > 64 then .error "readable resource exceeds 64 bytes" else .ok name

def physicalTopicV3 (topic messageType owner revision : Bytes) : Except String Bytes :=
  if messageType = normalMessageType then readableName [topic, utf8 "normal", owner, revision]
  else if messageType = transactionMessageType then readableName [topic, utf8 "tx", owner, revision]
  else .error "NORMAL or TRANSACTION required"

def consumerGroupV3 (topic subscription : Bytes) : Except String Bytes :=
  readableName [topic, subscription]

def routeField (value : Bytes) (limit : Nat) : Bool :=
  value ≠ [] && value.length ≤ limit && ByteArray.validateUTF8 ⟨value.toArray⟩ && !value.contains 0

section Digests

variable (sha256 : Bytes → Bytes)

/-- The first sixteen bytes of a digest in hexadecimal. -/
def shortDigest (bytes : Bytes) : Bytes :=
  utf8 (String.ofList (Json.hexChars ((sha256 bytes).take 16)))

def routeDigest (value : Bytes) : Bytes := shortDigest sha256 value

def routeDigestV2 (domain : Bytes) (fields : List Bytes) : Bytes :=
  shortDigest sha256 (domain ++ (fields.map field).flatten)

def physicalTopic (topic : Bytes) : Bytes := utf8 "rmq_t_" ++ routeDigest sha256 topic

def consumerGroup (topic subscription : Bytes) : Bytes :=
  utf8 "rmq_g_" ++ routeDigest sha256 (topic ++ [0] ++ subscription)

def physicalTopicV2 (topic messageType owner revision : Bytes) : Except String Bytes :=
  if !routeField topic 255 || !routeField owner 128 || !routeField revision 128 ||
      (messageType ≠ normalMessageType && messageType ≠ transactionMessageType) then
    .error "invalid v2 topic identity"
  else
    .ok (utf8 "rmq2_t_" ++
      routeDigestV2 sha256 (utf8 "rmq-topic-v2\x00") [topic, messageType, owner, revision])

def consumerGroupV2 (topic subscription : Bytes) : Except String Bytes :=
  if !routeField topic 255 || !routeField subscription 255 then
    .error "invalid v2 subscription identity"
  else
    .ok (utf8 "rmq2_g_" ++ routeDigestV2 sha256 (utf8 "rmq-group-v2\x00") [topic, subscription])

def expectedPhysicalTopic (topic messageType owner revision scheme : Bytes) :
    Except String Bytes :=
  if scheme = readableNamingV1 then physicalTopicV3 topic messageType owner revision
  else if scheme = [] then
    if messageType = [] then
      if owner ≠ [] || revision ≠ [] then .error "incomplete typed route"
      else .ok (physicalTopic sha256 topic)
    else physicalTopicV2 sha256 topic messageType owner revision
  else .error "unknown route naming scheme"

def expectedConsumerGroup (r : RouteBinding) : Except String Bytes :=
  if r.subscription = [] then .ok []
  else if r.namingScheme = readableNamingV1 then consumerGroupV3 r.topic r.subscription
  else if r.namingScheme ≠ [] then .error "unknown route naming scheme"
  else if r.messageType ≠ [] then consumerGroupV2 sha256 r.topic r.subscription
  else .ok (consumerGroup sha256 r.topic r.subscription)

/-! ## The two validation loops -/

structure Checked where
  seen : Bytes × Bytes × Bytes × Bytes × Bytes → Bool := fun _ => false
  physical : Bytes → Option RouteKey := fun _ => none
  groups : Bytes → Option (Bytes × Bytes) := fun _ => none

def validateRow (c : Checked) (r : RouteBinding) : Except String Checked := do
  let expected ← expectedPhysicalTopic sha256 r.topic r.messageType r.owner r.routeRevision
    r.namingScheme
  let group ← expectedConsumerGroup sha256 r
  refuseIf (r.topic = [] ∨ r.topic.contains 0 ∨ r.subscription.contains 0 ∨
    r.physicalTopic ≠ expected ∨ r.consumerGroup ≠ group) "invalid canonical route binding"
  let key := (r.topic, r.subscription, r.messageType, r.owner, r.routeRevision)
  refuseIf (c.seen key) "duplicate route binding"
  let physical ← claim "physical topic collision" c.physical r.physicalTopic (keyFor r)
  let groups ← claimIf (r.subscription ≠ []) "consumer group collision" c.groups r.consumerGroup
    (r.topic, r.subscription)
  return { seen := Function.update c.seen key true, physical, groups }

def validateRoutes (routes : List RouteBinding) : Except String Unit := do
  refuseIf (routes = []) "explicit route bindings required"
  let _ ← routes.foldlM (validateRow sha256) {}
  return ()

/-- The tables of `newRouteResolver`; `physical` is of the list being read. -/
structure Resolving where
  recorded : Bytes → Option RouteBinding := fun _ => none
  groups : Bytes → Option (Bytes × Bytes) := fun _ => none
  logicalGroups : Bytes × Bytes → Option Bytes := fun _ => none
  physical : Bytes → Bool := fun _ => false

/-- A broker topic recorded by another list than the one being read is refused. -/
def refuseOverlap (s : Resolving) (row : RouteBinding) : Except String Unit :=
  match s.recorded row.physicalTopic with
  | some previous =>
    if s.physical row.physicalTopic then .ok ()
    else if keyFor previous ≠ keyFor row ∨ previous.namingScheme ≠ row.namingScheme then
      .error "route identity collision"
    else .error "active/historical resource overlap"
  | none => .ok ()

/-- One row of the active (`first`) or of the historical list. -/
def resolveRow (first : Bool) (s : Resolving) (row : RouteBinding) : Except String Resolving := do
  refuseOverlap s row
  let identity := (row.topic, row.subscription)
  let logicalGroups ← claimIf (row.consumerGroup ≠ [] ∧ first = true)
    "logical subscription mixes consumer group schemes" s.logicalGroups identity row.consumerGroup
  let groups ← claimIf (row.consumerGroup ≠ []) "consumer group collision" s.groups
    row.consumerGroup identity
  return {
    recorded := Function.update s.recorded row.physicalTopic (some row)
    groups
    logicalGroups
    physical := Function.update s.physical row.physicalTopic true }

def resolveList (first : Bool) (s : Resolving) (list : List RouteBinding) :
    Except String Resolving :=
  list.foldlM (resolveRow first) { s with physical := fun _ => false }

structure RouteResolver where
  active : List RouteBinding
  recorded : Bytes → Option RouteBinding

def newRouteResolver (active historical : List RouteBinding) : Except String RouteResolver := do
  validateRoutes sha256 active
  (if historical ≠ [] then validateRoutes sha256 historical else .ok ())
  let s ← resolveList true {} active
  let s ← resolveList false s historical
  return { active, recorded := s.recorded }

structure RouteManifest where
  version : Int
  routes : List RouteBinding
  historicalRoutes : List RouteBinding

/-- The naming a manifest of this version may use for its active rows. -/
def RouteManifest.codecDiffers (m : RouteManifest) (row : RouteBinding) : Bool :=
  (m.version = 1 && (row.messageType ≠ [] || row.namingScheme ≠ [])) ||
  (m.version = 2 && (row.messageType = [] || row.namingScheme ≠ [])) ||
  (m.version = 3 && (row.messageType = [] || row.namingScheme ≠ readableNamingV1))

/-- `unmarshal` is the library's JSON decoder. -/
def parseRouteManifest (unmarshal : Bytes → Option RouteManifest) (raw : Bytes) :
    Except String RouteManifest := do
  refuseIf (raw = [] ∨ raw.length > 2 ^ 20) "unsupported route manifest"
  let m ← (unmarshal raw).elim (.error "unsupported route manifest") .ok
  refuseIf (m.version < 1 ∨ m.version > 3) "unsupported route manifest"
  refuseIf (m.routes.any m.codecDiffers) "route codec differs from manifest version"
  refuseIf (m.version ≠ 3 ∧ m.historicalRoutes ≠ []) "historical routes require manifest v3"
  refuseIf (m.historicalRoutes.any fun row => row.messageType = [] || row.namingScheme ≠ [])
    "historical typed hash route required"
  let _ ← newRouteResolver sha256 m.routes m.historicalRoutes
  return m

end Digests

namespace RouteResolver

def publishRoute (r : RouteResolver) (key : RouteKey) : Except String RouteBinding :=
  match r.active.find? (keyFor · = key) with
  | some row => .ok row
  | none => .error "publishing route not in active manifest"

def recordedRoute (r : RouteResolver) (key : RouteKey) (physical : Bytes) :
    Except String RouteBinding :=
  match r.recorded physical with
  | some row => if keyFor row = key then .ok row else .error "recorded route not in trusted manifest"
  | none => .error "recorded route not in trusted manifest"

def subscriptionRoutes (r : RouteResolver) (topic subscription : Bytes) :
    Except String (List RouteBinding) :=
  let out := r.active.filter fun row =>
    row.topic = topic && row.subscription = subscription && row.consumerGroup ≠ []
  if out = [] then .error "subscription not in active manifest" else .ok out

end RouteResolver

end ReliableMessaging.Transport
