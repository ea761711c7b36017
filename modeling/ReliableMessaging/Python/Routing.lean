import Mathlib.Data.Finset.Card
import ReliableMessaging.Transport.Routing

/-!
# Routes in Python

`python/src/reliable_messaging/transport.py`: the same three generations of
names and the same two lists as the Go transport, over `str` in place of byte
strings and with the checks in another order. A `RouteBinding` recomputes its
names when it is made; `validate_routes` then looks for duplicates in a set
before it fills its tables, and the resolver intersects the two lists' topics
before it looks at groups.
-/

namespace ReliableMessaging.Python

open Loops

structure RouteBinding where
  topic : String
  subscription : String := ""
  physicalTopic : String := ""
  consumerGroup : String := ""
  messageType : String := ""
  owner : String := ""
  routeRevision : String := ""
  namingScheme : String := ""
  deriving DecidableEq

structure RouteKey where
  topic : String
  messageType : String
  owner : String
  routeRevision : String
  deriving DecidableEq

/-- `_key`. -/
def keyFor (r : RouteBinding) : RouteKey := ⟨r.topic, r.messageType, r.owner, r.routeRevision⟩

def normalMessageType : String := "NORMAL"
def transactionMessageType : String := "TRANSACTION"
def readableNamingV1 : String := "readable-v1"

/-! ## Names -/

def isAlnum (c : Char) : Bool := ('a' ≤ c && c ≤ 'z') || ('0' ≤ c && c ≤ '9')

/-- The rest of a full match of `[a-z0-9]+(?:[.-][a-z0-9]+)*`; `token` says whether a letter or
digit came last. -/
def fullmatchRest (token : Bool) : List Char → Bool
  | [] => token
  | c :: rest =>
    if isAlnum c then fullmatchRest true rest
    else (c = '.' || c = '-') && token && fullmatchRest false rest

def fullmatch (field : String) : Bool := fullmatchRest false field.toList

/-- `v.replace(".", "-")`. -/
def dashed (field : String) : List Char := field.toList.map fun c => if c = '.' then '-' else c

def readableName (fields : List String) : Except String String :=
  if fields.any fun v => !fullmatch v then
    .error "readable fields require lowercase single-separated tokens"
  else
    let name := String.ofList (['-', '-'].intercalate (fields.map dashed))
    if (utf8 name).length > 64 then .error "readable resource exceeds 64 bytes" else .ok name

def physicalTopicV3 (topic messageType owner revision : String) : Except String String :=
  if messageType ≠ normalMessageType ∧ messageType ≠ transactionMessageType then
    .error "NORMAL or TRANSACTION required"
  else
    readableName [topic, if messageType = normalMessageType then "normal" else "tx", owner,
      revision]

def consumerGroupV3 (topic subscription : String) : Except String String :=
  readableName [topic, subscription]

/-- `"\0" in value`. -/
def hasNul (value : String) : Bool := value.toList.contains '\x00'

def fieldV2 (value : String) (limit : Nat) : Except String Bytes :=
  if value = "" ∨ hasNul value then .error "explicit v2 route field required"
  else if (utf8 value).length > limit then .error "v2 route field exceeds UTF-8 byte limit"
  else .ok (utf8 value)

section Digests

variable (sha256 : Bytes → Bytes)

/-- `hashlib.sha256(data).hexdigest()[:32]`. -/
def hexdigest (data : Bytes) : String := String.ofList ((Json.hexChars (sha256 data)).take 32)

def physicalTopic (topic : String) : String := "rmq_t_" ++ hexdigest sha256 (utf8 topic)

def consumerGroup (topic subscription : String) : String :=
  "rmq_g_" ++ hexdigest sha256 (utf8 (topic ++ "\x00" ++ subscription))

def digestV2 (domain : Bytes) (fields : List Bytes) : String :=
  hexdigest sha256 (domain ++ (fields.map field).flatten)

def physicalTopicV2 (topic messageType owner revision : String) : Except String String := do
  refuseIf (messageType ≠ normalMessageType ∧ messageType ≠ transactionMessageType)
    "NORMAL or TRANSACTION route type required"
  let topic ← fieldV2 topic 255
  let owner ← fieldV2 owner 128
  let revision ← fieldV2 revision 128
  return "rmq2_t_" ++ digestV2 sha256 (utf8 "rmq-topic-v2\x00")
    [topic, utf8 messageType, owner, revision]

def consumerGroupV2 (topic subscription : String) : Except String String := do
  let topic ← fieldV2 topic 255
  let subscription ← fieldV2 subscription 255
  return "rmq2_g_" ++ digestV2 sha256 (utf8 "rmq-group-v2\x00") [topic, subscription]

def expectedPhysicalTopic (topic messageType owner revision scheme : String) :
    Except String String :=
  if scheme = readableNamingV1 then physicalTopicV3 topic messageType owner revision
  else if scheme ≠ "" then .error "unknown route naming scheme"
  else if messageType ≠ "" then physicalTopicV2 sha256 topic messageType owner revision
  else if owner ≠ "" ∨ revision ≠ "" then .error "incomplete typed route"
  else .ok (physicalTopic sha256 topic)

/-- The `expected` group of `RouteBinding.__post_init__`. -/
def expectedConsumerGroup (r : RouteBinding) : Except String String :=
  if r.namingScheme = readableNamingV1 then
    if r.subscription ≠ "" then consumerGroupV3 r.topic r.subscription else .ok ""
  else if r.messageType ≠ "" then
    if r.subscription ≠ "" then consumerGroupV2 sha256 r.topic r.subscription else .ok ""
  else
    if r.subscription ≠ "" then .ok (consumerGroup sha256 r.topic r.subscription) else .ok ""

/-- `RouteBinding(…)`: the fields, if `__post_init__` lets them pass. -/
def RouteBinding.new (r : RouteBinding) : Except String RouteBinding := do
  refuseIf (r.topic = "" ∨ hasNul r.topic ∨ hasNul r.subscription)
    "logical topic/subscription required"
  let expectedTopic ← expectedPhysicalTopic sha256 r.topic r.messageType r.owner r.routeRevision
    r.namingScheme
  let expected ← expectedConsumerGroup sha256 r
  refuseIf (r.physicalTopic ≠ expectedTopic) "noncanonical physical topic"
  refuseIf (r.consumerGroup ≠ expected) "noncanonical consumer group"
  return r

end Digests

/-! ## Lists -/

section Tables

variable {κ ν : Type} [DecidableEq κ] [DecidableEq ν]

/-- `if table.setdefault(k, v) != v: raise`. -/
def setdefault (err : String) (table : κ → Option ν) (k : κ) (v : ν) :
    Except String (κ → Option ν) := do
  let (table, value) := match table k with
    | some old => (table, old)
    | none => (Function.update table k (some v), v)
  refuseIf (value ≠ v) err
  return table

/-- `setdefault` under an `if`. -/
def setdefaultIf (c : Prop) [Decidable c] (err : String) (table : κ → Option ν) (k : κ) (v : ν) :
    Except String (κ → Option ν) :=
  if c then setdefault err table k v else .ok table

end Tables

/-- What two bindings of one list may not share. -/
def rowKey (r : RouteBinding) : String × String × String × String × String :=
  (r.topic, r.subscription, r.messageType, r.owner, r.routeRevision)

structure Checked where
  topics : String → Option RouteKey := fun _ => none
  groups : String → Option (String × String) := fun _ => none

def validateRow (c : Checked) (r : RouteBinding) : Except String Checked := do
  let topics ← setdefault "physical topic collision" c.topics r.physicalTopic (keyFor r)
  let groups ← setdefaultIf (r.subscription ≠ "") "consumer group collision" c.groups
    r.consumerGroup (r.topic, r.subscription)
  return { topics, groups }

def validateRoutes (routes : List RouteBinding) : Except String Unit := do
  refuseIf (routes = [] ∨ (routes.map rowKey).toFinset.card ≠ routes.length)
    "explicit unique route bindings required"
  let _ ← routes.foldlM validateRow {}
  return ()

structure RouteResolver where
  active : List RouteBinding
  recorded : String → Option RouteBinding

/-- The first loop of `RouteResolver.__init__`. -/
def groupRow (logicalGroups : String × String → Option String) (r : RouteBinding) :
    Except String (String × String → Option String) :=
  setdefaultIf (r.consumerGroup ≠ "") "logical subscription mixes consumer group schemes"
    logicalGroups (r.topic, r.subscription) r.consumerGroup

/-- The tables of its second loop. -/
structure Recording where
  recorded : String → Option RouteBinding := fun _ => none
  groups : String → Option (String × String) := fun _ => none

def recordRow (s : Recording) (r : RouteBinding) : Except String Recording := do
  refuseIf (∃ old ∈ s.recorded r.physicalTopic, keyFor old ≠ keyFor r) "physical route collision"
  let groups ← setdefaultIf (r.consumerGroup ≠ "") "consumer group collision" s.groups
    r.consumerGroup (r.topic, r.subscription)
  return { recorded := Function.update s.recorded r.physicalTopic (some r), groups }

/-- `RouteResolver(active, historical)` of bindings that exist. -/
def RouteResolver.init (active historical : List RouteBinding) : Except String RouteResolver := do
  validateRoutes active
  (if historical ≠ [] then validateRoutes historical else .ok ())
  refuseIf (((active.map (·.physicalTopic)).toFinset ∩
    (historical.map (·.physicalTopic)).toFinset).Nonempty) "active/historical resource overlap"
  let _ ← active.foldlM groupRow fun _ => none
  let s ← (active ++ historical).foldlM recordRow {}
  return { active, recorded := s.recorded }

/-- The bindings of both lists are made, and the resolver of them. -/
def newRouteResolver (sha256 : Bytes → Bytes) (active historical : List RouteBinding) :
    Except String RouteResolver := do
  let active ← active.mapM (RouteBinding.new sha256)
  let historical ← historical.mapM (RouteBinding.new sha256)
  RouteResolver.init active historical

namespace RouteResolver

def publishRoute (r : RouteResolver) (key : RouteKey) : Except String RouteBinding :=
  match r.active.find? (keyFor · = key) with
  | some route => .ok route
  | none => .error "publishing route not in active manifest"

def recordedRoute (r : RouteResolver) (key : RouteKey) (physical : String) :
    Except String RouteBinding :=
  match r.recorded physical with
  | some route =>
    if keyFor route ≠ key then .error "recorded route not in trusted manifest" else .ok route
  | none => .error "recorded route not in trusted manifest"

def subscriptionRoutes (r : RouteResolver) (topic subscription : String) :
    Except String (List RouteBinding) :=
  let result := r.active.filter fun route =>
    (route.topic, route.subscription) = (topic, subscription) && route.consumerGroup ≠ ""
  if result = [] then .error "subscription not in active manifest" else .ok result

end RouteResolver

end ReliableMessaging.Python
