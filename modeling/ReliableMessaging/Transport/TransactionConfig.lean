import Mathlib.Tactic.Linarith
import Mathlib.Tactic.Ring
import ReliableMessaging.Encoding.JsonSizes
import ReliableMessaging.Transaction.Plans
import ReliableMessaging.Transport.Resolver

/-!
# The configuration of the transactional sender

`validateTransactionConfig` and `validatePlan` of the RocketMQ transport: the
sender takes routes whose broker topics carry the names their other fields
determine, and plans whose branches go over such routes.
-/

namespace ReliableMessaging.Transport

open Loops Json
open Transaction (Binding BranchInput FrozenPlan PlanInput Reference newPlan)

/-! ## The configuration -/

structure TransactionRoute where
  logicalTopic : Bytes
  physicalTopic : Bytes
  revision : Bytes
  namingScheme : Bytes := []

/-- `transaction.Limits`, with times in nanoseconds. -/
structure TransactionLimits where
  sends : Int := 0
  branches : Int := 0
  checkWorkers : Int := 0
  checkQueue : Int := 0
  reconcileBatch : Int := 0
  checkTimeout : Int := 0
  rpcTimeout : Int := 0
  lease : Int := 0
  reconcileInterval : Int := 0
deriving DecidableEq

def second : Int := 1000000000

def defaultLimits : TransactionLimits :=
  ⟨8, 16, 4, 32, 100, 2 * second, 5 * second, 60 * second, 5 * second⟩

def TransactionLimits.valid (l : TransactionLimits) : Bool :=
  l.sends > 0 && l.sends ≤ 1024 && l.branches > 0 && l.branches ≤ Transaction.maxBranches &&
    l.checkWorkers > 0 && l.checkWorkers ≤ 128 && l.checkQueue ≥ 0 && l.checkQueue ≤ 10000 &&
    l.reconcileBatch > 0 && l.reconcileBatch ≤ 1000 && l.checkTimeout > 0 && l.rpcTimeout > 0 &&
    l.lease > l.rpcTimeout && l.lease ≥ 1000000 && l.lease ≤ 24 * 3600 * second &&
    l.reconcileInterval > 0

structure TransactionConfig where
  /-- `InsecureSkipVerify`, if there is a TLS configuration. -/
  tls : Option Bool := none
  endpoint : Bytes
  accessKey : Bytes
  secretKey : Bytes
  owner : Bytes
  routes : List TransactionRoute
  historicalRoutes : List TransactionRoute := []
  limits : TransactionLimits := {}

inductive ConfigErr
  | binding
  | insecure

/-- What the check of the endpoint takes from Go's libraries. -/
structure Net where
  splitHostPort : Bytes → Option (Bytes × Bytes)
  atoi : Bytes → Option Int

structure Listed where
  physical : Bytes → Bool := fun _ => false
  logical : Bytes × Bytes → Bool := fun _ => false

section Validation

variable (net : Net) (sha256 : Bytes → Bytes)

def listRoute (owner : Bytes) (l : Listed) (r : TransactionRoute) : Except ConfigErr Listed := do
  let expected ← (expectedPhysicalTopic sha256 r.logicalTopic transactionMessageType owner
    r.revision r.namingScheme).mapError fun _ => .binding
  refuseIf (r.physicalTopic ≠ expected) .binding
  refuseIf (r.logicalTopic = [] ∨ r.physicalTopic = [] ∨ r.revision = [] ∨
    l.physical r.physicalTopic ∨ l.logical (r.logicalTopic, r.revision)) .binding
  return {
    physical := Function.update l.physical r.physicalTopic true
    logical := Function.update l.logical (r.logicalTopic, r.revision) true }

def TransactionRoute.row (owner : Bytes) (r : TransactionRoute) : RouteBinding where
  topic := r.logicalTopic
  physicalTopic := r.physicalTopic
  messageType := transactionMessageType
  owner := owner
  routeRevision := r.revision
  namingScheme := r.namingScheme

def validateTransactionConfig (c : TransactionConfig) (store : Option Binding) :
    Except ConfigErr TransactionConfig := do
  let (host, port) ← (net.splitHostPort c.endpoint).elim (.error .binding) .ok
  refuseIf (host = []) .binding
  let n ← (net.atoi port).elim (.error .binding) .ok
  refuseIf (n < 1 ∨ n > 65535) .binding
  let limits := if c.limits = {} then defaultLimits else c.limits
  let store ← store.elim (.error .binding) .ok
  refuseIf (limits.valid = false ∨ c.owner = [] ∨ utf8 store.owner ≠ c.owner ∨ c.accessKey = [] ∨
    c.secretKey = [] ∨ c.routes = [] ∨ c.routes.length > 256) .binding
  let insecure := c.tls.getD false
  refuseIf (insecure = true) .insecure
  let _ ← c.routes.foldlM (listRoute sha256 c.owner) {}
  refuseIf (c.historicalRoutes.length > 256) .binding
  let _ ← (newRouteResolver sha256 (c.routes.map (·.row c.owner))
    (c.historicalRoutes.map (·.row c.owner))).mapError fun _ => .binding
  return { c with limits, tls := some insecure }

/-- What `validatePlan` reads of the sender. -/
structure TransactionalSender where
  config : TransactionConfig
  routes : Bytes → Option TransactionRoute

def addRoute (m : Bytes → Option TransactionRoute) (r : TransactionRoute) :
    Bytes → Option TransactionRoute :=
  Function.update m r.physicalTopic (some r)

def newTransactionalSender (c : TransactionConfig) (store : Option Binding) :
    Except ConfigErr TransactionalSender := do
  let c ← validateTransactionConfig net sha256 c store
  return {
    config := c
    routes := c.routes.foldl addRoute fun _ => none }

end Validation

def TransactionalSender.routed (s : TransactionalSender) (b : BranchInput) : Bool :=
  match s.routes (utf8 b.physicalTopic) with
  | some r =>
    r.logicalTopic = utf8 b.message.input.destination && r.revision = utf8 b.routeRevision &&
      b.wire.length ≤ 262144
  | none => false

def TransactionalSender.validatePlan (s : TransactionalSender) (p : FrozenPlan) :
    Except Transaction.Err Unit :=
  if !p.valid || utf8 p.input.owner ≠ s.config.owner ||
      (p.input.branches.length : Int) > s.config.limits.branches then .error .invalidPlan
  else if p.input.branches.all s.routed then .ok () else .error .binding

/-! ## Broker topics are short and plain -/

section Names

def isNameByte (b : UInt8) : Bool := isAlnum b || b = '-'.toUInt8 || b = '_'.toUInt8

variable {field name : Bytes}

theorem isNameByte_of_readableRest {token : Bool} (h : readableRest token field = true) :
    ∀ b ∈ field, isAlnum b = true ∨ isSeparator b = true := by
  induction field generalizing token with
  | nil => nofun
  | cons b rest ih =>
    intro c hc
    unfold readableRest at h
    split at h
    next halnum =>
      rcases List.mem_cons.mp hc with rfl | hc
      · exact .inl halnum
      · exact ih h c hc
    next =>
      simp only [Bool.and_eq_true] at h
      rcases List.mem_cons.mp hc with rfl | hc
      · exact .inr h.1.1
      · exact ih h.2 c hc

theorem nameByte_ascii {b : UInt8} (h : isNameByte b = true) : b.toNat ≤ 127 := by
  have hz : ('z'.toUInt8).toNat = 122 := rfl
  have h9 : ('9'.toUInt8).toNat = 57 := rfl
  simp only [isNameByte, isAlnum, Bool.or_eq_true, Bool.and_eq_true, decide_eq_true_eq,
    UInt8.le_iff_toNat_le] at h
  rcases h with ((h | h) | rfl) | rfl
  · omega
  · omega
  · decide
  · decide

end Names

/-! ## What the sender accepted -/

section Accepted

variable {net : Net} {sha256 : Bytes → Bytes} {store : Option Binding}

def TransactionRoute.Named (sha256 : Bytes → Bytes) (owner : Bytes) (r : TransactionRoute) : Prop :=
  expectedPhysicalTopic sha256 r.logicalTopic transactionMessageType owner r.revision
    r.namingScheme = .ok r.physicalTopic

variable {r : TransactionRoute} {c : TransactionConfig} {k : Bytes} {s : TransactionalSender}

end Accepted

/-! ## References fit -/

variable {H : Sha256} {p : FrozenPlan} {b : BranchInput} {epoch : String} {fence : Nat}

namespace Sample

def net : Net := ⟨fun endpoint => some (endpoint, [53]), fun _ => some 5⟩

def transactional : TransactionConfig where
  endpoint := utf8 "broker"
  accessKey := [1]
  secretKey := [1]
  owner := utf8 "o"
  routes := [⟨utf8 "t", utf8 "t--tx--o--r", utf8 "r", readableNamingV1⟩]

def branch : BranchInput := ⟨"b", "t--tx--o--r", "r", Transaction.Sample.message, [1]⟩

def planned : PlanInput where
  owner := "o"
  scope := "s"
  operationID := "op"
  idempotencyKey := "k"
  branches := [branch]

def admitted : Bool :=
  match newTransactionalSender net id transactional (some ⟨"o", "d", "E"⟩), newPlan planned with
  | .ok s, .ok p => (s.validatePlan p).toOption.isSome && p.input.branches = [branch]
  | _, _ => false

end Sample

open Sample

end ReliableMessaging.Transport
