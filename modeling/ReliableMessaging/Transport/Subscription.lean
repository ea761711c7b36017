import ReliableMessaging.Threads
import ReliableMessaging.Wire.Legacy

/-!
# The NSQ subscription

`nsq.Subscription`: `HandleBusiness` hands a delivery to the host's handler and
answers nsqd with one FIN or REQ; `HandleFailure` does so for the failure
topic. The host may settle the delivery itself, with `Ack` and `Nack` from any
goroutine and also after the handler has returned. Whoever is first sets `done`
under the delivery's mutex and carries the settlement out; everybody else waits
for it and gets its result.
-/

namespace ReliableMessaging.Transport

open Wire (Envelope FailedHandoff)

namespace Nsq

structure Raw where
  id : String
  body : Bytes
  attempts : Nat
  timestamp : Int
  /-- `NSQDAddress`, the nsqd it came from. -/
  address : String

/-- The parts of `SubscriptionConfig` that settling a message reads, with the wire codecs. -/
structure Subscription where
  topic : String
  channel : String
  maxAttempts : Nat
  failureTopic : String
  /-- `legacy.Decode`: the envelope, whether it was recognized, and the error. -/
  decode : Bytes → Envelope × Bool × Option String
  encodeFailedHandoff : FailedHandoff → Except String Bytes
  decodeFailedHandoff : Bytes → Except String FailedHandoff

abbrev Causes : Type := String → Option String

def Subscription.key (S : Subscription) (id : String) : String :=
  S.topic ++ "\x00" ++ S.channel ++ "\x00" ++ id

/-- The envelope that `HandleBusiness` goes on with. -/
def Subscription.received (S : Subscription) (raw : Raw) : Envelope :=
  let (decoded, recognized, _) := S.decode raw.body
  let decoded := if recognized then decoded
    else { uuid := raw.id, metadata := [], payload := raw.body }
  if decoded.uuid = "" then { decoded with uuid := raw.id } else decoded

/-- `decodeErr`; an unrecognized body has none. -/
def Subscription.decodeErr (S : Subscription) (raw : Raw) : Option String := (S.decode raw.body).2.2

/-! ## What nsqd gets to see -/

/-- An answer sent for a message, or what the handoff transport said on the way: a `Ready` that
succeeded, a `Publish` that was confirmed. -/
inductive Said
  | ready (address : String)
  | confirmed (address : String)
  | fin
  | req
deriving DecidableEq

/-- In the order of time. -/
abbrev Log : Type := List Said

def Log.fins (log : Log) : Nat := log.count .fin

def Log.reqs (log : Log) : Nat := log.count .req

inductive Choice
  /-- The call's own next statement. -/
  | step
  /-- The handler returns. -/
  | returns (err : Option String)
  /-- The host calls `Ack`, or `Nack` with a cause. -/
  | ack
  | nack (cause : Option String)
  /-- The settlement's next statement. -/
  | work
  | ready (err : Option String)
  /-- A `transport.Outcome` is a byte, and 1 is `Confirmed`. -/
  | publish (outcome : UInt8)

/-! ## Failing a delivery -/

inductive Fail
  | remembering (cause : String)
  | comparing (cause : String)
  | readying (body : Bytes)
  | publishing (body : Bytes)
  | requeueing (err : String)
  | forgetting
  | finishing
  | done (err : Option String)

/-- `fail` is called with a cause or without. -/
def Fail.start (cause : Option String) : Fail :=
  .remembering (cause.getD "message nacked by handler")

def Subscription.failedHandoff (S : Subscription) (raw : Raw) (cause : String) : FailedHandoff :=
  let received := S.received raw
  { topic := S.topic, channel := S.channel, uuid := received.uuid, transportMessageId := raw.id,
    metadata := received.metadata, payload := received.payload, attempts := S.maxAttempts,
    timestamp := raw.timestamp, cause := cause }

def Fail.move (S : Subscription) (raw : Raw) (k : Choice) (causes : Causes) (log : Log) :
    Fail → Option (Causes × Log × Fail)
  | .remembering cause =>
    match k with
    | .work => some (Function.update causes (S.key raw.id) (some cause), log, .comparing cause)
    | _ => none
  | .comparing cause =>
    match k with
    | .work =>
      if raw.attempts < S.maxAttempts then
        some (causes, log ++ [.req], .done none)
      else
        match S.encodeFailedHandoff (S.failedHandoff raw cause) with
        | .error err => some (causes, log, .requeueing err)
        | .ok body =>
          if raw.address = "" then
            some (causes, log, .requeueing "source NSQD address required for failed handoff")
          else some (causes, log, .readying body)
    | _ => none
  | .readying body =>
    match k with
    | .ready (some err) => some (causes, log, .requeueing err)
    | .ready none => some (causes, log ++ [.ready raw.address], .publishing body)
    | _ => none
  | .publishing _ =>
    match k with
    | .publish outcome =>
      if outcome ≠ 1 then
        some (causes, log,
          .requeueing ("NSQ failed handoff not confirmed: outcome " ++ toString outcome))
      else some (causes, log ++ [.confirmed raw.address], .forgetting)
    | _ => none
  | .requeueing err =>
    match k with
    | .work => some (causes, log ++ [.req], .done (some err))
    | _ => none
  | .forgetting =>
    match k with
    | .work => some (Function.update causes (S.key raw.id) none, log, .finishing)
    | _ => none
  | .finishing =>
    match k with
    | .work => some (causes, log ++ [.fin], .done none)
    | _ => none
  | .done _ => none

/-! ## A business delivery -/

/-- How far the settlement of a delivery has come (`settle`); it is `idle` until the first call. -/
inductive Settlement
  | idle
  | forgetting
  | finishing
  | nacking (f : Fail)
  | closed (err : Option String)

inductive Place
  | entering
  | failing (f : Fail)
  | handling
  | deciding (err : Option String)
  | settling (err : Option String)
  | awaiting
  | returned (err : Option String)

structure Winner where
  host : Bool
  ack : Bool
deriving DecidableEq

structure Business where
  raw : Raw
  place : Place := .entering
  settlement : Settlement := .idle
  log : Log := []
  /-- The handler was called. -/
  invoked : Bool := false
  /-- What the handler returned. -/
  handled : Option (Option String) := none
  /-- The first call of `Ack` or `Nack`. -/
  first : Option Winner := none

/-- The first call of `settle` decides. -/
def Business.settle (b : Business) (host : Bool) (verdict : Option Fail) : Business :=
  match b.settlement with
  | .idle =>
    { b with
      first := some { host := host, ack := verdict.isNone }
      settlement := match verdict with
        | none => .forgetting
        | some f => .nacking f }
  | _ => b

/-- The settlement's own statements: `ack` and `nack` of the delivery. -/
def Business.work (S : Subscription) (k : Choice) (causes : Causes) (b : Business) :
    Option (Causes × Business) :=
  match b.settlement with
  | .forgetting =>
    match k with
    | .work =>
      some (Function.update causes (S.key b.raw.id) none, { b with settlement := .finishing })
    | _ => none
  | .finishing =>
    match k with
    | .work =>
      some (causes, { b with log := b.log ++ [.fin], settlement := .closed none })
    | _ => none
  | .nacking (.done err) =>
    match k with
    | .work => some (causes, { b with settlement := .closed err })
    | _ => none
  | .nacking f =>
    (f.move S b.raw k causes b.log).map fun (causes, log, f) =>
      (causes, { b with log := log, settlement := .nacking f })
  | _ => none

/-- `HandleBusiness` from the decoded message on. -/
def Business.enter (S : Subscription) (causes : Causes) (b : Business) : Business :=
  match S.decodeErr b.raw with
  | some err => { b with place := .failing (.start (some ("decode message envelope: " ++ err))) }
  | none =>
    if S.maxAttempts < b.raw.attempts then
      let cause := (causes (S.key b.raw.id)).getD
        "transport delivery exhausted after prior handler failure"
      { b with place := .failing (.start (some cause)) }
    else { b with place := .handling, invoked := true }

def Business.move (S : Subscription) (k : Choice) (causes : Causes) (b : Business) :
    Option (Causes × Business) :=
  match k, b.place with
  -- The host has the delivery once the handler has been called, and may keep it for good.
  | .ack, _ => if b.invoked then some (causes, b.settle true none) else none
  | .nack cause, _ =>
    if b.invoked then some (causes, b.settle true (some (.start cause))) else none
  | .step, .entering => some (causes, b.enter S causes)
  | .step, .failing (.done err) => some (causes, { b with place := .returned err })
  | k, .failing f =>
    (f.move S b.raw k causes b.log).map fun (causes, log, f) =>
      (causes, { b with log := log, place := .failing f })
  | .returns err, .handling => some (causes, { b with place := .deciding err, handled := some err })
  | .step, .deciding err =>
    match b.settlement with
    | .idle => some (causes, { b with place := .settling err })
    | _ => some (causes, { b with place := .awaiting })
  | .step, .settling err =>
    some (causes, { b.settle false (err.map fun e => .start (some e)) with place := .awaiting })
  | .step, .awaiting =>
    match b.settlement with
    | .closed err => some (causes, { b with place := .returned err })
    | _ => none
  | k, _ => b.work S k causes

/-! ## A failure delivery -/

inductive Stage
  | entering
  | handling (failed : FailedHandoff)
  | requeueing (err : String)
  | finishing
  | returned (err : Option String)

structure Failure where
  raw : Raw
  stage : Stage := .entering
  log : Log := []

/-- What `HandleFailure` hands to the failed handler; a body that does not decode is kept as it
came, with the error for its cause. -/
def Subscription.failed (S : Subscription) (raw : Raw) : FailedHandoff :=
  match S.decodeFailedHandoff raw.body with
  | .ok failed => failed
  | .error err =>
    { topic := S.failureTopic, channel := "cb-failed-handler", uuid := raw.id,
      transportMessageId := raw.id, metadata := [], payload := raw.body,
      attempts := raw.attempts, timestamp := raw.timestamp, cause := err }

def Failure.move (S : Subscription) (k : Choice) (d : Failure) : Option Failure :=
  match k, d.stage with
  | .step, .entering => some { d with stage := .handling (S.failed d.raw) }
  | .returns (some err), .handling _ => some { d with stage := .requeueing err }
  | .returns none, .handling _ => some { d with stage := .finishing }
  | .step, .requeueing err =>
    some { d with log := d.log ++ [.req], stage := .returned (some err) }
  | .step, .finishing =>
    some { d with log := d.log ++ [.fin], stage := .returned none }
  | _, _ => none

/-! ## The threads of a subscription -/

inductive Thread
  | business (b : Business)
  | failure (d : Failure)

inductive Arrival
  | business (raw : Raw)
  | failure (raw : Raw)

def subscription (S : Subscription) : Threads Causes Thread Arrival Choice where
  start
    | .business raw => .business { raw := raw }
    | .failure raw => .failure { raw := raw }
  move k causes
    | .business b => (b.move S k causes).map fun next => (next.1, .business next.2)
    | .failure d => (d.move S k).map fun next => (causes, .failure next)

end Nsq

end ReliableMessaging.Transport
