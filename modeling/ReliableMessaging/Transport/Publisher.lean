import ReliableMessaging.Outbox.Record
import ReliableMessaging.Sends
import ReliableMessaging.Threads

/-!
# The two publishers

`nsq.Publisher` (with the `ManagedPublisher` that owns its producer) and
`rocketmq.Publisher`. A `Publish` takes a slot, is admitted under the mutex and
leaves the driver's call to a goroutine of its own, which outlives the caller
when the caller's context ends. `Drain` stops admission and waits for the
goroutines; `Close` then stops the driver, `Interrupt` does not wait for them.
-/

namespace ReliableMessaging.Transport

open Outbox (Outcome)

namespace Publisher

structure State where
  gate : Gate
  /-- How often `stopCh` (`stop`) was closed. -/
  stopCh : Nat := 0
  /-- `started`, and with it `inner`. -/
  started : Bool := false
  /-- `closeOnce` (`stopOnce`) has run. -/
  once : Bool := false
  closeErr : Bool := false
  /-- How often `closeDone` (`stopped`) was closed. -/
  closeDone : Nat := 0

def opened (maxInFlight : Nat) : State := { gate := { cap := maxInFlight } }

/-- What differs between the publishers; `ρ` is what their driver replies. -/
structure Kind (ρ : Type) where
  /-- The critical section's test, with whether the caller's context has ended. -/
  admits : State → Bool → Bool
  outcome : ρ → Outcome
  /-- What stopping the driver leaves in `closeErr`. -/
  stopErr : State → Bool → Bool

/-! ## A call -/

structure Job where
  topic : String := ""
  keys : String := ""
  body : Bytes := []

abbrev Call (ρ : Type) : Type := Sends.Call Job Unit ρ Outcome

inductive Choice (ρ : Type)
  | go (k : Sends.Choice ρ)
  /-- What the driver's `Start` and its stop end with. -/
  | boot (ok : Bool)
  | quit (failed : Bool)

variable {ρ : Type}

def rejected : Call ρ := { data := {}, caller := .returned .rejected }

/-- A call that goes on with a topic and a body. -/
def enter (topic keys : String) (body : Bytes) : Call ρ :=
  { data := { topic := topic, keys := keys, body := body }, caller := .entering }

/-- What `publishBytes` and `publish` read of the publisher. -/
def door (K : Kind ρ) (s : State) : Sends.Door Unit where
  refused := false
  halted := s.stopCh ≠ 0
  free := true
  impatient := false
  admits cancelled := if K.admits s cancelled then some () else none

/-- `publishBytes` and `publish` from their first look at the context on. The NSQ goroutine posts
the bare error and its receiver reads the outcome off it, which comes to the same. -/
def Call.move (K : Kind ρ) (k : Sends.Choice ρ) (s : State) (c : Call ρ) :
    Option (State × Call ρ) :=
  (Sends.Call.move K.outcome .unknown (door K s) k s.gate c).map fun next =>
    ({ s with gate := next.1 }, next.2)

/-! ## Starting and stopping -/

inductive Aim
  | drain
  | close
  | interrupt
deriving DecidableEq

inductive Stage
  | halting
  | draining
  | closing
  | finishing
  | returned (ok : Bool)
deriving DecidableEq

/-- Where the goroutine of `startClose` (`stopProducer`) is. -/
inductive Closer
  | none
  | stopping
  | stopped
  | ended
deriving DecidableEq

structure Shut where
  aim : Aim
  cancelled : Bool := false
  stage : Stage := .halting
  closer : Closer := .none

/-- `beginDrain`, the critical section at the head of `Drain` and `Interrupt`. -/
def beginDrain (s : State) : State :=
  { s with gate := s.gate.shut, stopCh := if s.gate.stopping then s.stopCh else s.stopCh + 1 }

def Shut.move (K : Kind ρ) (k : Choice ρ) (s : State) (d : Shut) : Option (State × Shut) :=
  match k, d.stage, d.closer with
  | .go .cancel, _, _ => some (s, { d with cancelled := true })
  | .go .step, .halting, _ =>
    some (beginDrain s, { d with stage := if d.aim = .interrupt then .closing else .draining })
  | .go .done, .draining, _ =>
    if s.gate.drained ≠ 0 then
      some (s, { d with stage := if d.aim = .close then .closing else .returned true })
    else none
  | .go .ctx, .draining, _ =>
    if d.cancelled then some (s, { d with stage := .returned false }) else none
  | .go .step, .closing, _ =>
    some ({ s with once := true },
      { d with
        stage := if d.aim = .close then .finishing else .returned true
        closer := if s.once then d.closer else .stopping })
  | .go .done, .finishing, _ =>
    if s.closeDone ≠ 0 then some (s, { d with stage := .returned !s.closeErr }) else none
  | .go .ctx, .finishing, _ =>
    if d.cancelled then some (s, { d with stage := .returned false }) else none
  | .quit failed, _, .stopping =>
    some ({ s with closeErr := K.stopErr s failed }, { d with closer := .stopped })
  | .go .work, _, .stopped =>
    some ({ s with closeDone := s.closeDone + 1 }, { d with closer := .ended })
  | _, _, _ => none

/-- `Start`: one critical section. Its result is whether it returned nil. -/
def start (ok : Bool) (s : State) : State × Bool :=
  if s.gate.stopping then (s, false)
  else if s.started then (s, true)
  else ({ s with started := ok }, ok)

/-! ## The threads of a publisher -/

inductive Thread (ρ : Type)
  | call (c : Call ρ)
  | shut (d : Shut)
  | start (result : Option Bool)

def move (K : Kind ρ) (k : Choice ρ) (s : State) : Thread ρ → Option (State × Thread ρ)
  | .call c =>
    match k with
    | .go k => (Call.move K k s c).map fun next => (next.1, .call next.2)
    | _ => none
  | .shut d => (d.move K k s).map fun next => (next.1, .shut next.2)
  | .start none =>
    match k with
    | .boot ok => some ((start ok s).1, .start (some (start ok s).2))
    | _ => none
  | .start (some _) => none

end Publisher

open Publisher

/-! ## NSQ -/

namespace Nsq

inductive PublisherOp
  | publish (m : Message)
  | publishRaw (topic : String) (body : Bytes)
  | drain
  | close
  | interrupt

def publish {ρ : Type} (routes : String → Option String) (m : Message) : Call ρ :=
  match routes m.input.destination with
  | some topic => if m.valid then enter topic "" m.input.payload else rejected
  | none => rejected

/-- `Publisher.PublishRaw` up to `publishBytes`; `validTopic` is the driver's `IsValidTopicName`. -/
def publishRaw {ρ : Type} (validTopic : String → Bool) (topic : String) (body : Bytes) : Call ρ :=
  if validTopic topic = false ∨ body = [] then rejected else enter topic "" body

/-- The driver replies whether `Publish` returned an error. -/
def kind : Kind Bool where
  admits s cancelled := !(s.gate.stopping || cancelled)
  outcome failed := if failed then .unknown else .confirmed
  stopErr _ _ := false

def publisher (routes : String → Option String) (validTopic : String → Bool) :
    Threads State (Thread Bool) PublisherOp (Choice Bool) where
  start
    | .publish m => .call (publish routes m)
    | .publishRaw topic body => .call (publishRaw validTopic topic body)
    | .drain => .shut { aim := .drain }
    | .close => .shut { aim := .close }
    | .interrupt => .shut { aim := .interrupt }
  move := move kind

end Nsq

/-! ## RocketMQ -/

namespace RocketMq

inductive PublisherOp
  | start
  | publish (m : Message)
  | publishRaw (topic : String) (body : Bytes)
  | drain
  | close
  | interrupt

/-- What `Send` returns: an error, which may carry an RPC status code, or the
message ids of its receipts, a nil receipt being `none`. -/
inductive SendReply
  | failed (status : Option Int)
  | receipts (ids : List (Option String))

/-- The codes that say the broker refused the message. -/
def refused (code : Int) : Bool := (40000 ≤ code && code < 40600) || (41300 ≤ code && code < 41400)

def sendOutcome : SendReply → Outcome
  | .failed (some code) => if refused code then .rejected else .unknown
  | .failed none => .unknown
  | .receipts [some id] => if id ≠ "" then .confirmed else .unknown
  | .receipts _ => .unknown

/-- `publish` up to its first look at the context. -/
def publishTo {ρ : Type} (routes : String → Option String) (logical id : String) (body : Bytes) :
    Call ρ :=
  match routes logical with
  | some topic =>
    if body.length = 0 ∨ 262144 < body.length then rejected else enter topic id body
  | none => rejected

def publish {ρ : Type} (routes : String → Option String) (m : Message) : Call ρ :=
  if m.valid then publishTo routes m.input.destination m.input.id m.input.payload
  else rejected

def publishRaw {ρ : Type} (routes : String → Option String) (topic : String) (body : Bytes) :
    Call ρ :=
  publishTo routes topic "" body

def kind : Kind SendReply where
  admits s cancelled := !(!s.started || s.gate.stopping || cancelled)
  outcome := sendOutcome
  -- Without a `Start` there is no client to stop.
  stopErr s failed := s.started && failed

def publisher (routes : String → Option String) :
    Threads State (Thread SendReply) PublisherOp (Choice SendReply) where
  start
    | .start => .start none
    | .publish m => .call (publish routes m)
    | .publishRaw topic body => .call (publishRaw routes topic body)
    | .drain => .shut { aim := .drain }
    | .close => .shut { aim := .close }
    | .interrupt => .shut { aim := .interrupt }
  move := move kind

end RocketMq

end ReliableMessaging.Transport
