import ReliableMessaging.Outbox.Record
import ReliableMessaging.Sends
import ReliableMessaging.Threads

/-!
# The direct handoff

`nsq.DirectHandoff`: before a terminal failure is published to the source nsqd,
`Ready` connects the failure consumer there and makes a producer for it;
`Publish` sends through that producer; `Close` stops admission, waits for the
sends and stops the producers.
-/

namespace ReliableMessaging.Transport

open Outbox (Outcome)

namespace DirectHandoff

structure State where
  gate : Gate
  locked : Bool := false
  closing : Bool := false
  topic : String := ""
  /-- The map `producers`, with each producer as its number in the order of creation. -/
  producers : List (String × Nat) := []
  /-- `stopOnce` has run. -/
  once : Bool := false
  /-- How often `stopDone` was closed. -/
  stopDone : Nat := 0
  created : List String := []
  connected : List String := []
  readied : List String := []
  stops : List Nat := []

/-- `newDirectHandoff`. -/
def opened (maxInFlight : Nat) : State := { gate := { cap := maxInFlight } }

inductive Choice
  | go (k : Sends.Choice Bool)
  /-- What `ConnectToNSQD` (`ErrAlreadyConnected` is as good as nil) and `newProducer` end with. -/
  | connect (ok : Bool)
  | create (ok : Bool)
  /-- Which of the remaining producers the loop of `Close` takes next. -/
  | next (i : Nat)

/-! ## Ready -/

/-- Where a `Ready` is; it holds the mutex from `inside` to `finishing`. -/
inductive Stage
  | checking
  | looking
  | locking
  | inside
  | connecting
  | rechecking
  | creating
  | finishing
  | returned (ok : Bool)
deriving DecidableEq

structure Ready where
  address : String
  topic : String
  cancelled : Bool := false
  stage : Stage := .checking

/-- The deferred `Unlock` of an error return. -/
def refuse (s : State) (r : Ready) : State × Ready :=
  ({ s with locked := false }, { r with stage := .returned false })

def Ready.move (validTopic : String → Bool) (k : Choice) (s : State) (r : Ready) :
    Option (State × Ready) :=
  match k, r.stage with
  | .go .cancel, _ => some (s, { r with cancelled := true })
  | .go .step, .checking =>
    some (s, { r with
      stage := if r.address = "" ∨ validTopic r.topic = false ∨ r.cancelled = true
        then .returned false else .looking })
  | .go .step, .looking =>
    some (s, { r with stage := if s.closing then .returned false else .locking })
  | .go .step, .locking =>
    if s.locked then none else some ({ s with locked := true }, { r with stage := .inside })
  | .go .ctx, .locking =>
    if r.cancelled then some (s, { r with stage := .returned false }) else none
  | .go .step, .inside =>
    if s.closing = true ∨ s.gate.stopping = true ∨ s.topic ≠ "" ∧ s.topic ≠ r.topic
    then some (refuse s r) else some (s, { r with stage := .connecting })
  | .connect ok, .connecting =>
    if ok then
      some ({ s with connected := s.connected ++ [r.address] }, { r with stage := .rechecking })
    else some (refuse s r)
  | .go .step, .rechecking =>
    if s.closing = true ∨ r.cancelled = true then some (refuse s r)
    else some (s, { r with
      stage := if (s.producers.lookup r.address).isSome then .finishing else .creating })
  | .create ok, .creating =>
    if ok then
      some ({ s with
          producers := s.producers ++ [(r.address, s.created.length)]
          created := s.created ++ [r.address] },
        { r with stage := .finishing })
    else some (refuse s r)
  | .go .step, .finishing =>
    if s.closing = true ∨ r.cancelled = true then some (refuse s r)
    else
      some ({ s with topic := r.topic, readied := s.readied ++ [r.topic], locked := false },
        { r with stage := .returned true })
  | _, _ => none

/-! ## Publish -/

structure Job where
  address : String
  topic : String
  body : Bytes

/-- The driver replies whether the producer's `Publish` returned an error. -/
abbrev Call : Type := Sends.Call Job Nat Bool Outcome

/-- What `Publish` reads of the handoff. -/
def door (validTopic : String → Bool) (s : State) (job : Job) : Sends.Door Nat where
  refused := job.address = "" || !validTopic job.topic || s.closing
  halted := false
  free := !s.locked
  impatient := true
  admits cancelled :=
    if s.closing = true ∨ s.gate.stopping = true ∨ s.topic ≠ job.topic ∨ cancelled = true then none
    else s.producers.lookup job.address

def sendOutcome (failed : Bool) : Outcome := if failed then .unknown else .confirmed

def publish (validTopic : String → Bool) (k : Sends.Choice Bool) (s : State) (c : Call) :
    Option (State × Call) :=
  (c.move sendOutcome .unknown (door validTopic s c.data) k s.gate).map fun next =>
    ({ s with gate := next.1 }, next.2)

/-! ## Close -/

inductive Phase
  | flagging
  | locking
  | draining
  | stopping
  | waiting
  | returned (ok : Bool)
deriving DecidableEq

/-- The goroutine that stops the producers, with those it has still to stop. -/
inductive Closer
  | none
  | stopping (rest : List Nat)
  | ended

structure Close where
  cancelled : Bool := false
  phase : Phase := .flagging
  /-- The producers as the critical section found them. -/
  snapshot : List Nat := []
  closer : Closer := .none

def Close.move (k : Choice) (s : State) (d : Close) : Option (State × Close) :=
  match k, d.phase, d.closer with
  | .go .cancel, _, _ => some (s, { d with cancelled := true })
  | .go .step, .flagging, _ => some ({ s with closing := true }, { d with phase := .locking })
  | .go .step, .locking, _ =>
    if s.locked then none
    else some ({ s with gate := s.gate.shut },
      { d with phase := .draining, snapshot := s.producers.map Prod.snd })
  | .go .ctx, .locking, _ =>
    if d.cancelled then some (s, { d with phase := .returned false }) else none
  | .go .done, .draining, _ =>
    if s.gate.drained ≠ 0 then some (s, { d with phase := .stopping }) else none
  | .go .ctx, .draining, _ =>
    if d.cancelled then some (s, { d with phase := .returned false }) else none
  | .go .step, .stopping, _ =>
    some ({ s with once := true },
      { d with phase := .waiting, closer := if s.once then d.closer else .stopping d.snapshot })
  | .go .done, .waiting, _ =>
    if s.stopDone ≠ 0 then some (s, { d with phase := .returned true }) else none
  | .go .ctx, .waiting, _ =>
    if d.cancelled then some (s, { d with phase := .returned false }) else none
  | .next i, _, .stopping rest =>
    (rest[i]?).map fun p =>
      ({ s with stops := s.stops ++ [p] }, { d with closer := .stopping (rest.eraseIdx i) })
  | .go .work, _, .stopping [] =>
    some ({ s with stopDone := s.stopDone + 1 }, { d with closer := .ended })
  | _, _, _ => none

/-! ## The threads of a handoff -/

inductive Thread
  | ready (r : Ready)
  | call (c : Call)
  | close (d : Close)

inductive Op
  | ready (address topic : String)
  | publish (address topic : String) (body : Bytes)
  | close

def handoff (validTopic : String → Bool) : Threads State Thread Op Choice where
  start
    | .ready address topic => .ready { address := address, topic := topic }
    | .publish address topic body =>
      .call { data := { address := address, topic := topic, body := body }, caller := .entering }
    | .close => .close {}
  move k s
    | .ready r => (r.move validTopic k s).map fun next => (next.1, .ready next.2)
    | .call c =>
      match k with
      | .go k => (publish validTopic k s c).map fun next => (next.1, .call next.2)
      | _ => none
    | .close d => (d.move k s).map fun next => (next.1, .close next.2)

end DirectHandoff

end ReliableMessaging.Transport
