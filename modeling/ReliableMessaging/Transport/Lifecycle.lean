import ReliableMessaging.Threads

/-!
# The life of a transactional sender

`transaction_lifecycle.go`, and `admit` of `transaction_sender.go`: a sender is
started at most once, admits operations while it is ready, runs the checks that
the broker client dispatches on a few workers, and is closed.
-/

namespace ReliableMessaging.Transport.Lifecycle

/-- What the sender reads of `transaction.Limits`; a configuration without a worker is refused. -/
structure Limits where
  sends : Nat
  checkWorkers : Nat
  checkQueue : Nat
  workers : 0 < checkWorkers

inductive Starting
  | before
  | validating
  | spawning (i : Nat)
  | creating
  | storing
  | starting
  | settling (ok : Bool)
  | stopping
  | closing
  | waiting
  | returned
deriving DecidableEq

inductive Maintaining
  | before
  | selecting
  | validating
  | reconciling
  | leaving
  | ended
deriving DecidableEq

/-- The goroutine of `closeAsync`. `startDone` is read once: whether it is the channel of `Start`. -/
inductive Closing
  | before
  | reading
  | awaitingStart (replaced : Bool)
  | awaitingSends
  | stoppingMaintenance
  | awaitingMaintenance
  | closingChecks
  | awaitingChecks
  | closingBackend
  | settling
  | closingDone
  | ended
deriving DecidableEq

structure Sender where
  everStarted : Bool := false
  started : Bool := false
  stopping : Bool := false
  checksClosing : Bool := false
  dbHealthy : Bool := false
  stopped : Bool := false
  closeOnce : Bool := false
  start : Starting := .before
  /-- Closes of the channel that `Start` made. -/
  startDone : Nat := 0
  sendStop : Nat := 0
  maintenance : Maintaining := .before
  maintStop : Nat := 0
  /-- Closes of the channel made for `maintain`. -/
  maintDone : Nat := 0
  closer : Closing := .before
  closeDone : Nat := 0
  slots : Nat := 0
  sendWG : Int := 0
  /-- The buffer of `checks`: the numbers of the checks in it. -/
  checks : List Nat := []
  /-- Workers blocked at `checks`. -/
  receivers : Nat := 0
  /-- Checks handed to blocked workers that have not woken up. -/
  handed : List Nat := []
  checksClosed : Nat := 0
  /-- A send found `checks` closed. -/
  sentOnClosed : Bool := false
  checkWG : Int := 0
  /-- Workers started that have not made a move. -/
  newWorkers : Nat := 0
  spawned : Nat := 0
  runningChecks : Int := 0
  checkRejected : Nat := 0
  accepted : Nat := 0
  /-- The checks that were run, in order. -/
  runs : List Nat := []
  /-- `dispatch` was given away. -/
  dispatching : Bool := false
  created : Bool := false
  backend : Bool := false
  backendCloses : Nat := 0
deriving DecidableEq

namespace Sender

def stopAdmission (s : Sender) : Sender :=
  if s.stopping then s else { s with stopping := true, sendStop := s.sendStop + 1 }

def closeAsync (s : Sender) : Sender :=
  if s.closeOnce then s else { s with closeOnce := true, closer := .reading }

def ready (L : Limits) (s : Sender) : Bool :=
  s.started && !s.stopping && s.dbHealthy &&
    s.runningChecks + s.checks.length < L.checkWorkers + L.checkQueue

end Sender

/-- What a move is not free to decide: the outcome of a call, a panic, the branch of a `select`,
a context that ends. -/
inductive Choice
  | ok
  | fail
  | cancel
deriving DecidableEq

/-! ## Operations -/

inductive Place
  | entering
  | selecting
  | deciding
  | refusing
  | running
  | releasing
  | leaving
  | closing
  | ended
deriving DecidableEq

/-- `Execute`, which runs in a goroutine and closes a channel of its own at its end, or `Reserve`,
`Retry` or `Replan`. -/
structure Operation where
  detached : Bool
  place : Place := .entering
  /-- Closes of its own channel. -/
  done : Nat := 0
deriving DecidableEq

/-- `admit`, the operation itself, and what is deferred to its end. -/
def Operation.move (L : Limits) (k : Choice) (s : Sender) (o : Operation) :
    Option (Sender × Operation) :=
  match o.place with
  | .entering =>
    if k = .cancel then some (s, { o with place := .ended })
    else some (s, { o with place := .selecting })
  | .selecting =>
    match k with
    | .ok =>
      if s.slots < L.sends then
        some ({ s with slots := s.slots + 1 }, { o with place := .deciding })
      else none
    | .fail => if s.sendStop ≠ 0 then some (s, { o with place := .ended }) else none
    | .cancel => some (s, { o with place := .ended })
  | .deciding =>
    if s.ready L then some ({ s with sendWG := s.sendWG + 1 }, { o with place := .running })
    else some (s, { o with place := .refusing })
  | .refusing =>
    if 0 < s.slots then some ({ s with slots := s.slots - 1 }, { o with place := .ended }) else none
  | .running =>
    -- a store error leaves the database unhealthy
    if k = .fail then some ({ s with dbHealthy := false }, { o with place := .releasing })
    else some (s, { o with place := .releasing })
  | .releasing =>
    if 0 < s.slots then some ({ s with slots := s.slots - 1 }, { o with place := .leaving })
    else none
  | .leaving =>
    if o.detached then some ({ s with sendWG := s.sendWG - 1 }, { o with place := .closing })
    else some ({ s with sendWG := s.sendWG - 1 }, { o with place := .ended })
  | .closing => some (s, { o with place := .ended, done := o.done + 1 })
  | .ended => none

/-! ## Checks -/

inductive Dispatch
  | entering
  | accepted (check : Nat)
  | rejected
deriving DecidableEq

/-- `dispatch`: the broker client has it only once the factory was called. A blocked worker gets the
check directly. -/
def Dispatch.move (L : Limits) (s : Sender) : Dispatch → Option (Sender × Dispatch)
  | .entering =>
    if !s.dispatching then none
    else if s.checksClosing then some ({ s with checkRejected := s.checkRejected + 1 }, .rejected)
    else if s.checksClosed ≠ 0 then some ({ s with sentOnClosed := true }, .rejected)
    else if s.handed.length < s.receivers then
      some ({ s with handed := s.handed ++ [s.accepted], accepted := s.accepted + 1 },
        .accepted s.accepted)
    else if s.checks.length < L.checkQueue then
      some ({ s with checks := s.checks ++ [s.accepted], accepted := s.accepted + 1 },
        .accepted s.accepted)
    else some ({ s with checkRejected := s.checkRejected + 1 }, .rejected)
  | _ => none

inductive Worker
  | unstarted
  | receiving
  | blocked
  | received (check : Nat)
  | running (check : Nat)
  | leaving
  | gone
deriving DecidableEq

/-- `checkWorker` and `runCheckWork`. -/
def Worker.move (k : Choice) (s : Sender) : Worker → Option (Sender × Worker)
  | .unstarted =>
    if 0 < s.newWorkers then some ({ s with newWorkers := s.newWorkers - 1 }, .receiving) else none
  | .receiving =>
    match s.checks with
    | check :: rest => some ({ s with checks := rest }, .received check)
    | [] =>
      if s.checksClosed ≠ 0 then some (s, .leaving)
      else some ({ s with receivers := s.receivers + 1 }, .blocked)
  | .blocked =>
    match s.handed with
    | check :: rest =>
      some ({ s with handed := rest, receivers := s.receivers - 1 }, .received check)
    | [] =>
      if s.checksClosed ≠ 0 then some ({ s with receivers := s.receivers - 1 }, .leaving) else none
  | .received check =>
    some ({ s with runningChecks := s.runningChecks + 1, runs := s.runs ++ [check] },
      .running check)
  | .running _ =>
    -- a panic of the check is recovered
    if k = .fail then
      some ({ s with runningChecks := s.runningChecks - 1, dbHealthy := false }, .receiving)
    else some ({ s with runningChecks := s.runningChecks - 1 }, .receiving)
  | .leaving => some ({ s with checkWG := s.checkWG - 1 }, .gone)
  | .gone => none

/-! ## Starting -/

/-- The steps of the one `Start` after its first check. -/
def Sender.startStep (L : Limits) (k : Choice) (s : Sender) : Option Sender :=
  match s.start with
  | .before => none
  | .validating =>
    if k = .ok then some { s with start := .spawning 0 }
    else some { s with start := .settling false }
  | .spawning i =>
    if i < L.checkWorkers then
      some { s with checkWG := s.checkWG + 1, newWorkers := s.newWorkers + 1,
                    spawned := s.spawned + 1, start := .spawning (i + 1) }
    else some { s with dispatching := true, start := .creating }
  | .creating =>
    if k = .ok then some { s with created := true, start := .storing }
    else some { s with start := .settling false }
  | .storing => some { s with backend := true, start := .starting }
  | .starting => some { s with start := .settling (k = .ok) }
  | .settling ok =>
    let s := { s with started := ok, dbHealthy := ok, startDone := s.startDone + 1,
                      maintenance := if ok && !s.stopping then .selecting else s.maintenance }
    some { s with start := if !ok || s.stopping then .stopping else .returned }
  | .stopping => some { s.stopAdmission with start := .closing }
  | .closing => some { s.closeAsync with start := .waiting }
  | .waiting =>
    if s.closeDone ≠ 0 ∨ k = .cancel then some { s with start := .returned } else none
  | .returned => none

inductive Start
  | entering
  | inside
  | refused
deriving DecidableEq

def Start.move (L : Limits) (k : Choice) (s : Sender) : Start → Option (Sender × Start)
  | .entering =>
    if s.everStarted || s.stopping then some (s, .refused)
    else some ({ s with everStarted := true, start := .validating }, .inside)
  | .inside => (s.startStep L k).map (·, .inside)
  | .refused => none

/-! ## Maintenance -/

def Sender.maintainStep (k : Choice) (s : Sender) : Option Sender :=
  match s.maintenance with
  | .selecting =>
    if k = .ok then some { s with maintenance := .validating }
    else if s.maintStop ≠ 0 then some { s with maintenance := .leaving }
    else none
  | .validating =>
    if k = .ok then some { s with dbHealthy := true, maintenance := .reconciling }
    else some { s with dbHealthy := false, maintenance := .selecting }
  | .reconciling => some { s with maintenance := .selecting }
  | .leaving => some { s with maintDone := s.maintDone + 1, maintenance := .ended }
  | .before | .ended => none

/-! ## Closing -/

/-- The steps of the goroutine of `closeAsync`. Until `Start` replaces them, `startDone` and
`maintDone` are channels that were made closed. -/
def Sender.closeStep (s : Sender) : Option Sender :=
  match s.closer with
  | .reading => some { s with closer := .awaitingStart s.everStarted }
  | .awaitingStart replaced =>
    if replaced = true → s.startDone ≠ 0 then some { s with closer := .awaitingSends } else none
  | .awaitingSends =>
    if s.sendWG = 0 then some { s with closer := .stoppingMaintenance } else none
  | .stoppingMaintenance =>
    some { s with maintStop := s.maintStop + 1, closer := .awaitingMaintenance }
  | .awaitingMaintenance =>
    if s.maintenance = .before ∨ s.maintDone ≠ 0 then some { s with closer := .closingChecks }
    else none
  | .closingChecks =>
    some { s with checksClosing := true, checksClosed := s.checksClosed + 1,
                  closer := .awaitingChecks }
  | .awaitingChecks => if s.checkWG = 0 then some { s with closer := .closingBackend } else none
  | .closingBackend =>
    if s.backend then some { s with backendCloses := s.backendCloses + 1, closer := .settling }
    else some { s with closer := .settling }
  | .settling => some { s with stopped := true, started := false, closer := .closingDone }
  | .closingDone => some { s with closeDone := s.closeDone + 1, closer := .ended }
  | .before | .ended => none

/-- A call of `StopAdmission`, or of `Close`, which goes on. -/
inductive Stop
  | stopping (close : Bool)
  | closing
  | waiting
  | returned
deriving DecidableEq

def Stop.move (k : Choice) (s : Sender) : Stop → Option (Sender × Stop)
  | .stopping close => some (s.stopAdmission, if close then .closing else .returned)
  | .closing => some (s.closeAsync, .waiting)
  | .waiting => if s.closeDone ≠ 0 ∨ k = .cancel then some (s, .returned) else none
  | .returned => none

/-! ## All of it -/

inductive Thread
  | operation (o : Operation)
  | dispatch (d : Dispatch)
  | worker (w : Worker)
  | start (t : Start)
  | stop (t : Stop)
  | maintainer
  | closer
deriving DecidableEq

inductive Call
  | execute
  | admitted
  | dispatch
  | start
  | stopAdmission
  | close
  | worker
  | maintainer
  | closer

def Thread.begin : Call → Thread
  | .execute => .operation { detached := true }
  | .admitted => .operation { detached := false }
  | .dispatch => .dispatch .entering
  | .start => .start .entering
  | .stopAdmission => .stop (.stopping false)
  | .close => .stop (.stopping true)
  | .worker => .worker .unstarted
  | .maintainer => .maintainer
  | .closer => .closer

def Thread.move (L : Limits) (k : Choice) (s : Sender) : Thread → Option (Sender × Thread)
  | .operation o => (o.move L k s).map fun r => (r.1, .operation r.2)
  | .dispatch d => (d.move L s).map fun r => (r.1, .dispatch r.2)
  | .worker w => (w.move k s).map fun r => (r.1, .worker r.2)
  | .start t => (t.move L k s).map fun r => (r.1, .start r.2)
  | .stop t => (t.move k s).map fun r => (r.1, .stop r.2)
  | .maintainer => (s.maintainStep k).map (·, .maintainer)
  | .closer => s.closeStep.map (·, .closer)

def threads (L : Limits) : Threads Sender Thread Call Choice where
  start := Thread.begin
  move := Thread.move L

end ReliableMessaging.Transport.Lifecycle
