import ReliableMessaging.Delivery.Table
import ReliableMessaging.Loops

/-!
# The clients of the receipt outbox

`delivery/mysql/outbox.go` and `durable.py`: the same six operations, written
twice, in transactions that the host begins and ends. `tx` says whether the
host passed one.
-/

namespace ReliableMessaging.Delivery

open Loops (refuseIf)

/-! ## Go -/

namespace Outbox

structure Record extends Message where
  stage : Stage
  attempts : Nat
deriving DecidableEq

structure Locked where
  bodySha256 : String
  requiresReceipt : Bool
  stage : Stage

def errConflict : Failure := .conflict "original message identity or body mismatch"

def valid (tx : Bool) (id : Identity) : Except Failure Unit :=
  refuseIf (tx = false ∨ id.producer = "" ∨ id.destination = "" ∨ id.messageId = "") errConflict

section

variable (fold : String → String) (tx : Bool) (e : Engine) (t : Table)

def locked (id : Identity) (hash : String) : Except Failure Locked := do
  valid tx id
  match ← e.selectLocked fold t id with
  | [] => .error errConflict
  | r :: _ =>
    refuseIf (r.bodySha256 ≠ hash) errConflict
    pure ⟨r.bodySha256, r.requiresReceipt, r.stage⟩

def pending (limit : Int) : Except Failure (List Record) := do
  refuseIf (tx = false ∨ limit < 1 ∨ limit > 100)
    (.invalid "original transaction and bounded batch required")
  let rows ← e.selectPending fold t limit.toNat
  pure (rows.map fun r => { r.toMessage with stage := r.stage, attempts := r.attempts })

def published (id : Identity) (hash : String) (waitSeconds : Int) : Except Failure Table := do
  refuseIf (waitSeconds < 1 ∨ waitSeconds > 60) (.invalid "receipt wait must be 1..60 seconds")
  let r ← locked fold tx e t id hash
  if r.stage = .confirmed ∨ r.stage = .held then pure t
  else
    let stage := if r.requiresReceipt then .awaitingReceipt else .confirmed
    e.update fold t id fun n => { n with
      stage, attempts := if n.requiresReceipt then n.attempts + 1 else n.attempts
      publishedAt := some e.now, confirmedAt := if n.requiresReceipt then none else some e.now
      availableAt := e.later waitSeconds, errorCode := "" }

def confirm (id : Identity) (hash : String) : Except Failure Table := do
  let r ← locked fold tx e t id hash
  refuseIf (r.requiresReceipt = false) errConflict
  e.update fold t id fun n => { n with
    stage := .confirmed, confirmedAt := some e.now, errorCode := "" }

def retry (id : Identity) (hash : String) (delaySeconds : Int) (code : String) :
    Except Failure Table := do
  refuseIf (delaySeconds < 1 ∨ delaySeconds > 60) (.invalid "retry delay must be 1..60 seconds")
  let r ← locked fold tx e t id hash
  if r.stage = .confirmed ∨ r.stage = .held then pure t
  else
    e.update fold t id fun n => { n with
      attempts := n.attempts + 1, availableAt := e.later delaySeconds, errorCode := code }

def hold (id : Identity) (hash code : String) : Except Failure Table := do
  let r ← locked fold tx e t id hash
  if r.stage = .confirmed then pure t
  else e.update fold t id fun n => { n with stage := .held, errorCode := code }

def rearmAck (id : Identity) (hash : String) : Except Failure Table := do
  let r ← locked fold tx e t id hash
  refuseIf (r.requiresReceipt = true) errConflict
  if r.stage = .held then pure t
  else
    e.update fold t id fun n => { n with
      stage := .staged, availableAt := e.now, confirmedAt := none, errorCode := "" }

end

end Outbox

/-! ## Python -/

namespace Durable

/-- `bind(db).validate()`. -/
def validate (tx : Bool) : Except Failure Unit :=
  refuseIf (tx = false) (.binding "active original SQLAlchemy transaction required")

/-- What `_identity` checks before it is a condition. -/
def identity (id : Identity) : Except Failure Unit :=
  refuseIf (id.producer = "" ∨ id.destination = "" ∨ id.messageId = "")
    (.conflict "complete message identity required")

/-- What `_later` checks before it is an expression. -/
def later (seconds : Int) : Except Failure Unit :=
  refuseIf (seconds < 1 ∨ seconds > 60) (.invalid "delay must be bounded to 1..60 seconds")

section

variable (fold : String → String) (tx : Bool) (e : Engine) (t : Table)

/-- `_locked`, with `one_or_none`. -/
def locked (id : Identity) (bodySha256 : String) : Except Failure Row := do
  validate tx
  identity id
  match ← e.selectLocked fold t id with
  | [] => .error (.conflict "original message body mismatch or identity missing")
  | [row] =>
    refuseIf (row.bodySha256 ≠ bodySha256)
      (.conflict "original message body mismatch or identity missing")
    pure row
  | _ => .error .multiple

def pending (limit : Int) : Except Failure (List Row) := do
  validate tx
  refuseIf (limit < 1 ∨ limit > 100) (.invalid "bounded pending batch required")
  e.selectPending fold t limit.toNat

def published (id : Identity) (bodySha256 : String) (receiptWaitSeconds : Int) :
    Except Failure Table := do
  later receiptWaitSeconds
  let row ← locked fold tx e t id bodySha256
  if row.stage = .confirmed ∨ row.stage = .held then pure t
  else
    let receipt := row.requiresReceipt
    e.update fold t id fun n => { n with
      stage := if receipt then .awaitingReceipt else .confirmed
      attempts := if receipt then n.attempts + 1 else n.attempts
      publishedAt := some e.now, confirmedAt := if receipt then none else some e.now
      availableAt := e.later receiptWaitSeconds, errorCode := "" }

def retry (id : Identity) (bodySha256 : String) (delaySeconds : Int) (errorCode : String) :
    Except Failure Table := do
  later delaySeconds
  let row ← locked fold tx e t id bodySha256
  if row.stage = .confirmed ∨ row.stage = .held then pure t
  else
    e.update fold t id fun n => { n with
      attempts := n.attempts + 1, availableAt := e.later delaySeconds, errorCode }

def confirm (id : Identity) (bodySha256 : String) : Except Failure Table := do
  let row ← locked fold tx e t id bodySha256
  refuseIf (row.requiresReceipt = false)
    (.conflict "receipt-free acknowledgements cannot accept another acknowledgement")
  e.update fold t id fun n => { n with
    stage := .confirmed, confirmedAt := some e.now, errorCode := "" }

def hold (id : Identity) (bodySha256 errorCode : String) : Except Failure Table := do
  let row ← locked fold tx e t id bodySha256
  if row.stage = .confirmed then pure t
  else e.update fold t id fun n => { n with stage := .held, errorCode }

def rearmAck (id : Identity) (bodySha256 : String) : Except Failure Table := do
  let row ← locked fold tx e t id bodySha256
  refuseIf (row.requiresReceipt = true)
    (.conflict "only receipt-free acknowledgements can be automatically rearmed")
  if row.stage = .held then pure t
  else
    e.update fold t id fun n => { n with
      stage := .staged, availableAt := e.now, confirmedAt := none, errorCode := "" }

end

end Durable

/-! ## Transactions -/

inductive Act
  | published (waitSeconds : Int)
  | confirm
  | retry (delaySeconds : Int) (code : String)
  | hold (code : String)
  | rearmAck

def Act.isRetry : Act → Bool
  | .retry _ _ => true
  | _ => false

def Act.isPublished : Act → Bool
  | .published _ => true
  | _ => false

inductive Client
  | go
  | python

def Client.settle (c : Client) (fold : String → String) (tx : Bool) (e : Engine) (t : Table)
    (id : Identity) (hash : String) (a : Act) : Except Failure Table :=
  match c, a with
  | .go, .published wait => Outbox.published fold tx e t id hash wait
  | .go, .confirm => Outbox.confirm fold tx e t id hash
  | .go, .retry delay code => Outbox.retry fold tx e t id hash delay code
  | .go, .hold code => Outbox.hold fold tx e t id hash code
  | .go, .rearmAck => Outbox.rearmAck fold tx e t id hash
  | .python, .published wait => Durable.published fold tx e t id hash wait
  | .python, .confirm => Durable.confirm fold tx e t id hash
  | .python, .retry delay code => Durable.retry fold tx e t id hash delay code
  | .python, .hold code => Durable.hold fold tx e t id hash code
  | .python, .rearmAck => Durable.rearmAck fold tx e t id hash

inductive Call
  | insert (m : Message) (availableAt : Nat)
  | pending (c : Client) (limit : Int)
  | settle (c : Client) (id : Identity) (hash : String) (a : Act)

inductive Reply
  | done
  | records (l : List Outbox.Record)
  | rows (l : List Row)
  | failed (f : Failure)
deriving DecidableEq

def Reply.messages : Reply → List Message
  | .records l => l.map (·.toMessage)
  | .rows l => l.map (·.toMessage)
  | _ => []

/-- A host's transaction with one call; a host that is told of a failure may still commit. -/
structure Transaction where
  call : Call
  tx : Bool := true
  engine : Engine
  commits : Bool := true

/-- The table as the transaction leaves it to its end, and what the call returned. -/
def Transaction.perform (fold : String → String) (x : Transaction) (t : Table) : Table × Reply :=
  match x.call with
  | .insert m availableAt => written t (x.engine.insert fold t m availableAt)
  | .settle c id hash a => written t (c.settle fold x.tx x.engine t id hash a)
  | .pending .go limit =>
    match Outbox.pending fold x.tx x.engine t limit with
    | .ok l => (t, .records l)
    | .error f => (t, .failed f)
  | .pending .python limit =>
    match Durable.pending fold x.tx x.engine t limit with
    | .ok l => (t, .rows l)
    | .error f => (t, .failed f)
where
  written (t : Table) : Except Failure Table → Table × Reply
    | .ok t' => (t', .done)
    | .error f => (t, .failed f)

def Transaction.reply (fold : String → String) (t : Table) (x : Transaction) : Reply :=
  (x.perform fold t).2

def Transaction.step (fold : String → String) (t : Table) (x : Transaction) : Table :=
  if x.commits then (x.perform fold t).1 else t

def run (fold : String → String) (xs : List Transaction) : Table :=
  xs.foldl (Transaction.step fold) []

end ReliableMessaging.Delivery
