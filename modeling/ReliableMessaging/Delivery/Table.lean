import Mathlib.Data.List.Sort
import Mathlib.Tactic.Common

/-!
# The table of the receipt outbox

`delivery/mysql/schema.sql`: a message is staged with its body and its wire
form and stays in the table. Some messages ask the receiver for a receipt;
others are receipts themselves and end when the broker has them.
-/

namespace ReliableMessaging.Delivery

structure Identity where
  producer : String
  destination : String
  messageId : String
deriving DecidableEq

inductive Stage
  | staged
  | awaitingReceipt
  | confirmed
  | held
deriving DecidableEq

/-- Due to be published, again or for the first time. -/
def Stage.open : Stage → Bool
  | .staged | .awaitingReceipt => true
  | .confirmed | .held => false

structure Message where
  identity : Identity
  bodySha256 : String
  body : List UInt8
  wire : List UInt8
  topic : String
  aggregateKey : String
  aggregateSequence : Nat
  ordered : Bool
  requiresReceipt : Bool
deriving DecidableEq

/-- A row; times are in microseconds. -/
structure Row extends Message where
  stage : Stage := .staged
  attempts : Nat := 0
  availableAt : Nat
  publishedAt : Option Nat := none
  confirmedAt : Option Nat := none
  errorCode : String := ""
deriving DecidableEq

abbrev Table : Type := List Row

inductive Failure
  /-- `ErrConflict` and `MessageConflict`. -/
  | conflict (text : String)
  /-- An argument out of its bounds. -/
  | invalid (text : String)
  /-- `TransactionBindingError`. -/
  | binding (text : String)
  /-- More rows than the one that was asked for. -/
  | multiple
  | driver
deriving DecidableEq

/-- What the server decides: its clock, the statements that fail and the order of rows that
`ORDER BY` leaves open. -/
structure Engine where
  now : Nat
  readFails : Bool := false
  writeFails : Bool := false
  tie : Identity → Nat := fun _ => 0

section

variable (fold : String → String)

/-- `producer=? AND destination=? AND message_id=?`. -/
def same (a b : Identity) : Bool :=
  fold a.producer = fold b.producer && fold a.destination = fold b.destination &&
    fold a.messageId = fold b.messageId

def aggregate (m : Message) : String × String × String :=
  (fold m.identity.producer, fold m.identity.destination, fold m.aggregateKey)

/-- An older message of the aggregate is not confirmed. -/
def blocked (t : Table) (n : Row) : Bool :=
  t.any fun older => aggregate fold older.toMessage = aggregate fold n.toMessage &&
    older.ordered && older.stage ≠ .confirmed && older.aggregateSequence < n.aggregateSequence

def due (now : Nat) (t : Table) (n : Row) : Bool :=
  n.stage.open && n.availableAt ≤ now && (!n.ordered || !blocked fold t n)

/-- `ORDER BY available_at, message_id`, and then as the server likes. -/
def Engine.before (e : Engine) (a b : Row) : Prop :=
  a.availableAt < b.availableAt ∨ a.availableAt = b.availableAt ∧
    (fold a.identity.messageId < fold b.identity.messageId ∨
      fold a.identity.messageId = fold b.identity.messageId ∧
        e.tie a.identity ≤ e.tie b.identity)

instance (e : Engine) : DecidableRel (e.before fold) := fun _ _ =>
  inferInstanceAs (Decidable (_ ∨ _))

/-- The query for pending messages, which both clients send. -/
def Engine.selectPending (e : Engine) (t : Table) (limit : Nat) : Except Failure (List Row) :=
  if e.readFails then .error .driver
  else .ok (((t.filter (due fold e.now t)).insertionSort (e.before fold)).take limit)

/-- `SELECT … WHERE producer=? AND destination=? AND message_id=? FOR UPDATE`. -/
def Engine.selectLocked (e : Engine) (t : Table) (id : Identity) : Except Failure (List Row) :=
  if e.readFails then .error .driver else .ok (t.filter fun r => same fold id r.identity)

/-- `UPDATE … SET … WHERE producer=? AND destination=? AND message_id=?`. -/
def Engine.update (e : Engine) (t : Table) (id : Identity) (set : Row → Row) :
    Except Failure Table :=
  if e.writeFails then .error .driver
  else .ok (t.map fun r => if same fold id r.identity then set r else r)

/-- The host's `INSERT`, under the primary key. -/
def Engine.insert (e : Engine) (t : Table) (m : Message) (availableAt : Nat) :
    Except Failure Table :=
  if e.writeFails || t.any fun r => same fold m.identity r.identity then .error .driver
  else .ok (t ++ [{ m with availableAt }])

end

/-- `TIMESTAMPADD(SECOND, seconds, UTC_TIMESTAMP(6))`. -/
def Engine.later (e : Engine) (seconds : Int) : Nat := e.now + seconds.toNat * 1000000

end ReliableMessaging.Delivery
