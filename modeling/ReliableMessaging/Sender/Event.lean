import ReliableMessaging.Transaction.Evidence

/-!
# What the protocol asks of the world

Everything the sender, the checker and a host's root transaction do that is
not a statement on the store. The log of a run remembers each of these with
its answer; `none` is a panic, or an answer that never came. Two events ask
for nothing and only mark a place in the log: `bound` and `recorded`.
-/

namespace ReliableMessaging.Sender

open Transaction

inductive Event where
  /-- A `Bind` has returned in a host's root transaction. -/
  | bound (e : Execution)
  /-- `ctx.Err() != nil`. -/
  | cancelled
  /-- `backend.Prepare`: send a half message. -/
  | prepare (ref : Reference) (wire : Bytes)
  /-- A `RecordHalf` has returned without an error. -/
  | recorded (ref : Reference) (h : HalfReceipt)
  /-- The host's `LocalExecutor`. -/
  | runLocal (e : Execution)
  /-- `handle.Finalize`: end a half message. -/
  | finalize (ref : Reference) (decision : Decision)
  /-- What a checker callback answers to the broker. -/
  | resolution (ref : Reference) (decision : Decision)
deriving DecidableEq

/-- What `backend.Prepare` returns: a receipt, whether there is a handle, and
whether there is an error. -/
structure Prepared where
  receipt : HalfReceipt
  handle : Bool
  failed : Bool
deriving DecidableEq

/-- What a `LocalExecutor` returns: an outcome, and whether there is an error. -/
structure Reported where
  outcome : LocalOutcome
  failed : Bool
deriving DecidableEq

abbrev Answer : Event → Type
  | .bound _ => Unit
  | .cancelled => Bool
  | .prepare _ _ => Prepared
  | .recorded _ _ => Unit
  | .runLocal _ => Reported
  | .finalize _ _ => Bool
  | .resolution _ _ => Unit

end ReliableMessaging.Sender
