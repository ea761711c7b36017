import ReliableMessaging.Transaction.Codec
import ReliableMessaging.Transaction.Evidence
import ReliableMessaging.TxLang.Rows

/-!
# The collections of the transaction store

The three collections of the Mongo adapter, keyed by `_id`. The witnesses of an
execution are a list inside its document, in the plan's order, so one update of
one document ends an execution with all its witnesses. A field that is omitted
while empty is an option; `plan` and `reference` keep the value that was
encoded into them.
-/

namespace ReliableMessaging.Mongo

open Transaction TxLang

/-- An `_id` in one of the collections. -/
inductive Row where
  | binding (owner : String)
  | request (id : Bytes)
  | execution (id : Bytes)
deriving DecidableEq

structure BindingDoc where
  storeID : String
  writerEpoch : String
  schemaVersion : Nat
deriving DecidableEq

structure RequestDoc where
  owner : String
  scope : String
  idempotencyKey : String
  inputHash : Vector UInt8 32
  activeExecution : Bytes
  version : Nat := 0
deriving DecidableEq

structure BranchDoc where
  reference : Reference
  state : State
  brokerMessageID : Option String := none
  brokerTransactionID : Option String := none
  halfOutcome : Option HalfOutcome := none
  finalOutcome : Option FinalOutcome := none
  halfErrorCode : Option String := none
  finalErrorCode : Option String := none
  halfRecordedAt : Option Nat := none
  finalRecordedAt : Option Nat := none
deriving DecidableEq

structure ExecutionDoc where
  requestKey : Bytes
  owner : String
  plan : FrozenPlan
  planDigest : Bytes
  fence : Nat
  writerEpoch : String
  token : Token
  leaseUntil : Nat
  state : State
  guardVersion : Nat := 0
  witnesses : List BranchDoc
  prepareStarted : Bool := false
deriving DecidableEq

/-- What is stored under an `_id`. -/
abbrev Val : Row → Type
  | .binding _ => BindingDoc
  | .request _ => RequestDoc
  | .execution _ => ExecutionDoc

abbrev Collections : Type := Db Val

def schemaVersion : Nat := 1

/-- A BSON date, in nanoseconds. -/
def date (millis : Nat) : Nat := millis * 1000000

/-- `UpdateOne` or `FindOneAndUpdate` on `rm_tx_execution`: the document of an
`_id`, if it passes the rest of the filter. -/
def setExecution (id : Bytes) (filter : ExecutionDoc → Bool) (set : ExecutionDoc → ExecutionDoc) :
    Collections → Collections :=
  amend fun
    | .execution k, d => if k = id ∧ filter d then some (set d) else none
    | _, _ => none

def setRequest (id : Bytes) (filter : RequestDoc → Bool) (set : RequestDoc → RequestDoc) :
    Collections → Collections :=
  amend fun
    | .request k, q => if k = id ∧ filter q then some (set q) else none
    | _, _ => none

def setBinding (owner : String) (set : BindingDoc → BindingDoc) : Collections → Collections :=
  amend fun
    | .binding o, b => if o = owner then some (set b) else none
    | _, _ => none

section Statements

variable {Ev : Type} {Ans : Ev → Type} {α : Type}

def find : Code Err Val Ans Collections := send .driver .select

/-- `$$NOW`, in nanoseconds. -/
def now : Code Err Val Ans Nat := do
  let millis : Nat ← send Err.driver .now
  pure (date millis)

/-- `UpdateOne` on an execution outside of transactions; the filter and the
change may name `$$NOW`. The answer is the number of documents it changed. -/
def updateOne (id : Bytes) (filter : Nat → ExecutionDoc → Bool)
    (set : Nat → ExecutionDoc → ExecutionDoc) : Code Err Val Ans Nat := do
  let reply : Nat × Collections ← send Err.driver (.auto fun millis =>
    setExecution id (filter (date millis)) (set (date millis)))
  pure reply.2.keys.length

/-- The same in the open transaction. -/
def updateIn (docs : Collections → Collections) : Code Err Val Ans Collections :=
  send Err.driver (.update docs)

def insertOne (r : Row) (v : Val r) : Code Err Val Ans Unit := do
  let fresh : Bool ← send Err.driver (.insert (AList.singleton r v))
  refuse (!fresh) .duplicateKey

/-- One run of a transaction's callback: commit if it succeeds, and roll back
and do as `failed` says if it does not. -/
def attempt (body : Code Err Val Ans α) (failed : Err → Prog Val Ans (Except Err α)) :
    Code Err Val Ans α :=
  ExceptT.mk (.step .begin fun
    | none => .ret (.error .driver)
    | some _ => body.run.bind fun
      | .error e => .step .rollback fun _ => failed e
      | .ok a => .step .commit fun
        | some _ => .ret (.ok a)
        | none => .ret (.error .driver))

/-- The driver's `WithTransaction`: after a transient error the callback runs
again, up to `retries` times; how often it comes to that is the driver's and
the deadline's business. -/
def withTransaction (body : Code Err Val Ans α) : Nat → Code Err Val Ans α
  | 0 => attempt body fun e => .ret (.error e)
  | retries + 1 => attempt body fun e =>
    if e = .driver then (withTransaction body retries).run else .ret (.error e)

end Statements

section Lookups

variable {id k : Bytes} {σ : Collections} {filter : ExecutionDoc → Bool}
variable {set : ExecutionDoc → ExecutionDoc} {r : Row}

@[simp] theorem lookup_setExecution_execution :
    (setExecution id filter set σ).lookup (.execution k) =
      (σ.lookup (.execution k)).bind fun d => if k = id ∧ filter d then some (set d) else none := by
  simp [setExecution, lookup_amend]

theorem lookup_setExecution_ne (h : r ≠ .execution id) :
    (setExecution id filter set σ).lookup r = none := by
  cases r with
  | execution k =>
    have hk : k ≠ id := fun heq => h (heq ▸ rfl)
    simp [lookup_setExecution_execution, hk]
  | _ => simp [setExecution, lookup_amend]

theorem setExecution_cases (id : Bytes) (filter : ExecutionDoc → Bool)
    (set : ExecutionDoc → ExecutionDoc) (σ : Collections) :
    (∀ r, (setExecution id filter set σ).lookup r = none) ∨
      ∃ d : ExecutionDoc, σ.lookup (.execution id) = some d ∧ filter d = true ∧
        (setExecution id filter set σ).lookup (.execution id) = some (set d) := by
  cases hd : (σ.lookup (.execution id) : Option ExecutionDoc) with
  | none =>
    refine .inl fun r => ?_
    by_cases hr : r = .execution id
    · subst hr
      rw [lookup_setExecution_execution, hd, Option.bind_none]
    · exact lookup_setExecution_ne hr
  | some d =>
    cases hf : filter d with
    | true =>
      refine .inr ⟨d, rfl, hf, ?_⟩
      rw [lookup_setExecution_execution, hd, Option.bind_some, if_pos ⟨rfl, hf⟩]
    | false =>
      refine .inl fun r => ?_
      by_cases hr : r = .execution id
      · subst hr
        rw [lookup_setExecution_execution, hd, Option.bind_some, if_neg (by simp [hf])]
      · exact lookup_setExecution_ne hr

theorem lookup_setRequest_ne {filter : RequestDoc → Bool} {set : RequestDoc → RequestDoc}
    (h : ∀ k, r ≠ .request k) : (setRequest id filter set σ).lookup r = none := by
  cases r with
  | request k => exact absurd rfl (h k)
  | _ => simp [setRequest, lookup_amend]

theorem lookup_setBinding_ne {owner : String} {set : BindingDoc → BindingDoc}
    (h : ∀ o, r ≠ .binding o) : (setBinding owner set σ).lookup r = none := by
  cases r with
  | binding o => exact absurd rfl (h o)
  | _ => simp [setBinding, lookup_amend]

end Lookups

end ReliableMessaging.Mongo
