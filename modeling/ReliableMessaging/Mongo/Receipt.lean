import ReliableMessaging.Mongo.Store

/-!
# Broker receipts in Mongo

`storage/transaction/mongo/receipt.go` and `recovery_receipt.go`. The sender's
audits are one `UpdateOne` each, whose filter carries every check; the
checker's audit reads the document in a transaction and then changes it.
-/

namespace ReliableMessaging.Mongo

open Transaction TxLang

variable {Ev : Type} {Ans : Ev → Type} (H : Sha256) (s : Store)

/-- A clause of a filter on the witness with this index. -/
def ExecutionDoc.witnessIs (d : ExecutionDoc) (i : Nat) (clause : BranchDoc → Bool) : Bool :=
  d.witnesses[i]?.any clause

def ExecutionDoc.setWitness (d : ExecutionDoc) (i : Nat) (set : BranchDoc → BranchDoc) :
    ExecutionDoc :=
  { d with witnesses := d.witnesses.modify i set }

/-- A field that is missing, or has one of these values. -/
def absentOr {α : Type} [DecidableEq α] (field : Option α) (values : List α) : Bool :=
  field.all (values.contains ·)

/-- `receiptFilter`: the index of the witness, and the filter on its document. -/
def receiptFilter (e : Execution) (ref : Reference) : Except Err (Nat × (ExecutionDoc → Bool)) :=
  if !matchExecution H e ref || ref.owner ≠ s.owner then .error .binding
  else match encodeReference Json.goEscape ref with
    | .error err => .error err
    | .ok raw => match (e.references H).idxOf? ref with
      | none => .error .invalidPlan
      | some i => .ok (i, fun d => d.token = e.token && d.planDigest = e.plan.digest H &&
          d.witnessIs i (·.reference = raw))

def BranchDoc.withHalf (w : BranchDoc) (h : HalfReceipt) (now : Nat) : BranchDoc :=
  { w with brokerMessageID := some h.brokerMessageID,
           brokerTransactionID := some h.brokerTransactionID, halfOutcome := some h.outcome,
           halfErrorCode := some h.errorCode, halfRecordedAt := some now }

def BranchDoc.withFinal (w : BranchDoc) (f : FinalOutcome) (code : String) (now : Nat) :
    BranchDoc :=
  { w with finalOutcome := some f, finalErrorCode := some code, finalRecordedAt := some now }

def recordHalf (e : Execution) (ref : Reference) (h : HalfReceipt) : Code Err Val Ans Unit := do
  refuse (!h.valid) .invalidPlan
  bindingIn s false
  let filter ← lift (receiptFilter H s e ref)
  let n ← updateOne (e.key H)
    (fun _ d => filter.2 d && d.state = .prepared && d.witnessIs filter.1 fun w =>
      w.state = .prepared &&
        absentOr w.halfOutcome [.notAttempted, .unknown, h.outcome] &&
        absentOr w.brokerMessageID ["", h.brokerMessageID] &&
        absentOr w.brokerTransactionID ["", h.brokerTransactionID])
    fun now d => d.setWitness filter.1 (·.withHalf h now)
  refuse (n ≠ 1) .staleExecution

def finalStates : FinalOutcome → List State
  | .commitConfirmed => [.committed]
  | .rollbackConfirmed => [.aborted]
  | _ => [.committed, .aborted]

def recordFinal (e : Execution) (ref : Reference) (f : FinalOutcome) (code : String) :
    Code Err Val Ans Unit := do
  refuse (!validFinal f code) .invalidPlan
  bindingIn s false
  let filter ← lift (receiptFilter H s e ref)
  let n ← updateOne (e.key H)
    (fun _ d => filter.2 d && (finalStates f).contains d.state && d.witnessIs filter.1 fun w =>
      w.state = d.state && absentOr w.finalOutcome [.notAttempted, .unknown, f])
    fun now d => d.setWitness filter.1 (·.withFinal f code now)
  refuse (n ≠ 1) .staleExecution

def recordRecoveryFinalIn (ref : Reference) (outcome : FinalOutcome) (state : State) :
    Code Err Val Ans Unit := do
  bindingIn s false
  let db ← find
  let d : ExecutionDoc ← found (db.lookup (.execution (ref.executionKey H))) .noRows
  refuse (d.owner ≠ ref.owner || d.writerEpoch ≠ ref.writerEpoch || d.fence ≠ ref.fence ||
    d.state ≠ state) .staleExecution
  let i ← found (d.witnesses.findIdx? (·.reference = ref)) .staleExecution
  let branch ← found d.witnesses[i]? .staleExecution
  refuse (branch.state ≠ state ||
    !absentOr branch.finalOutcome [.notAttempted, .unknown, outcome]) .staleExecution
  if branch.finalOutcome = some outcome then pure () else do
    let clock ← now
    let changed ← updateIn (setExecution (ref.executionKey H)
      (fun d => d.state = state &&
        d.witnessIs i fun w => w.reference = branch.reference && w.state = state)
      fun d => d.setWitness i (·.withFinal outcome "" clock))
    refuse (changed.keys.length ≠ 1) .staleExecution

def recordRecoveryFinal (retries : Nat) (ref : Reference) (outcome : FinalOutcome) :
    Code Err Val Ans Unit := do
  let state ← lift (recoveryFinalState outcome)
  refuse (!ref.valid || ref.owner ≠ s.owner) .binding
  protocolTx retries (recordRecoveryFinalIn H s ref outcome state)

end ReliableMessaging.Mongo
