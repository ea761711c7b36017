import ReliableMessaging.MySql.Store

/-!
# Broker receipts

`storage/transaction/mysql/receipt.go` and `recovery_receipt.go`: what the
broker answered, kept beside the witness. An audit never changes a state.
-/

namespace ReliableMessaging.MySql

open Transaction TxLang

variable {Ev : Type} {Ans : Ev → Type} (H : Sha256) (s : Store)

/-- `receiptTx`: the execution and the witness of a reference, locked and
checked; then `fn`, given the common state and the witness; then commit. -/
def receiptTx (e : Execution) (ref : Reference)
    (fn : Bytes → Bytes → State → Code Err Val Ans Unit) : Code Err Val Ans Unit := do
  refuse (!matchExecution H e ref || ref.owner ≠ s.owner) .binding
  withTx .driver do
    bindingIn s false
    let row ← lockExecution (e.key H)
    let x ← found row .noRows
    refuse (x.token ≠ e.token) .staleExecution
    let row ← lockWitness (e.key H) (branchKey H ref.branchID)
    let w ← found row .noRows
    refuse (w.reference ≠ ref || w.state ≠ x.state) .staleExecution
    fn (e.key H) (branchKey H ref.branchID) x.state
    commit

/-- A recorded text that is not empty and differs from the new one. -/
def contradicts (recorded : Option String) (text : String) : Bool :=
  match recorded with
  | some old => old ≠ "" && old ≠ text
  | none => false

def recordHalf (e : Execution) (ref : Reference) (h : HalfReceipt) : Code Err Val Ans Unit := do
  refuse (!h.valid) .invalidPlan
  receiptTx H s e ref fun ek bk state => do
    refuse (state ≠ .prepared) .staleExecution
    let db ← select
    let w : WitnessRow ← found (db.lookup (.witness ek bk)) .noRows
    refuse (contradicts w.brokerMessageID h.brokerMessageID ||
      contradicts w.brokerTransactionID h.brokerTransactionID ||
      (w.halfOutcome ≠ .notAttempted && w.halfOutcome ≠ .unknown && w.halfOutcome ≠ h.outcome))
      .staleExecution
    let now ← utcTimestamp
    let _ ← update (setWitnesses ek (fun b _ => b = bk) fun w =>
      { w with halfOutcome := h.outcome, brokerMessageID := some h.brokerMessageID,
               brokerTransactionID := some h.brokerTransactionID, halfErrorCode := h.errorCode,
               halfRecordedAt := some now })

def recordFinal (e : Execution) (ref : Reference) (f : FinalOutcome) (code : String) :
    Code Err Val Ans Unit := do
  refuse (!validFinal f code) .invalidPlan
  receiptTx H s e ref fun ek bk state => do
    refuse (state = .prepared) .staleExecution
    refuse ((f = .commitConfirmed && state ≠ .committed) ||
      (f = .rollbackConfirmed && state ≠ .aborted)) .staleExecution
    let db ← select
    let w : WitnessRow ← found (db.lookup (.witness ek bk)) .noRows
    refuse (w.finalOutcome ≠ .notAttempted && w.finalOutcome ≠ .unknown && w.finalOutcome ≠ f)
      .staleExecution
    let now ← utcTimestamp
    let _ ← update (setWitnesses ek (fun b _ => b = bk) fun w =>
      { w with finalOutcome := f, finalErrorCode := code, finalRecordedAt := some now })

/-- `RecordRecoveryFinal`: no capability, so the exact terminal witness instead. -/
def recordRecoveryFinal (ref : Reference) (outcome : FinalOutcome) : Code Err Val Ans Unit := do
  let state ← lift (recoveryFinalState outcome)
  refuse (!ref.valid || ref.owner ≠ s.owner) .binding
  withTx .driver do
    bindingIn s false
    let row ← lockExecution (ref.executionKey H)
    let x ← found row .noRows
    refuse (x.owner ≠ ref.owner || x.operationID ≠ ref.operationID ||
      x.writerEpoch ≠ ref.writerEpoch || x.fence ≠ ref.fence || x.state ≠ state) .staleExecution
    let row ← lockWitness (ref.executionKey H) (branchKey H ref.branchID)
    let w ← found row .noRows
    refuse (w.reference ≠ ref || w.state ≠ state || (w.finalOutcome ≠ .notAttempted &&
      w.finalOutcome ≠ .unknown && w.finalOutcome ≠ outcome)) .staleExecution
    if w.finalOutcome = outcome then commit else do
      let now ← utcTimestamp
      let _ ← update (setWitnesses (ref.executionKey H)
        (fun b _ => b = branchKey H ref.branchID) fun w =>
        { w with finalOutcome := outcome, finalErrorCode := "", finalRecordedAt := some now })
      commit

end ReliableMessaging.MySql
