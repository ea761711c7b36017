import ReliableMessaging.MySql.Receipt
import ReliableMessaging.Sender.Event

/-!
# The transactional sender and the checker

`transport/rocketmq/transaction_sender.go` (`execute` and its helpers) and
`checkMessage` of `transaction_lifecycle.go`, over the MySQL store. A call of
the backend, of the host's executor or of a handle that answers `none` has
panicked: `recover` ends the run there (`panicked`). Timeouts and cancelled
contexts show as driver errors of the store's statements and as the answers
to `ctx.Err()`.
-/

namespace ReliableMessaging.Sender

open Transaction TxLang MySql

structure BranchResult where
  reference : Reference
  half : HalfOutcome := .notAttempted
  final : FinalOutcome := .notAttempted
  brokerMessageID : String := ""
  brokerTransactionID : String := ""
  errorCode : String := ""

structure Result where
  localOutcome : LocalOutcome
  branches : List BranchResult

def initialResult (H : Sha256) (e : Execution) : Result :=
  ⟨.notStarted, (e.references H).map fun ref => { reference := ref }⟩

/-- `op.update` on one branch. -/
def Result.branch (r : Result) (i : Nat) (set : BranchResult → BranchResult) : Result :=
  { r with branches := r.branches.modify i set }

/-- What a run leaves: the result, and whether it returned an error. -/
structure Finished where
  result : Result
  failed : Bool

/-- `recover`: an outcome that was not started is no longer known. -/
def panicked (r : Result) : Finished :=
  ⟨if r.localOutcome = .notStarted then { r with localOutcome := .unknown } else r, true⟩

/-- `ctx.Err() != nil`. -/
def ctxErr : Prog Val Answer Bool := (ask Event.cancelled).bind fun r => .ret (r.getD true)

/-- `backend.Prepare`. -/
def prepareHalf (ref : Reference) (wire : Bytes) : Prog Val Answer (Option Prepared) :=
  ask (Event.prepare ref wire)

/-- Mark in the log that the receipt of a half message was recorded. -/
def markRecorded (ref : Reference) (h : HalfReceipt) : Prog Val Answer (Option Unit) :=
  ask (Event.recorded ref h)

/-- The host's `LocalExecutor`. -/
def runLocal (e : Execution) : Prog Val Answer (Option Reported) := ask (Event.runLocal e)

/-- `handle.Finalize`. -/
def finalizeHalf (ref : Reference) (decision : Decision) : Prog Val Answer (Option Bool) :=
  ask (Event.finalize ref decision)

section

variable (H : Sha256) (s : Store)

/-- The loop of `localProof` over the references; `none` is a store error. -/
def readEvidence : List Reference → Prog Val Answer (Option (List (Option Evidence)))
  | [] => pure (some [])
  | ref :: refs => do
    match ← (evidence H s ref).run with
    | .error _ => pure none
    | .ok value =>
      match ← readEvidence refs with
      | none => pure none
      | some rest => pure (some (value :: rest))

/-- `localProof`: fresh evidence of every branch, and whether it failed. -/
def localProof (e : Execution) : Prog Val Answer (LocalOutcome × Bool) := do
  match ← readEvidence H s (e.references H) with
  | none => pure (.unknown, true)
  | some evidence =>
    if ← ctxErr then pure (.unknown, true)
    else pure (decideLocal (e.references H) evidence, false)

/-- The loop of `finalize`: end every half message that has a handle. -/
def finalize (e : Execution) (decision : Decision) :
    List (Reference × Bool) → Nat → Finished → Prog Val Answer Finished
  | [], _, done => pure done
  | (_, false) :: rest, i, done => finalize e decision rest (i + 1) done
  | (ref, true) :: rest, i, done => do
    let r := done.result.branch i fun b => { b with final := .unknown }
    match ← finalizeHalf ref decision with
    | none => pure (panicked r)
    | some acknowledged =>
      let outcome := if !acknowledged then .unknown
        else if decision = .commit then .commitConfirmed else .rollbackConfirmed
      let code := if acknowledged then "" else "final_rpc_unknown"
      let r := r.branch i fun b =>
        { b with final := outcome, errorCode := if code ≠ "" then code else b.errorCode }
      match ← (recordFinal H s e ref outcome code).run with
      | .error _ =>
        finalize e decision rest (i + 1)
          ⟨r.branch i fun b => { b with errorCode := "final_audit_failed" }, true⟩
      | .ok () => finalize e decision rest (i + 1) ⟨r, done.failed || !acknowledged⟩

/-- `abortUnstarted`: roll back only what is proved aborted. -/
def abortUnstarted (e : Execution) (handles : List (Reference × Bool)) (r : Result) :
    Prog Val Answer Finished := do
  match ← (abort H s e false).run with
  | .error _ => pure ⟨r, true⟩
  | .ok true => finalize H s e .rollback handles 0 ⟨r, true⟩
  | .ok false =>
    let proof ← localProof H s e
    if proof.2 || proof.1 ≠ .aborted then pure ⟨r, true⟩
    else finalize H s e .rollback handles 0 ⟨r, true⟩

/-- A reported abort that nothing proves yet is made one, if it still can be. -/
def abortReported (e : Execution) (reported : Reported) (proof : LocalOutcome × Bool) :
    Prog Val Answer (LocalOutcome × Bool) :=
  if proof.1 ≠ .unknown || reported.outcome ≠ .aborted then pure proof
  else do
    match ← (abort H s e false).run with
    | .ok true => pure (.aborted, proof.2)
    | .ok false => pure proof
    | .error _ => pure (proof.1, true)

/-- After the local executor: what is proved decides, not what was reported. -/
def conclude (e : Execution) (handles : List (Reference × Bool)) (r : Result)
    (reported : Reported) : Prog Val Answer Finished := do
  let proof ← localProof H s e
  let known ← abortReported H s e reported proof
  if known.1 = .unknown then pure ⟨{ r with localOutcome := known.1 }, true⟩
  else
    finalize H s e (if known.1 = .aborted then .rollback else .commit) handles 0
      ⟨{ r with localOutcome := known.1 }, reported.failed || known.2⟩

/-- All half messages are prepared: run the host's business, once. -/
def runBusiness (e : Execution) (handles : List (Reference × Bool)) (r : Result) :
    Prog Val Answer Finished := do
  if ← ctxErr then abortUnstarted H s e handles r
  else
    match ← runLocal e with
    | none => pure (panicked r)
    | some reported => conclude H s e handles r reported

/-- The loop of `execute` over the branches. `handles` are the branches done
so far; the others have none yet. -/
def prepareBranches (e : Execution) : List (BranchInput × Reference) →
    List (Reference × Bool) → Result → Prog Val Answer Finished
  | [], handles, r => runBusiness H s e handles r
  | (b, ref) :: rest, handles, r => do
    if ← ctxErr then abortUnstarted H s e handles r
    else
      let i := handles.length
      let r := r.branch i fun br => { br with half := .unknown }
      match ← prepareHalf ref b.wire with
      | none => pure (panicked r)
      | some p =>
        let h := if p.receipt.valid then p.receipt else ⟨.unknown, "", "", "invalid_half_receipt"⟩
        let failed := p.failed || !p.receipt.valid
        let handles := handles ++ [(ref, p.handle)]
        let r := r.branch i fun br =>
          { br with half := h.outcome, brokerMessageID := h.brokerMessageID,
                    brokerTransactionID := h.brokerTransactionID, errorCode := h.errorCode }
        match ← (recordHalf H s e ref h).run with
        | .error _ =>
          abortUnstarted H s e handles
            (r.branch i fun br => { br with errorCode := "half_audit_failed" })
        | .ok () =>
          let _ ← markRecorded ref h
          if failed || h.outcome ≠ .prepared || !p.handle then abortUnstarted H s e handles r
          else prepareBranches e rest handles r

def execute (e : Execution) : Prog Val Answer Finished := do
  let r := initialResult H e
  match ← (beginPrepare H s e).run with
  | .ok () => prepareBranches H s e (e.plan.input.branches.zip (e.references H)) [] r
  | .error err =>
    if err = .staleExecution then do
      let proof ← localProof H s e
      pure ⟨{ r with localOutcome := proof.1 }, true⟩
    else pure ⟨r, true⟩

end

structure Route where
  logicalTopic : String
  revision : String

/-- What `checkMessage` reads of the sender's configuration. -/
structure Config where
  owner : String
  routes : String → Option Route

/-- `checkMessage`; `decoded` is the decoded reference property. -/
def checkMessage (H : Sha256) (s : Store) (config : Config) (physical : String)
    (decoded : Option Reference) (body : Bytes) : Prog Val Answer Decision :=
  match decoded, config.routes physical with
  | some ref, some route =>
    if ref.owner ≠ config.owner || ref.physicalTopic ≠ physical ||
        ref.logicalTopic ≠ route.logicalTopic || ref.routeRevision ≠ route.revision ||
        body.isEmpty || body.length > 262144 || H.sum body ≠ ref.wireHash then
      pure .unknown
    else do
      let found ← (evidence H s ref).run
      let cancelled ← ctxErr
      let decision := match found with
        | .ok ev => if cancelled then .unknown else resolve ref ev
        | .error _ => .unknown
      let _ ← (ask (Event.resolution ref decision) : Prog Val Answer (Option Unit))
      pure decision
  | _, _ => pure .unknown

end ReliableMessaging.Sender
