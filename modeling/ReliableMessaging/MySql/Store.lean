import Mathlib.Data.List.Sort
import ReliableMessaging.MySql.Schema

/-!
# The Go transaction store over MySQL

`storage/transaction/mysql/store.go`, operation by operation. Each is the
program its client runs: the statements in the source's order, an error on
every path on which the source returns one, and a rollback after every body
that does not commit (`withTx` is the deferred `tx.Rollback()`).

`UTC_TIMESTAMP(6)` inside an `UPDATE` is a clock reading just before it.
-/

namespace ReliableMessaging.MySql

open Transaction TxLang

variable {Ev : Type} {Ans : Ev → Type} (H : Sha256) (s : Store)

/-- `bindingIn`: the binding row, share-locked to the end of the transaction. -/
def bindingIn (writer : Bool) : Code Err Val Ans Unit := do
  let row ← lockBinding .share s.owner
  let b ← found row .noRows
  refuse (b.storeID ≠ s.storeID || (writer && b.writerEpoch ≠ s.writerEpoch)) .binding
  refuse (b.schemaVersion ≠ schemaVersion) .schema

/-- What `bindingIn` asks of the row. -/
structure Admits (b : BindingRow) (writer : Bool) : Prop where
  store : b.storeID = s.storeID
  schema : b.schemaVersion = schemaVersion
  epoch : writer = true → b.writerEpoch = s.writerEpoch

/-- The binding row is there and admits the store. -/
def Admitted (σ : Tables) : Prop :=
  ∃ b : BindingRow, σ.lookup (.binding s.owner) = some b ∧ Admits s b false

def ExecutionRow.execution (row : ExecutionRow) : Execution :=
  ⟨row.plan, row.fence, row.writerEpoch, row.token, row.leaseUntil⟩

def scanExecution (row : ExecutionRow) : Except Err (Execution × State) :=
  if !row.execution.valid then .error .invalidPlan else .ok (row.execution, row.state)

/-- `lookupIn`: the active execution of a request, without its token. -/
def lookupIn (r : Request) (locked : Bool) : Code Err Val Ans Reservation := do
  let row ← selectRequest (r.keyDigest H) locked
  let q ← found row .noRows
  refuse (q.owner ≠ r.owner || q.scope ≠ r.scope || q.idempotencyKey ≠ r.key) .requestIdentity
  refuse (q.inputHash ≠ r.inputHash) .inputConflict
  let db ← select
  let active : ExecutionRow ← found (db.lookup (.execution q.activeExecution)) .noRows
  let scanned ← lift (scanExecution active)
  lift (r.match scanned.1.plan)
  pure ⟨{ scanned.1 with token := 0 }, false, scanned.2⟩

def lookup (r : Request) : Code Err Val Ans Reservation := do
  refuse (!r.valid || r.owner ≠ s.owner) .binding
  withTx .driver do
    bindingIn s false
    mapErr (fun e => if e = .noRows then .notFound else e) (lookupIn H r false)

/-- `newExecution`: a fresh token, and a lease from the database clock. -/
def newExecution (p : FrozenPlan) (fence : Nat) (o : ReserveOptions) :
    Code Err Val Ans Execution := do
  let random : Nat ← send Err.driver .random
  let now ← utcTimestamp
  pure ⟨p, fence, s.writerEpoch, BitVec.ofNat 256 random, (now + o.lease) / 1000 * 1000⟩

/-- The loop of `insertExecution` over the references. -/
def insertWitnesses (key : Bytes) : List Reference → Code Err Val Ans Unit
  | [] => pure ()
  | ref :: refs => do
    let stored ← lift (encodeReference Json.goEscape ref)
    let fresh ← insert (.witness key (branchKey H ref.branchID)) ⟨stored, .prepared, none, none,
      .notAttempted, .notAttempted, "", "", none, none⟩
    refuse (!fresh) .driver
    insertWitnesses key refs

def insertExecution (r : Request) (e : Execution) : Code Err Val Ans Unit := do
  let plan ← lift (encodePlan H Json.goEscape e.plan)
  let fresh ← insert (.execution (e.key H)) ⟨r.keyDigest H, e.plan.input.owner,
    e.plan.input.operationID, e.writerEpoch, e.fence, e.token, plan, .prepared, e.leaseUntil, 0,
    false⟩
  refuse (!fresh) .driver
  insertWitnesses H (e.key H) (e.references H)

/-- `Reserve`: the first insert of the request key wins; a duplicate is a lookup. -/
def reserve (r : Request) (p : FrozenPlan) (o : ReserveOptions) :
    Code Err Val Ans Reservation := do
  refuse (!o.valid || !p.valid || r.owner ≠ s.owner) .binding
  lift (r.match p)
  let won : Option Reservation ← withTx .driver do
    bindingIn s true
    let e ← newExecution s p 1 o
    let fresh ← insert (.request (r.keyDigest H)) ⟨r.owner, r.scope, r.key, r.inputHash, e.key H⟩
    if fresh then
      insertExecution H r e
      commit
      pure (some ⟨e, true, .prepared⟩)
    else
      send Err.driver .rollback
      pure none
  match won with
  | some reservation => pure reservation
  | none => lookup H s r

/-- What the query of `Evidence` finds, in one statement. -/
def evidenceOf (ref : Reference) (db : Tables) : Option Evidence :=
  match (db.lookup (.execution (ref.executionKey H)) : Option ExecutionRow),
    (db.lookup (.witness (ref.executionKey H) (branchKey H ref.branchID)) : Option WitnessRow) with
  | some e, some w =>
    match (db.lookup (.binding e.owner) : Option BindingRow) with
    | some b =>
      if b.storeID = s.storeID && b.schemaVersion = schemaVersion then
        some ⟨w.reference, e.state, w.state⟩
      else none
    | none => none
  | _, _ => none

/-- `Evidence`: one autocommit statement. -/
def evidence (ref : Reference) : Code Err Val Ans (Option Evidence) := do
  refuse (!ref.valid || ref.owner ≠ s.owner) .binding
  let db ← select
  pure (evidenceOf H s ref db)

/-- `BeginPrepare`: the capability is used up before any half message. -/
def beginPrepare (e : Execution) : Code Err Val Ans Unit := do
  refuse (!e.valid || e.plan.input.owner ≠ s.owner || e.writerEpoch ≠ s.writerEpoch) .binding
  withTx .driver do
    bindingIn s true
    let now ← utcTimestamp
    let n ← update (setExecution (e.key H)
      (fun row => row.token = e.token && row.state = .prepared && !row.prepareStarted &&
        row.leaseUntil > now)
      fun row => { row with prepareStarted := true })
    refuse (n ≠ 1) .staleExecution
    let db ← select
    let stored : ExecutionRow ← found (db.lookup (.execution (e.key H))) .noRows
    refuse (stored.plan.digest H ≠ e.plan.digest H) .staleExecution
    commit

/-- `abort`; with `expired` only after the lease. -/
def abort (e : Execution) (expired : Bool) : Code Err Val Ans Bool := do
  refuse (!e.valid || e.plan.input.owner ≠ s.owner) .binding
  withTx .driver do
    bindingIn s false
    let now ← utcTimestampIf expired
    let n ← update (setExecution (e.key H)
      (fun row => row.state = .prepared && row.token = e.token &&
        (!expired || row.leaseUntil ≤ now))
      fun row => { row with state := .aborted, guardVersion := row.guardVersion + 1 })
    if n = 0 then pure false else do
      let n ← update (setWitnesses (e.key H) (fun _ w => w.state = .prepared)
        fun w => { w with state := .aborted })
      refuse (n ≠ e.plan.input.branches.length) .staleExecution
      commit
      pure true

def abortOnce (e : Execution) : Code Err Val Ans Bool := abort H s e false

/-- The expired rows of an owner, oldest lease first; `order` is the engine's
order of rows with equal leases. -/
def expiredRows (order : List ExecutionRow → List ExecutionRow) (now limit : Nat) (db : Tables) :
    List ExecutionRow :=
  let rows := db.entries.filterMap fun
    | ⟨.execution _, e⟩ =>
      if e.owner = s.owner && e.state = .prepared && e.leaseUntil ≤ now then some e else none
    | _ => none
  ((order rows).insertionSort fun a b => a.leaseUntil ≤ b.leaseUntil).take limit

/-- The loop of `ReconcileOnce`: abort what is still expired, and count. -/
def reconcileLoop : List Execution → Nat → Code Err Val Ans Nat
  | [], n => pure n
  | e :: rest, n => do
    let ok ← abort H s e true
    reconcileLoop rest (if ok then n + 1 else n)

def reconcileOnce (order : List ExecutionRow → List ExecutionRow) (limit : Nat) :
    Code Err Val Ans Nat := do
  refuse (limit < 1 || limit > 1000) .invalidPlan
  let now ← utcTimestamp
  let db ← select
  let scanned ← lift ((expiredRows s order now limit db).mapM scanExecution)
  reconcileLoop H s (scanned.map (·.1)) 0

/-- The loop of `advance` over the old references: their locked witnesses. -/
def oldEvidence (key : Bytes) (state : State) : List Reference →
    Code Err Val Ans (List (Option Evidence))
  | [] => pure []
  | ref :: refs => do
    let row ← lockWitness key (branchKey H ref.branchID)
    let w ← found row .noRows
    let rest ← oldEvidence key state refs
    pure (some ⟨w.reference, state, w.state⟩ :: rest)

/-- `advance`: a new fence for an aborted execution, under the request's lock. -/
def advance (previous : Execution) (p : FrozenPlan) (o : ReserveOptions) (replan : Bool) :
    Code Err Val Ans Reservation := do
  refuse (!previous.plan.valid || !p.valid || !o.valid || previous.fence = 0 ||
    previous.fence ≥ maxFence) .invalidPlan
  let r := requestFor previous.plan
  refuse (r.owner ≠ s.owner) .binding
  lift (r.match p)
  refuse (replan && p.input.operationID = previous.plan.input.operationID) .invalidPlan
  withTx .driver do
    bindingIn s true
    let current ← lookupIn H r true
    refuse (current.state ≠ .aborted || current.execution.key H ≠ previous.key H ||
      current.execution.plan.digest H ≠ previous.plan.digest H) .staleExecution
    let old ← oldEvidence H (previous.key H) current.state (previous.references H)
    lift (validateAdvance H previous p old replan)
    let e ← newExecution s p (previous.fence + 1) o
    insertExecution H r e
    let _ ← update (setRequest (r.keyDigest H) fun q => { q with activeExecution := e.key H })
    commit
    pure ⟨e, true, .prepared⟩

def retry (previous : Execution) (o : ReserveOptions) : Code Err Val Ans Reservation :=
  advance H s previous previous.plan o false

def replan (previous : Execution) (candidate : FrozenPlan) (o : ReserveOptions) :
    Code Err Val Ans Reservation :=
  advance H s previous candidate o true

end ReliableMessaging.MySql
