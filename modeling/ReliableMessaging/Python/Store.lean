import ReliableMessaging.MySql.Host
import ReliableMessaging.MySql.Receipt

/-!
# The Python transaction store over MySQL

`python/src/reliable_messaging/transaction_mysql.py`, over the tables that the
Go store writes. Every method of the store opens a session and a transaction,
reads the binding row, and commits when its block is left without an
exception, also where it has written nothing (`session`).
-/

namespace ReliableMessaging.Python

open Transaction TxLang MySql

/-! ## Values -/

/-- What the constructor of `Execution` checks. -/
def constructed (e : Execution) : Bool :=
  e.plan.valid && 0 < e.fence && e.fence ≤ maxFence && required [e.writerEpoch]

/-- `Execution.owned`: some byte of the token is not zero. -/
def owned (e : Execution) : Bool := e.token ≠ 0

def resolve (ref : Reference) (evidence : Option Evidence) : Decision :=
  match evidence with
  | none => .unknown
  | some ev =>
    if ev.reference ≠ ref then .unknown
    else if ev.executionState = .committed && ev.branchState = .committed then .commit
    else if ev.executionState = .aborted && ev.branchState = .aborted then .rollback
    else .unknown

/-- `decide_local`: the set of all decisions has one element, and it is known. -/
def decideLocal (refs : List Reference) (evidence : List (Option Evidence)) : LocalOutcome :=
  match refs with
  | [] => .unknown
  | first :: rest =>
    if refs.length ≠ evidence.length then .unknown
    else if rest.any fun ref => !ref.sameExecution first then .unknown
    else
      let decisions := List.zipWith resolve refs evidence
      if decisions.all (· = .commit) then .committed
      else if decisions.all (· = .rollback) then .aborted
      else .unknown

def validateAdvance (H : Sha256) (previous : Execution) (candidate : FrozenPlan)
    (evidence : List (Option Evidence)) (replan : Bool) : Except Err Unit :=
  if previous.fence ≥ maxFence then .error .invalidPlan
  else match (requestFor previous.plan).match candidate with
    | .error err => .error err
    | .ok () =>
      if decideLocal (previous.references H) evidence ≠ .aborted then .error .staleExecution
      else if replan then
        if candidate.input.operationID = previous.plan.input.operationID then .error .invalidPlan
        else .ok ()
      else if candidate.digest H ≠ previous.plan.digest H then .error .invalidPlan
      else .ok ()

/-- `timedelta(seconds=…)` of a time in nanoseconds: whole microseconds, a
half to the even one. -/
def roundMicros (nanos : Nat) : Nat :=
  if nanos % 1000 < 500 || (nanos % 1000 = 500 && nanos / 1000 % 2 = 0) then nanos / 1000
  else nanos / 1000 + 1

/-! ## Plain reads -/

variable {Ev : Type} {Ans : Ev → Type}

inductive Level where
  | readCommitted
  | repeatableRead
deriving DecidableEq

/-- What the plain reads of a transaction see: at `REPEATABLE READ`, once there
was one, the rows that it saw, under the transaction's own writes since. -/
structure Reads where
  level : Level
  seen : Option Tables := none

/-- A `SELECT` without locks. -/
def Reads.select (v : Reads) : Code Err Val Ans (Tables × Reads) :=
  match v.level, v.seen with
  | .repeatableRead, some db => pure (db, v)
  | _, _ => do
    let db ← MySql.select
    pure (db, { v with seen := some db })

/-- An `UPDATE`: the number of rows it changed, which later reads see. -/
def Reads.update (v : Reads) (rows : Tables → Tables) : Code Err Val Ans (Nat × Reads) := do
  let written : Tables ← send Err.driver (.update rows)
  pure (written.keys.length, { v with seen := v.seen.map (written ∪ ·) })

/-! ## Sessions -/

/-- A store: its binding, and the level of the sessions it is given. -/
structure MySQLTransactionStore where
  binding : Store
  sessions : Level

variable (H : Sha256) (s : MySQLTransactionStore)

/-- `_binding`: the binding row, share-locked to the end of the transaction. -/
def bindingIn (binding : Store) (writer : Bool) : Code Err Val Ans Unit := do
  let row ← lockBinding .share binding.owner
  let b ← found row .binding
  refuse (b.storeID ≠ binding.storeID) .binding
  refuse (writer && b.writerEpoch ≠ binding.writerEpoch) .binding
  refuse (b.schemaVersion ≠ schemaVersion) .schema

/-- `async with self.sessions() as db, db.begin()`, the binding first. -/
def session {α : Type} (writer : Bool) (body : Reads → Code Err Val Ans α) :
    Code Err Val Ans α :=
  withTx .driver do
    bindingIn s.binding writer
    let a ← body { level := s.sessions }
    commit
    pure a

/-- The execution that `_load` makes of the row it has selected, with its token
only as a capability. -/
def loadFrom (db : Tables) (active : Bytes) (capability : Bool) : Except Err Reservation :=
  match (db.lookup (.execution active) : Option ExecutionRow) with
  | none => .error .noRows
  | some row =>
    if !constructed row.execution then .error .invalidPlan
    else if row.execution.key H ≠ active then .error .binding
    else .ok ⟨if capability then row.execution else { row.execution with token := 0 },
      capability, row.state⟩

def load (v : Reads) (active : Bytes) (capability : Bool) :
    Code Err Val Ans (Reservation × Reads) := do
  let read ← v.select
  let reserved ← lift (loadFrom H read.1 active capability)
  pure (reserved, read.2)

def requestIn (v : Reads) (key : Bytes) (lock : Bool) :
    Code Err Val Ans (Option RequestRow × Reads) :=
  if lock then do
    let row ← lockRequest key
    pure (row, v)
  else do
    let read ← v.select
    pure (read.1.lookup (.request key), read.2)

def lookupIn (v : Reads) (r : Request) (lock : Bool) :
    Code Err Val Ans (Option Reservation × Reads) := do
  let read ← requestIn v (r.keyDigest H) lock
  match read.1 with
  | none => pure (none, read.2)
  | some q => do
    refuse (q.owner ≠ r.owner || q.scope ≠ r.scope || q.idempotencyKey ≠ r.key) .binding
    refuse (q.inputHash ≠ r.inputHash) .inputConflict
    let loaded ← load H read.2 q.activeExecution false
    lift (r.match loaded.1.execution.plan)
    pure (some loaded.1, loaded.2)

def lookup (r : Request) : Code Err Val Ans (Option Reservation) := do
  refuse (r.owner ≠ s.binding.owner) .binding
  session s false fun v => do
    let found ← lookupIn H v r false
    pure found.1

/-- `_new`: a lease from the database clock, and a fresh token. -/
def new (p : FrozenPlan) (fence : Nat) (o : ReserveOptions) : Code Err Val Ans Execution := do
  let now ← utcTimestamp
  let random : Nat ← send Err.driver .random
  pure ⟨p, fence, s.binding.writerEpoch, BitVec.ofNat 256 random,
    now + roundMicros o.lease * 1000⟩

/-- The loop of `_insert` over the references. -/
def insertWitnesses (key : Bytes) : List Reference → Code Err Val Ans Unit
  | [] => pure ()
  | ref :: refs => do
    let stored ← lift (encodeReference Json.pythonEscape ref)
    let fresh ← insert (.witness key (branchKey H ref.branchID)) ⟨stored, .prepared, none, none,
      .notAttempted, .notAttempted, "", "", none, none⟩
    refuse (!fresh) .duplicateKey
    insertWitnesses key refs

def insertExecution (r : Request) (e : Execution) : Code Err Val Ans Unit := do
  let plan ← lift (encodePlan H Json.pythonEscape e.plan)
  let fresh ← insert (.execution (e.key H)) ⟨r.keyDigest H, e.plan.input.owner,
    e.plan.input.operationID, e.writerEpoch, e.fence, e.token, plan, .prepared, e.leaseUntil, 0,
    false⟩
  refuse (!fresh) .duplicateKey
  insertWitnesses H (e.key H) (e.references H)

/-- The `try` block of `reserve`. -/
def reserveNew (r : Request) (p : FrozenPlan) (o : ReserveOptions) :
    Code Err Val Ans Reservation :=
  session s true fun _ => do
    let e ← new s p 1 o
    let fresh ← insert (.request (r.keyDigest H)) ⟨r.owner, r.scope, r.key, r.inputHash, e.key H⟩
    refuse (!fresh) .duplicateKey
    insertExecution H r e
    pure ⟨e, true, .prepared⟩

/-- `reserve`: whichever insert finds a duplicate, the request is looked up. -/
def reserve (r : Request) (p : FrozenPlan) (o : ReserveOptions) :
    Code Err Val Ans Reservation := do
  refuse (!o.valid) .invalidPlan
  lift (r.match p)
  refuse (r.owner ≠ s.binding.owner) .binding
  tryCatch (reserveNew H s r p o) fun err =>
    if err = .duplicateKey then do
      let observed ← lookup H s r
      found observed .staleExecution
    else throw err

def beginPrepare (e : Execution) : Code Err Val Ans Unit := do
  refuse (!owned e || e.plan.input.owner ≠ s.binding.owner ||
    e.writerEpoch ≠ s.binding.writerEpoch) .binding
  session s true fun v => do
    let now ← utcTimestamp
    let n ← update (setExecution (e.key H)
      (fun row => row.token = e.token && row.state = .prepared && !row.prepareStarted &&
        row.leaseUntil > now)
      fun row => { row with prepareStarted := true })
    refuse (n ≠ 1) .staleExecution
    let stored ← load H v (e.key H) true
    refuse (stored.1.execution.plan.digest H ≠ e.plan.digest H) .staleExecution

/-- What the query of `_evidence` finds. -/
def evidenceOf (ref : Reference) (db : Tables) : Option Evidence :=
  match (db.lookup (.execution (ref.executionKey H)) : Option ExecutionRow),
    (db.lookup (.witness (ref.executionKey H) (branchKey H ref.branchID)) : Option WitnessRow) with
  | some e, some w => some ⟨w.reference, e.state, w.state⟩
  | _, _ => none

/-- `_evidence`. -/
def evidenceIn (v : Reads) (ref : Reference) : Code Err Val Ans (Option Evidence × Reads) := do
  let read ← v.select
  pure (evidenceOf H ref read.1, read.2)

def evidence (ref : Reference) : Code Err Val Ans (Option Evidence) := do
  refuse (ref.owner ≠ s.binding.owner) .binding
  session s false fun v => do
    let found ← evidenceIn H v ref
    pure found.1

def abort (e : Execution) (expired : Bool) : Code Err Val Ans Bool := do
  refuse (e.plan.input.owner ≠ s.binding.owner || !owned e) .binding
  session s false fun _ => do
    let now ← utcTimestampIf expired
    let n ← update (setExecution (e.key H)
      (fun row => row.state = .prepared && row.token = e.token &&
        (!expired || row.leaseUntil ≤ now))
      fun row => { row with state := .aborted, guardVersion := row.guardVersion + 1 })
    if n ≠ 1 then pure false else do
      let n ← update (setWitnesses (e.key H) (fun _ w => w.state = .prepared)
        fun w => { w with state := .aborted })
      refuse (n ≠ (e.references H).length) .staleExecution
      pure true

def abortOnce (e : Execution) : Code Err Val Ans Bool := abort H s e false

/-- The keys that the scan of `reconcile_once` selects. -/
def expiredKeys (owner : String)
    (order : List (Bytes × ExecutionRow) → List (Bytes × ExecutionRow)) (now limit : Nat)
    (db : Tables) : List Bytes :=
  let rows := db.entries.filterMap fun
    | ⟨.execution k, e⟩ =>
      if e.owner = owner && e.state = .prepared && e.leaseUntil ≤ now then some (k, e) else none
    | _ => none
  (((order rows).insertionSort fun a b => a.2.leaseUntil ≤ b.2.leaseUntil).take limit).map (·.1)

/-- The comprehension of `reconcile_once` over the keys. -/
def loadAll (v : Reads) : List Bytes → Code Err Val Ans (List Execution)
  | [] => pure []
  | key :: keys => do
    let loaded ← load H v key true
    let rest ← loadAll loaded.2 keys
    pure (loaded.1.execution :: rest)

/-- The loop of `reconcile_once`: abort what is still expired, and count. -/
def reconcileLoop : List Execution → Nat → Code Err Val Ans Nat
  | [], n => pure n
  | e :: rest, n => do
    let ok ← abort H s e true
    reconcileLoop rest (if ok then n + 1 else n)

/-- `reconcile_once`; `order` is that of the rows where the query leaves it open. -/
def reconcileOnce (order : List (Bytes × ExecutionRow) → List (Bytes × ExecutionRow))
    (limit : Nat) : Code Err Val Ans Nat := do
  refuse (limit < 1 || limit > 1000) .invalidPlan
  let executions ← session s false fun v => do
    let now ← utcTimestamp
    let read ← v.select
    loadAll H read.2 (expiredKeys s.binding.owner order now limit read.1)
  reconcileLoop H s executions 0

/-- The comprehension of `_advance` over the old references. -/
def oldEvidence (v : Reads) : List Reference → Code Err Val Ans (List (Option Evidence))
  | [] => pure []
  | ref :: refs => do
    let ev ← evidenceIn H v ref
    let rest ← oldEvidence ev.2 refs
    pure (ev.1 :: rest)

def advance (previous : Execution) (candidate : FrozenPlan) (o : ReserveOptions)
    (replan : Bool) : Code Err Val Ans Reservation := do
  refuse (!o.valid) .invalidPlan
  let r := requestFor previous.plan
  refuse (r.owner ≠ s.binding.owner) .binding
  session s true fun v => do
    let locked ← lookupIn H v r true
    let current ← found locked.1 .staleExecution
    refuse (current.execution.key H ≠ previous.key H ||
      current.execution.plan.digest H ≠ previous.plan.digest H) .staleExecution
    let old ← oldEvidence H locked.2 (previous.references H)
    lift (validateAdvance H previous candidate old replan)
    let e ← new s candidate (previous.fence + 1) o
    insertExecution H r e
    let _ ← update (setRequest (r.keyDigest H) fun q => { q with activeExecution := e.key H })
    pure ⟨e, true, .prepared⟩

def retry (previous : Execution) (o : ReserveOptions) : Code Err Val Ans Reservation :=
  advance H s previous previous.plan o false

def replan (previous : Execution) (candidate : FrozenPlan) (o : ReserveOptions) :
    Code Err Val Ans Reservation :=
  advance H s previous candidate o true

/-! ## Guards -/

def checkWitnesses (v : Reads) : List Reference → Code Err Val Ans Reads
  | [] => pure v
  | ref :: refs => do
    let ev ← evidenceIn H v ref
    let found ← found ev.1 .staleExecution
    refuse (found.reference ≠ ref || found.branchState ≠ .prepared) .staleExecution
    checkWitnesses ev.2 refs

/-- `bind`, in a transaction that reads as `v` says. -/
def bind (binding : Store) (v : Reads) (e : Execution) : Code Err Val Ans (Guard × Reads) := do
  refuse (!owned e) .binding
  refuse (e.plan.input.owner ≠ binding.owner || e.writerEpoch ≠ binding.writerEpoch) .binding
  bindingIn binding true
  let now ← utcTimestamp
  let bumped ← v.update (setExecution (e.key H)
    (fun row => row.token = e.token && row.state = .prepared && row.leaseUntil > now)
    fun row => { row with guardVersion := row.guardVersion + 1 })
  refuse (bumped.1 ≠ 1) .staleExecution
  let stored ← load H bumped.2 (e.key H) true
  refuse (stored.1.execution.plan.digest H ≠ e.plan.digest H) .staleExecution
  let v ← checkWitnesses H stored.2 (e.references H)
  pure (⟨e, false⟩, v)

/-- `commit_witness`. What it writes no later `bind` of the transaction reads:
one of the same execution finds it no longer prepared. -/
def commitWitness (g : Guard) : Code Err Val Ans Guard := do
  refuse g.committed .binding
  let n ← update (setWitnesses (g.execution.key H) (fun _ w => w.state = .prepared)
    fun w => { w with state := .committed })
  refuse (n ≠ (g.execution.references H).length) .staleExecution
  let n ← update (setExecution (g.execution.key H)
    (fun row => row.token = g.execution.token && row.state = .prepared)
    fun row => { row with state := .committed })
  refuse (n ≠ 1) .staleExecution
  pure { g with committed := true }

/-! ## Receipts -/

/-- `_receipt`: the execution and the witness of a reference, locked and
checked, and then `fn`. -/
def receipt (e : Execution) (ref : Reference)
    (fn : Bytes → Bytes → State → WitnessRow → Code Err Val Ans Unit) : Code Err Val Ans Unit := do
  refuse (!owned e || !(e.references H).contains ref || ref.owner ≠ s.binding.owner) .binding
  session s false fun _ => do
    let row ← lockExecution (e.key H)
    let x ← found row .noRows
    refuse (x.token ≠ e.token) .staleExecution
    let row ← lockWitness (e.key H) (branchKey H ref.branchID)
    let w ← found row .noRows
    refuse (w.reference ≠ ref || w.state ≠ x.state) .staleExecution
    fn (e.key H) (branchKey H ref.branchID) x.state w

def recordHalf (e : Execution) (ref : Reference) (h : HalfReceipt) : Code Err Val Ans Unit :=
  receipt H s e ref fun ek bk state w => do
    refuse (state ≠ .prepared) .staleExecution
    refuse ((w.halfOutcome ≠ .notAttempted && w.halfOutcome ≠ .unknown &&
        w.halfOutcome ≠ h.outcome) || contradicts w.brokerMessageID h.brokerMessageID ||
      contradicts w.brokerTransactionID h.brokerTransactionID) .staleExecution
    let now ← utcTimestamp
    let _ ← update (setWitnesses ek (fun b _ => b = bk) fun w =>
      { w with halfOutcome := h.outcome, brokerMessageID := some h.brokerMessageID,
               brokerTransactionID := some h.brokerTransactionID, halfErrorCode := h.errorCode,
               halfRecordedAt := some now })

def recordFinal (e : Execution) (ref : Reference) (f : FinalOutcome) (code : String) :
    Code Err Val Ans Unit := do
  refuse (f = .notAttempted || code.utf8ByteSize > 128) .invalidPlan
  receipt H s e ref fun ek bk state w => do
    refuse (w.finalOutcome ≠ .notAttempted && w.finalOutcome ≠ .unknown && w.finalOutcome ≠ f)
      .staleExecution
    refuse ((state ≠ .committed && state ≠ .aborted) ||
      (f = .commitConfirmed && state ≠ .committed) ||
      (f = .rollbackConfirmed && state ≠ .aborted)) .staleExecution
    let now ← utcTimestamp
    let _ ← update (setWitnesses ek (fun b _ => b = bk) fun w =>
      { w with finalOutcome := f, finalErrorCode := code, finalRecordedAt := some now })

def recordRecoveryFinal (ref : Reference) (outcome : FinalOutcome) : Code Err Val Ans Unit := do
  let expected ← lift (recoveryFinalState outcome)
  refuse (ref.owner ≠ s.binding.owner) .binding
  session s false fun _ => do
    let row ← lockExecution (ref.executionKey H)
    let x ← found row .noRows
    refuse (x.owner ≠ ref.owner || x.operationID ≠ ref.operationID ||
      x.writerEpoch ≠ ref.writerEpoch || x.fence ≠ ref.fence || x.state ≠ expected) .staleExecution
    let row ← lockWitness (ref.executionKey H) (branchKey H ref.branchID)
    let w ← found row .noRows
    refuse (w.reference ≠ ref || w.state ≠ expected || (w.finalOutcome ≠ .notAttempted &&
      w.finalOutcome ≠ .unknown && w.finalOutcome ≠ outcome)) .staleExecution
    if w.finalOutcome = outcome then pure () else do
      let now ← utcTimestamp
      let _ ← update (setWitnesses (ref.executionKey H)
        (fun b _ => b = branchKey H ref.branchID) fun w =>
        { w with finalOutcome := outcome, finalErrorCode := "", finalRecordedAt := some now })

/-! ## Hosts -/

/-- Run a host's script with the guards so far; `announce` lets the log know
that the transaction is bound to an execution. -/
def hostSteps (announce : Execution → Code Err Val Ans Unit) (v : Reads) :
    List HostStep → List Guard → Code Err Val Ans Unit
  | [], _ => pure ()
  | .bind binding e :: steps, guards => do
    let bound ← bind H binding v e
    announce e
    hostSteps announce bound.2 steps (guards ++ [bound.1])
  | .commitWitness i :: steps, guards => do
    let g ← found guards[i]? .transactionRequired
    let g' ← commitWitness H g
    hostSteps announce v steps (guards.set i g')

/-- What a host's transaction sees when the script starts: it has read
something of its own before, or not. -/
def firstReads (level : Level) (reads : Bool) : Code Err Val Ans Reads :=
  if reads then do
    let read ← Reads.select { level := level }
    pure read.2
  else pure { level := level }

/-- A root transaction of a host: the script, then commit or roll back. What
the host has read before decides what a `REPEATABLE READ` transaction sees;
after the first `bind` it no longer does. -/
def rootTransaction (announce : Execution → Code Err Val Ans Unit) (level : Level)
    (reads : Bool) (steps : List HostStep) (commits : Bool) : Code Err Val Ans Unit :=
  withTx .driver do
    let v ← firstReads level reads
    hostSteps H announce v steps []
    if commits then commit else pure ()

end ReliableMessaging.Python
