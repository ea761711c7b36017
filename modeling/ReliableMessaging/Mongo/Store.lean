import Mathlib.Data.List.Sort
import ReliableMessaging.Mongo.Schema

/-!
# The Go transaction store over Mongo

`storage/transaction/mongo/store.go`, operation by operation. `Reserve`,
`Lookup` and the two advances run in a session transaction (`protocolTx`).
`BeginPrepare` and `abort` do not: they read the binding document and then
change the execution with one `UpdateOne`, two statements with nothing held
between them.
-/

namespace ReliableMessaging.Mongo

open Transaction TxLang

variable {Ev : Type} {Ans : Ev → Type} (H : Sha256) (s : Store)

def bindingIn (writer : Bool) : Code Err Val Ans Unit := do
  let db ← find
  let b : BindingDoc ← found (db.lookup (.binding s.owner)) .noRows
  refuse (b.storeID ≠ s.storeID || (writer && b.writerEpoch ≠ s.writerEpoch)) .binding
  refuse (b.schemaVersion ≠ schemaVersion) .schema

def protocolTx {α : Type} (retries : Nat) (fn : Code Err Val Ans α) : Code Err Val Ans α :=
  withTransaction fn retries

def ExecutionDoc.execution (d : ExecutionDoc) : Execution :=
  ⟨d.plan, d.fence, d.writerEpoch, d.token, d.leaseUntil⟩

def decode (id : Bytes) (d : ExecutionDoc) (capability : Bool) : Except Err Reservation :=
  if d.fence = 0 || d.planDigest ≠ d.plan.digest H || d.plan.input.owner ≠ s.owner then
    .error .invalidPlan
  else if !d.execution.valid then .error .invalidPlan
  else if d.execution.key H ≠ id then .error .invalidPlan
  else .ok ⟨if capability then d.execution else { d.execution with token := 0 }, false, d.state⟩

def lookupIn (r : Request) : Code Err Val Ans Reservation := do
  let db ← find
  let root : RequestDoc ← found (db.lookup (.request (r.keyDigest H))) .noRows
  refuse (root.owner ≠ r.owner || root.scope ≠ r.scope || root.idempotencyKey ≠ r.key)
    .requestIdentity
  refuse (root.inputHash ≠ r.inputHash) .inputConflict
  let db ← find
  let d : ExecutionDoc ← found (db.lookup (.execution root.activeExecution)) .noRows
  let result ← lift (decode H s root.activeExecution d false)
  lift (r.match result.execution.plan)
  pure result

def lookup (retries : Nat) (r : Request) : Code Err Val Ans Reservation := do
  refuse (!r.valid || r.owner ≠ s.owner) .binding
  mapErr (fun e => if e = .noRows then .notFound else e) (protocolTx retries do
    bindingIn s false
    lookupIn H s r)

/-- A fresh witness for each reference; an error of `EncodeReference` ends it. -/
def branchDocs (refs : List Reference) : Except Err (List BranchDoc) :=
  refs.mapM fun ref => do
    let raw ← encodeReference Json.goEscape ref
    pure { reference := raw, state := .prepared }

/-- `newDoc`: a fresh token, and a lease from the clock of the binding's query. -/
def newDoc (p : FrozenPlan) (fence : Nat) (o : ReserveOptions) :
    Code Err Val Ans (ExecutionDoc × Execution) := do
  let random : Nat ← send Err.driver .random
  let db ← find
  let _ : BindingDoc ← found (db.lookup (.binding s.owner)) .binding
  let clock ← now
  let e : Execution := ⟨p, fence, s.writerEpoch, BitVec.ofNat 256 random,
    (clock + o.lease) / 1000000 * 1000000⟩
  let plan ← lift (encodePlan H Json.goEscape p)
  let witnesses ← lift (branchDocs (e.references H))
  pure ({ requestKey := (requestFor p).keyDigest H, owner := p.input.owner, plan := plan,
          planDigest := p.digest H, fence := fence, writerEpoch := e.writerEpoch,
          token := e.token, leaseUntil := e.leaseUntil, state := .prepared,
          witnesses := witnesses }, e)

/-- The callback of `Reserve`: what is there, or a new request and execution. -/
def reserveIn (r : Request) (p : FrozenPlan) (o : ReserveOptions) :
    Code Err Val Ans Reservation := do
  bindingIn s true
  let current ← ExceptT.mk ((lookupIn H s r).run.bind fun
    | .ok current => .ret (.ok (some current))
    | .error .noRows => .ret (.ok none)
    | .error e => .ret (.error e))
  match current with
  | some current => pure current
  | none => do
    let d ← newDoc H s p 1 o
    insertOne (.request (r.keyDigest H))
      { owner := r.owner, scope := r.scope, idempotencyKey := r.key, inputHash := r.inputHash,
        activeExecution := d.2.key H }
    insertOne (.execution (d.2.key H)) d.1
    pure ⟨d.2, true, .prepared⟩

/-- `Reserve`; a duplicate key, wherever it comes from, is a lookup. -/
def reserve (validateSchema : Except Err Unit) (retries : Nat) (r : Request) (p : FrozenPlan)
    (o : ReserveOptions) : Code Err Val Ans Reservation := do
  refuse (!o.valid || !p.valid || r.owner ≠ s.owner) .binding
  lift (r.match p)
  lift validateSchema
  ExceptT.mk ((protocolTx retries (reserveIn H s r p o)).run.bind fun
    | .error .duplicateKey => (lookup H s retries r).run
    | result => .ret result)

/-- `Evidence`: the witness with exactly this reference. -/
def evidence (ref : Reference) : Code Err Val Ans (Option Evidence) := do
  refuse (!ref.valid || ref.owner ≠ s.owner) .binding
  bindingIn s false
  let db ← find
  match (db.lookup (.execution (ref.executionKey H)) : Option ExecutionDoc) with
  | none => pure none
  | some d =>
    match d.witnesses.find? (·.reference = ref) with
    | none => pure none
    | some branch => pure (some ⟨branch.reference, d.state, branch.state⟩)

def beginPrepare (e : Execution) : Code Err Val Ans Unit := do
  refuse (!e.valid || e.plan.input.owner ≠ s.owner || e.writerEpoch ≠ s.writerEpoch) .binding
  bindingIn s true
  let n ← updateOne (e.key H)
    (fun now d => d.state = .prepared && d.token = e.token && d.planDigest = e.plan.digest H &&
      !d.prepareStarted && d.leaseUntil > now)
    fun _ d => { d with prepareStarted := true }
  refuse (n ≠ 1) .staleExecution

/-- The clauses `witnesses.<i>.reference` and `witnesses.<i>.state` of a filter,
one pair for each of the references, and `$size`. -/
def witnessesAre (refs : List Reference) (state : State) (d : ExecutionDoc) : Bool :=
  (refs.zipIdx.all fun x => d.witnesses[x.2]?.any fun w => w.reference = x.1 && w.state = state) &&
    d.witnesses.length = refs.length

def ExecutionDoc.ended (d : ExecutionDoc) (state : State) : ExecutionDoc :=
  { d with state := state, witnesses := d.witnesses.map fun w => { w with state := state } }

/-- `abort`; with `expired` only after the lease. -/
def abort (e : Execution) (expired : Bool) : Code Err Val Ans Bool := do
  refuse (!e.valid || e.plan.input.owner ≠ s.owner) .binding
  bindingIn s false
  let refs ← lift ((e.references H).mapM (encodeReference Json.goEscape))
  let n ← updateOne (e.key H)
    (fun now d => d.state = .prepared && d.token = e.token && d.planDigest = e.plan.digest H &&
      witnessesAre refs .prepared d && (!expired || d.leaseUntil ≤ now))
    fun _ d => { d.ended .aborted with guardVersion := d.guardVersion + 1 }
  pure (n = 1)

def abortOnce (e : Execution) : Code Err Val Ans Bool := abort H s e false

/-- The expired documents of an owner, oldest lease first; `order` is the
server's order of documents with equal leases. -/
def expiredDocs (order : List (Bytes × ExecutionDoc) → List (Bytes × ExecutionDoc))
    (now limit : Nat) (db : Collections) : List (Bytes × ExecutionDoc) :=
  let docs := db.entries.filterMap fun
    | ⟨.execution id, d⟩ =>
      if d.owner = s.owner && d.state = .prepared && d.leaseUntil ≤ now then some (id, d) else none
    | _ => none
  ((order docs).insertionSort fun a b => a.2.leaseUntil ≤ b.2.leaseUntil).take limit

def reconcileLoop : List (Bytes × ExecutionDoc) → Nat → Code Err Val Ans Nat
  | [], n => pure n
  | (id, d) :: rest, n => do
    let r ← lift (decode H s id d true)
    let ok ← abort H s r.execution true
    reconcileLoop rest (if ok then n + 1 else n)

def reconcileOnce (order : List (Bytes × ExecutionDoc) → List (Bytes × ExecutionDoc))
    (limit : Nat) : Code Err Val Ans Nat := do
  refuse (limit < 1 || limit > 1000) .invalidPlan
  bindingIn s false
  let clock ← now
  let db ← find
  reconcileLoop H s (expiredDocs s order clock limit db) 0

/-- The loop of `advance` over the old references. -/
def oldEvidence : List Reference → Code Err Val Ans (List (Option Evidence))
  | [] => pure []
  | ref :: refs => do
    let e ← evidence H s ref
    let rest ← oldEvidence refs
    pure (e :: rest)

def advanceIn (r : Request) (previous : Execution) (p : FrozenPlan) (o : ReserveOptions)
    (replan : Bool) : Code Err Val Ans Reservation := do
  bindingIn s true
  let current ← lookupIn H s r
  refuse (current.execution.key H ≠ previous.key H ||
    current.execution.plan.digest H ≠ previous.plan.digest H) .staleExecution
  let old ← oldEvidence H s (previous.references H)
  lift (validateAdvance H previous p old replan)
  let d ← newDoc H s p (previous.fence + 1) o
  insertOne (.execution (d.2.key H)) d.1
  let changed ← updateIn (setRequest (r.keyDigest H) (·.activeExecution = previous.key H)
    fun q => { q with activeExecution := d.2.key H, version := q.version + 1 })
  refuse (changed.keys.length ≠ 1) .staleExecution
  pure ⟨d.2, true, .prepared⟩

/-- `advance`: a new fence for an aborted execution. -/
def advance (retries : Nat) (previous : Execution) (p : FrozenPlan) (o : ReserveOptions)
    (replan : Bool) : Code Err Val Ans Reservation := do
  refuse (!previous.plan.valid || !p.valid || !o.valid) .invalidPlan
  let r := requestFor previous.plan
  refuse (r.owner ≠ s.owner) .binding
  protocolTx retries (advanceIn H s r previous p o replan)

def retry (retries : Nat) (previous : Execution) (o : ReserveOptions) :
    Code Err Val Ans Reservation :=
  advance H s retries previous previous.plan o false

def replan (retries : Nat) (previous : Execution) (candidate : FrozenPlan) (o : ReserveOptions) :
    Code Err Val Ans Reservation :=
  advance H s retries previous candidate o true

end ReliableMessaging.Mongo
