import ReliableMessaging.MySql.Host
import ReliableMessaging.MySql.Invariant
import ReliableMessaging.MySql.Receipt

/-!
# What each operation's commit does

`Trans` is what any commit may do, and all that the operations rely on of each
other. Each operation's own commit does much less. Here is, operation by
operation, which rows its commit changes, from what to what, and what it has
checked of the rows it found: the promise that the operation's program keeps
(`MySql.Verified`) and that no one else needs to know of.
-/

namespace ReliableMessaging.MySql

open Transaction TxLang

variable (H : Sha256)

structure SetsExecution (k : Bytes) (x x' : ExecutionRow) (σ ν : Tables) : Prop where
  before : σ.lookup (.execution k) = some x
  after : ν.lookup (.execution k) = some x'
  rest : ∀ r, r ≠ .execution k → ν.lookup r = σ.lookup r

structure SetsWitness (k b : Bytes) (w w' : WitnessRow) (σ ν : Tables) : Prop where
  before : σ.lookup (.witness k b) = some w
  after : ν.lookup (.witness k b) = some w'
  rest : ∀ r, r ≠ .witness k b → ν.lookup r = σ.lookup r

/-- One execution row changes, and its witnesses take its state. -/
structure EndsExecution (k : Bytes) (x x' : ExecutionRow) (σ ν : Tables) : Prop where
  before : σ.lookup (.execution k) = some x
  after : ν.lookup (.execution k) = some x'
  witness : ∀ b, ν.lookup (.witness k b) =
    (σ.lookup (.witness k b)).map fun w : WitnessRow => { w with state := x'.state }
  rest : ∀ r, r ≠ .execution k → (∀ b, r ≠ .witness k b) → ν.lookup r = σ.lookup r

/-- The plan of this execution is the one that the active execution of its request has already:
what a `Retry` runs again. -/
def Retried (e : Execution) (σ : Tables) : Prop :=
  ∃ (q : RequestRow) (a : ExecutionRow),
    σ.lookup (.request ((requestFor e.plan).keyDigest H)) = some q ∧
    σ.lookup (.execution q.activeExecution) = some a ∧ a.plan = e.plan

def BeginsPrepare (e : Execution) (σ ν : Tables) : Prop :=
  ∃ x : ExecutionRow, SetsExecution (e.key H) x { x with prepareStarted := true } σ ν ∧
    x.token = e.token ∧ x.plan = e.plan ∧ x.state = .prepared ∧ x.prepareStarted = false

/-- What the updates of `Abort` ask for, once the call is entered: the row of the key, and as many
witnesses as the caller's plan has branches. -/
structure Abortable (s : Store) (e : Execution) (σ : Tables) (x : ExecutionRow) : Prop where
  owner : e.plan.input.owner = s.owner
  admitted : Admitted s σ
  stored : σ.lookup (.execution (e.key H)) = some x
  token : x.token = e.token
  prepared : x.state = .prepared
  branches : x.plan.input.branches.length = e.plan.input.branches.length

def Aborts (s : Store) (e : Execution) (σ ν : Tables) : Prop :=
  ∃ x : ExecutionRow, EndsExecution (e.key H) x
      { x with state := .aborted, guardVersion := x.guardVersion + 1 } σ ν ∧ Abortable H s e σ x

/-- What an audit finds: the execution, and the witness of exactly this
reference, in one state. -/
structure Finds (k b : Bytes) (ref : Reference) (σ : Tables) (x : ExecutionRow)
    (w : WitnessRow) : Prop where
  execution : σ.lookup (.execution k) = some x
  witness : σ.lookup (.witness k b) = some w
  reference : w.reference = ref
  state : w.state = x.state

def WitnessRow.withHalf (w : WitnessRow) (h : HalfReceipt) (now : Nat) : WitnessRow :=
  { w with halfOutcome := h.outcome, brokerMessageID := some h.brokerMessageID,
           brokerTransactionID := some h.brokerTransactionID, halfErrorCode := h.errorCode,
           halfRecordedAt := some now }

def WitnessRow.withFinal (w : WitnessRow) (f : FinalOutcome) (code : String) (now : Nat) :
    WitnessRow :=
  { w with finalOutcome := f, finalErrorCode := code, finalRecordedAt := some now }

def RecordsHalf (e : Execution) (ref : Reference) (h : HalfReceipt) (σ ν : Tables) : Prop :=
  ∃ (x : ExecutionRow) (w : WitnessRow) (now : Nat),
    SetsWitness (e.key H) (branchKey H ref.branchID) w (w.withHalf h now) σ ν ∧
    Finds (e.key H) (branchKey H ref.branchID) ref σ x w ∧ ref ∈ e.references H ∧
    x.token = e.token ∧ x.state = .prepared ∧ h.valid = true ∧
    contradicts w.brokerMessageID h.brokerMessageID = false ∧
    contradicts w.brokerTransactionID h.brokerTransactionID = false ∧
    (w.halfOutcome = .notAttempted ∨ w.halfOutcome = .unknown ∨ w.halfOutcome = h.outcome)

def RecordsFinal (e : Execution) (ref : Reference) (f : FinalOutcome) (code : String)
    (σ ν : Tables) : Prop :=
  ∃ (x : ExecutionRow) (w : WitnessRow) (now : Nat),
    SetsWitness (e.key H) (branchKey H ref.branchID) w (w.withFinal f code now) σ ν ∧
    Finds (e.key H) (branchKey H ref.branchID) ref σ x w ∧ ref ∈ e.references H ∧
    x.token = e.token ∧ x.state ≠ .prepared ∧ f ≠ .notAttempted ∧
    (f = .commitConfirmed → x.state = .committed) ∧
    (f = .rollbackConfirmed → x.state = .aborted) ∧
    (w.finalOutcome = .notAttempted ∨ w.finalOutcome = .unknown ∨ w.finalOutcome = f)

/-- What `RecordFinal` checks before it looks for the rows. -/
structure MayRecord (s : Store) (e : Execution) (ref : Reference) (f : FinalOutcome)
    (code : String) (σ : Tables) : Prop where
  form : validFinal f code = true
  named : matchExecution H e ref = true
  owner : ref.owner = s.owner
  admitted : Admitted s σ

/-- `RecordRecoveryFinal` of this outcome: nothing, if it is recorded already. -/
def RecordsRecovery (ref : Reference) (f : FinalOutcome) (σ ν : Tables) : Prop :=
  ν = σ ∨ ∃ (x : ExecutionRow) (w : WitnessRow) (now : Nat),
    SetsWitness (ref.executionKey H) (branchKey H ref.branchID) w (w.withFinal f "" now) σ ν ∧
    Finds (ref.executionKey H) (branchKey H ref.branchID) ref σ x w ∧
    recoveryFinalState f = .ok x.state ∧
    (w.finalOutcome = .notAttempted ∨ w.finalOutcome = .unknown)

/-- What a root transaction does to one execution that it bound: the state is
what it was, or committed with all witnesses. -/
structure HostsExecution (k : Bytes) (e : Execution) (σ ν : Tables) (x : ExecutionRow) (g : Nat)
    (st : State) : Prop where
  key : e.key H = k
  token : x.token = e.token
  plan : x.plan = e.plan
  prepared : x.state = .prepared
  before : σ.lookup (.execution k) = some x
  after : ν.lookup (.execution k) = some ({ x with guardVersion := g, state := st } : ExecutionRow)
  notAborted : st ≠ .aborted
  witness : ∀ b, ν.lookup (.witness k b) = if st = .prepared then σ.lookup (.witness k b) else
    (σ.lookup (.witness k b)).map fun w : WitnessRow => ({ w with state := st } : WitnessRow)

/-- The commit of a root transaction with this script: every execution whose
rows it changes is one that the script bound, and whatever the script bound
was bound with the token and the plan that are stored. -/
structure Hosts (steps : List HostStep) (σ ν : Tables) : Prop where
  binding : ∀ o, ν.lookup (.binding o) = σ.lookup (.binding o)
  request : ∀ q, ν.lookup (.request q) = σ.lookup (.request q)
  key : ∀ k, (ν.lookup (.execution k) = σ.lookup (.execution k) ∧
      ∀ b, ν.lookup (.witness k b) = σ.lookup (.witness k b)) ∨
    ∃ s e x g st, HostStep.bind s e ∈ steps ∧ HostsExecution H k e σ ν x g st
  bound : ∀ s e, HostStep.bind s e ∈ steps → ∃ x : ExecutionRow,
    σ.lookup (.execution (e.key H)) = some x ∧ x.token = e.token ∧ x.plan = e.plan

def Rotates (σ ν : Tables) : Prop := ∀ r, (∀ o, r ≠ .binding o) → ν.lookup r = σ.lookup r

end ReliableMessaging.MySql
