import ReliableMessaging.Mongo.Store

/-!
# Guards in a host's session transaction

`storage/transaction/mongo/guard.go`, and the root transaction of a host that
binds executions and stages their witnesses in any order and commits or rolls
back; after an error of `Bind` or `CommitWitness` it rolls back. A guard
remembers the version its own `Bind` wrote.
-/

namespace ReliableMessaging.Mongo

open Transaction TxLang

variable {Ev : Type} {Ans : Ev → Type} (H : Sha256) (s : Store)

/-- `Guard`; its session is the one whose transaction is open. -/
structure Guard where
  execution : Execution
  version : Nat
  finished : Bool

/-- The document that `FindOneAndUpdate` returns, after the change. -/
def returned (id : Bytes) (changed : Collections) : Option ExecutionDoc :=
  changed.lookup (.execution id)

def Guard.bind (e : Execution) : Code Err Val Ans Guard := do
  refuse (!e.valid || e.plan.input.owner ≠ s.owner || e.writerEpoch ≠ s.writerEpoch) .binding
  bindingIn s true
  let clock ← now
  let changed ← updateIn (setExecution (e.key H)
    (fun d => d.state = .prepared && d.token = e.token && d.planDigest = e.plan.digest H &&
      d.leaseUntil > clock)
    fun d => { d with guardVersion := d.guardVersion + 1 })
  let d ← found (returned (e.key H) changed) .staleExecution
  refuse (d.plan.digest H ≠ e.plan.digest H) .staleExecution
  refuse (!witnessesAre (e.references H) .prepared d) .staleExecution
  pure ⟨e, d.guardVersion, false⟩

def Guard.commitWitness (g : Guard) : Code Err Val Ans Guard := do
  refuse g.finished .transactionRequired
  let changed ← updateIn (setExecution (g.execution.key H)
    (fun d => d.state = .prepared && d.token = g.execution.token && d.guardVersion = g.version)
    fun d => d.ended .committed)
  refuse (changed.keys.length ≠ 1) .staleExecution
  pure { g with finished := true }

/-- One step of a host's script; a guard is named by the order of its `Bind`. -/
inductive HostStep where
  | bind (s : Store) (e : Execution)
  | commitWitness (guard : Nat)

def hostSteps : List HostStep → List Guard → Code Err Val Ans Unit
  | [], _ => pure ()
  | .bind s e :: steps, guards => do
    let g ← Guard.bind H s e
    hostSteps steps (guards ++ [g])
  | .commitWitness i :: steps, guards => do
    let g ← found guards[i]? .transactionRequired
    let g' ← Guard.commitWitness H g
    hostSteps steps (guards.set i g')

/-- A root transaction: the script, then commit or roll back. -/
def rootTransaction (steps : List HostStep) (commits : Bool) : Code Err Val Ans Unit :=
  withTx .driver do
    hostSteps H steps []
    if commits then send Err.driver .commit else pure ()

def rotate (owner : String) (set : BindingDoc → BindingDoc) : Code Err Val Ans Unit :=
  withTx .driver do
    let _ ← updateIn (setBinding owner set)
    send Err.driver .commit

end ReliableMessaging.Mongo
