import ReliableMessaging.MySql.Store

/-!
# Guards in a host's own transaction

`storage/transaction/mysql/guard.go`. `Bind` and `CommitWitness` run inside a
transaction that the host opened and the host ends; they neither commit nor
roll back.
-/

namespace ReliableMessaging.MySql

open Transaction TxLang

variable {Ev : Type} {Ans : Ev → Type} (H : Sha256) (s : Store)

/-- `Guard`; its transaction is the one that is open. -/
structure Guard where
  execution : Execution
  committed : Bool

/-- The loop of `Bind` over the references: each witness exact and prepared. -/
def Guard.checkWitnesses (key : Bytes) : List Reference → Code Err Val Ans Unit
  | [] => pure ()
  | ref :: refs => do
    let row ← lockWitness key (branchKey H ref.branchID)
    let w ← found row .noRows
    refuse (w.reference ≠ ref || w.state ≠ .prepared) .staleExecution
    Guard.checkWitnesses key refs

/-- `Bind`: a real write on the execution row, so that no one else can end it. -/
def Guard.bind (e : Execution) : Code Err Val Ans Guard := do
  refuse (!e.valid || e.plan.input.owner ≠ s.owner || e.writerEpoch ≠ s.writerEpoch) .binding
  bindingIn s true
  let now ← utcTimestamp
  let n ← update (setExecution (e.key H)
    (fun row => row.token = e.token && row.state = .prepared && row.leaseUntil > now)
    fun row => { row with guardVersion := row.guardVersion + 1 })
  refuse (n ≠ 1) .staleExecution
  let db ← select
  let stored : ExecutionRow ← found (db.lookup (.execution (e.key H))) .noRows
  refuse (stored.plan.digest H ≠ e.plan.digest H) .staleExecution
  Guard.checkWitnesses H (e.key H) (e.references H)
  pure ⟨e, false⟩

/-- `CommitWitness`: all witnesses, then the execution. -/
def Guard.commitWitness (g : Guard) : Code Err Val Ans Guard := do
  refuse g.committed .transactionRequired
  let n ← update (setWitnesses (g.execution.key H) (fun _ w => w.state = .prepared)
    fun w => { w with state := .committed })
  refuse (n ≠ g.execution.plan.input.branches.length) .staleExecution
  let n ← update (setExecution (g.execution.key H)
    (fun row => row.token = g.execution.token && row.state = .prepared)
    fun row => { row with state := .committed })
  refuse (n ≠ 1) .staleExecution
  pure { g with committed := true }

end ReliableMessaging.MySql
