import ReliableMessaging.MySql.Guard

/-!
# A host's root transaction

The host opens a transaction, binds executions and stages their witnesses in
any order and any number, and commits or rolls back. `Bind` and
`CommitWitness` answer only success or an error, and after an error the host
rolls the whole transaction back; so a host is its script. Its own tables are
not among the rows modelled here, except for the binding row, which it alone
writes (`rotate`).
-/

namespace ReliableMessaging.MySql

open Transaction TxLang

variable {Ev : Type} {Ans : Ev → Type}

/-- One step of a host's script; a guard is named by the order of its `Bind`. -/
inductive HostStep where
  | bind (s : Store) (e : Execution)
  | commitWitness (guard : Nat)

/-- Run the script with the guards so far; `announce` lets the log know that
this transaction is bound to an execution. -/
def hostSteps (H : Sha256) (announce : Execution → Code Err Val Ans Unit) :
    List HostStep → List Guard → Code Err Val Ans Unit
  | [], _ => pure ()
  | .bind s e :: steps, guards => do
    let g ← Guard.bind H s e
    announce e
    hostSteps H announce steps (guards ++ [g])
  | .commitWitness i :: steps, guards => do
    let g ← found guards[i]? .transactionRequired
    let g' ← Guard.commitWitness H g
    hostSteps H announce steps (guards.set i g')

/-- A root transaction: the script, then commit or roll back. -/
def rootTransaction (H : Sha256) (announce : Execution → Code Err Val Ans Unit)
    (steps : List HostStep) (commits : Bool) : Code Err Val Ans Unit :=
  withTx .driver do
    hostSteps H announce steps []
    if commits then commit else pure ()

def rotate (owner : String) (set : BindingRow → BindingRow) : Code Err Val Ans Unit :=
  withTx .driver do
    let _ ← update (setBinding owner set)
    commit

end ReliableMessaging.MySql
